import Readability.Data.Value
import Readability.Decimal.Plain

/-!
Writing JSON: on one line without blanks, or with one entry on each line and two more blanks for
each bracket. A double that is no number is written as null.
-/

namespace Readability.Data.Json

/-- One hexadecimal digit. -/
def hexDigit (n : Nat) : Char :=
  Nat.digitChar n

/-- One character inside a string. -/
def escapeChar (c : Char) : List Char :=
  match c with
  | '"' => ['\\', '"']
  | '\\' => ['\\', '\\']
  | '\n' => ['\\', 'n']
  | '\r' => ['\\', 'r']
  | '\t' => ['\\', 't']
  | '\x08' => ['\\', 'b']
  | '\x0c' => ['\\', 'f']
  | c =>
    if c.toNat < 0x20 then ['\\', 'u', '0', '0', hexDigit (c.toNat / 16), hexDigit (c.toNat % 16)]
    else [c]

/-- A string between its quotes. -/
def quote (s : String) : String :=
  String.ofList ('"' :: s.toList.flatMap escapeChar ++ ['"'])

/-- A double as a number, or null. -/
def floatText (x : Float) : String :=
  if Decimal.isFinite x then Decimal.numeral x else "null"

mutual

/-- A value on one line. -/
def compact : Value → String
  | .null => "null"
  | .bool b => if b then "true" else "false"
  | .int n => toString n
  | .float x => floatText x
  | .text s => quote s
  | .refused _ => "null"
  | .list items => "[" ++ compactItems items ++ "]"
  | .record entries => "\x7b" ++ compactEntries entries ++ "\x7d"

/-- Items with commas between them. -/
def compactItems : List Value → String
  | [] => ""
  | [item] => compact item
  | item :: items => compact item ++ "," ++ compactItems items

/-- Entries with commas between them. -/
def compactEntries : List (String × Value) → String
  | [] => ""
  | [(name, value)] => quote name ++ ":" ++ compact value
  | (name, value) :: entries => quote name ++ ":" ++ compact value ++ "," ++ compactEntries entries

end

/-- A line break and the blanks of a depth. -/
def newLine (depth : Nat) : String :=
  String.ofList ('\n' :: List.replicate (2 * depth) ' ')

mutual

/-- A value over several lines, `depth` brackets deep. -/
def prettyAt (depth : Nat) : Value → String
  | .null => "null"
  | .bool b => if b then "true" else "false"
  | .int n => toString n
  | .float x => floatText x
  | .text s => quote s
  | .refused _ => "null"
  | .list [] => "[]"
  | .list (item :: items) =>
    "[" ++ newLine (depth + 1) ++ prettyAt (depth + 1) item ++ prettyItems (depth + 1) items
      ++ newLine depth ++ "]"
  | .record [] => "\x7b\x7d"
  | .record ((name, value) :: entries) =>
    "\x7b" ++ newLine (depth + 1) ++ quote name ++ ": " ++ prettyAt (depth + 1) value
      ++ prettyEntries (depth + 1) entries ++ newLine depth ++ "\x7d"

/-- The items behind the first one. -/
def prettyItems (depth : Nat) : List Value → String
  | [] => ""
  | item :: items => "," ++ newLine depth ++ prettyAt depth item ++ prettyItems depth items

/-- The entries behind the first one. -/
def prettyEntries (depth : Nat) : List (String × Value) → String
  | [] => ""
  | (name, value) :: entries =>
    "," ++ newLine depth ++ quote name ++ ": " ++ prettyAt depth value
      ++ prettyEntries depth entries

end

/-- A value over several lines. -/
def pretty (v : Value) : String :=
  prettyAt 0 v

end Readability.Data.Json
