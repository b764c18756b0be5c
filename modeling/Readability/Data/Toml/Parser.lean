import Readability.Data.Toml.Table
import Readability.Decimal.Nearest
import Readability.Time.Calendar

/-!
Reading TOML, version 1.0. A date or time becomes a record with one key, under which nothing is
looked up.
-/

namespace Readability.Data.Toml

/-- What is read off the front of a text, and the rest. -/
abbrev Step (α : Type) := Except Fault (α × List Char)

/-- White space inside a line. -/
def isSpace (c : Char) : Bool :=
  c == ' ' || c == '\t'

/-- Without the white space at the start. -/
def skipSpace (cs : List Char) : List Char :=
  cs.dropWhile isSpace

/-- Whether a character may stand in a comment or a literal: a tab, or no control character. -/
def isPlain (c : Char) : Bool :=
  c == '\t' || (0x20 ≤ c.toNat && c.toNat != 0x7F)

/-- Behind a line end, if there is one. -/
def dropLineEnd? : List Char → Option (List Char)
  | '\n' :: rest => some rest
  | '\r' :: '\n' :: rest => some rest
  | _ => none

/-- Behind a comment, if there is one. -/
def skipComment : List Char → List Char
  | '#' :: rest => rest.dropWhile isPlain
  | cs => cs

/-- Behind white space, comment and line end; the text may end here. -/
def finishLine (cs : List Char) : Except Fault (List Char) :=
  match skipComment (skipSpace cs) with
  | [] => .ok []
  | rest =>
    match dropLineEnd? rest with
    | some rest => .ok rest
    | none => .error .malformed

/-- Behind white space, comments and line ends. -/
def skipLines : Nat → List Char → List Char
  | 0, cs => cs
  | fuel + 1, cs =>
    let rest := skipComment (skipSpace cs)
    match dropLineEnd? rest with
    | some rest => skipLines fuel rest
    | none => rest

/-- The value of a hexadecimal digit. -/
def hexDigit? (c : Char) : Option Nat :=
  if c.isDigit then some (c.toNat - '0'.toNat)
  else if 'a' ≤ c && c ≤ 'f' then some (c.toNat - 'a'.toNat + 10)
  else if 'A' ≤ c && c ≤ 'F' then some (c.toNat - 'A'.toNat + 10)
  else none

/-- The number that some digits stand for. -/
def digitsValue (base : Nat) (digits : List Char) : Nat :=
  digits.foldl (fun n c => base * n + (hexDigit? c).getD 0) 0

/-- The character whose number is written in some hexadecimal digits. -/
def readScalar (width : Nat) (cs : List Char) : Except Fault (Char × List Char) :=
  let digits := cs.take width
  if digits.length == width && digits.all fun c => (hexDigit? c).isSome then
    let n := digitsValue 16 digits
    if n.isValidChar then .ok (Char.ofNat n, cs.drop width) else .error .outOfRange
  else .error .malformed

/-- The character written behind a backslash. -/
def readEscape : List Char → Except Fault (Char × List Char)
  | 'b' :: rest => .ok ('\x08', rest)
  | 't' :: rest => .ok ('\t', rest)
  | 'n' :: rest => .ok ('\n', rest)
  | 'f' :: rest => .ok ('\x0c', rest)
  | 'r' :: rest => .ok ('\r', rest)
  | '"' :: rest => .ok ('"', rest)
  | '\\' :: rest => .ok ('\\', rest)
  | 'u' :: rest => readScalar 4 rest
  | 'U' :: rest => readScalar 8 rest
  | _ => .error .malformed

/-- A basic string behind its quote. -/
def readBasic : Nat → List Char → Except Fault (List Char × List Char)
  | 0, _ => .error .malformed
  | _ + 1, [] => .error .malformed
  | fuel + 1, c :: cs =>
    if c == '"' then .ok ([], cs)
    else if c == '\\' then do
      let (d, rest) ← readEscape cs
      let (ds, rest) ← readBasic fuel rest
      return (d :: ds, rest)
    else if isPlain c then do
      let (ds, rest) ← readBasic fuel cs
      return (c :: ds, rest)
    else .error .malformed

/-- A literal string behind its quote. -/
def readLiteral (cs : List Char) : Except Fault (List Char × List Char) :=
  let chars := cs.takeWhile fun c => isPlain c && c != '\''
  match cs.drop chars.length with
  | '\'' :: rest => .ok (chars, rest)
  | _ => .error .malformed

/-- Quotes at the end of a string over several lines: three close it, and up to two in front of them
belong to it. -/
def closeQuotes (quote : Char) (cs : List Char) : Option (List Char × List Char) :=
  let count := (cs.takeWhile (· == quote)).length
  if count < 3 then none
  else
    let own := min (count - 3) 2
    some (List.replicate own quote, cs.drop (own + 3))

/-- Behind a line end that is escaped, and all white space after it. -/
def skipEscapedEnd (cs : List Char) : Option (List Char) :=
  (dropLineEnd? (skipSpace cs)).map fun rest => dropBlankLines rest.length rest
where
  /-- Without white space and line ends at the start. -/
  dropBlankLines : Nat → List Char → List Char
    | 0, cs => cs
    | fuel + 1, cs =>
      let rest := skipSpace cs
      match dropLineEnd? rest with
      | some rest => dropBlankLines fuel rest
      | none => rest

/-- A basic string over several lines, behind its quotes and the first line end. -/
def readLongBasic : Nat → List Char → Except Fault (List Char × List Char)
  | 0, _ => .error .malformed
  | _ + 1, [] => .error .malformed
  | fuel + 1, c :: cs =>
    if c == '"' then
      match closeQuotes '"' (c :: cs) with
      | some closed => .ok closed
      | none => do
        let (ds, rest) ← readLongBasic fuel cs
        return (c :: ds, rest)
    else if c == '\\' then
      match skipEscapedEnd cs with
      | some rest => readLongBasic fuel rest
      | none => do
        let (d, rest) ← readEscape cs
        let (ds, rest) ← readLongBasic fuel rest
        return (d :: ds, rest)
    else
      match dropLineEnd? (c :: cs) with
      | some rest => do
        let (ds, rest) ← readLongBasic fuel rest
        return ('\n' :: ds, rest)
      | none =>
        if isPlain c then do
          let (ds, rest) ← readLongBasic fuel cs
          return (c :: ds, rest)
        else .error .malformed

/-- A literal string over several lines, behind its quotes and the first line end. -/
def readLongLiteral : Nat → List Char → Except Fault (List Char × List Char)
  | 0, _ => .error .malformed
  | _ + 1, [] => .error .malformed
  | fuel + 1, c :: cs =>
    if c == '\'' then
      match closeQuotes '\'' (c :: cs) with
      | some closed => .ok closed
      | none => do
        let (ds, rest) ← readLongLiteral fuel cs
        return (c :: ds, rest)
    else
      match dropLineEnd? (c :: cs) with
      | some rest => do
        let (ds, rest) ← readLongLiteral fuel rest
        return ('\n' :: ds, rest)
      | none =>
        if isPlain c then do
          let (ds, rest) ← readLongLiteral fuel cs
          return (c :: ds, rest)
        else .error .malformed

/-- Without a line end at the start. -/
def dropFirstEnd (cs : List Char) : List Char :=
  (dropLineEnd? cs).getD cs

/-- A string with its quotes. -/
def readString (cs : List Char) : Except Fault (String × List Char) := do
  let (chars, rest) ← (match cs with
    | '"' :: '"' :: '"' :: rest => readLongBasic (rest.length + 1) (dropFirstEnd rest)
    | '\'' :: '\'' :: '\'' :: rest => readLongLiteral (rest.length + 1) (dropFirstEnd rest)
    | '"' :: rest => readBasic (rest.length + 1) rest
    | '\'' :: rest => readLiteral rest
    | _ => .error .malformed)
  return (String.ofList chars, rest)

/-- What a key without quotes is made of. -/
def isKeyChar (c : Char) : Bool :=
  c.isAlphanum || c == '_' || c == '-'

/-- One part of a key. -/
def readKeyPart (cs : List Char) : Except Fault (String × List Char) :=
  match cs with
  | '"' :: rest => do
    let (chars, rest) ← readBasic (rest.length + 1) rest
    return (String.ofList chars, rest)
  | '\'' :: rest => do
    let (chars, rest) ← readLiteral rest
    return (String.ofList chars, rest)
  | _ =>
    let chars := cs.takeWhile isKeyChar
    if chars.isEmpty then .error .malformed else .ok (String.ofList chars, cs.drop chars.length)

/-- How deep keys, arrays and tables may go. -/
def depthLimit : Nat := 80

/-- A key of one or more parts with points between them, white space around all parts skipped. -/
def readKey : Nat → List Char → Except Fault (List String × List Char)
  | 0, _ => .error .malformed
  | fuel + 1, cs => do
    let (part, rest) ← readKeyPart (skipSpace cs)
    match skipSpace rest with
    | '.' :: rest =>
      let (parts, rest) ← readKey fuel rest
      if depthLimit ≤ parts.length + 1 then throw .tooDeep
      return (part :: parts, rest)
    | rest => return ([part], rest)

/-- Digits with single underscores between them, without the underscores. -/
def readDigits (isDigit : Char → Bool) : List Char → List Char × List Char
  | [] => ([], [])
  | [c] => if isDigit c then ([c], []) else ([], [c])
  | c :: d :: rest =>
    if isDigit c then
      if d == '_' then
        match rest with
        | e :: _ =>
          if isDigit e then
            let (digits, rest) := readDigits isDigit rest
            (c :: digits, rest)
          else ([c], d :: rest)
        | [] => ([c], [d])
      else
        let (digits, rest) := readDigits isDigit (d :: rest)
        (c :: digits, rest)
    else ([], c :: d :: rest)

/-- A number of two digits within bounds. -/
def readPair (low high : Nat) : List Char → Except Fault (Nat × List Char)
  | a :: b :: rest =>
    if a.isDigit && b.isDigit then
      let n := digitsValue 10 [a, b]
      if low ≤ n && n ≤ high then .ok (n, rest) else .error .outOfRange
    else .error .malformed
  | _ => .error .malformed

/-- Behind a fixed character. -/
def expect (mark : Char) : List Char → Except Fault (List Char)
  | c :: rest => if c == mark then .ok rest else .error .malformed
  | [] => .error .malformed

/-- Whether a text begins like a date. -/
def startsDate : List Char → Bool
  | a :: b :: c :: d :: '-' :: _ => a.isDigit && b.isDigit && c.isDigit && d.isDigit
  | _ => false

/-- Whether a text begins like a time. -/
def startsTime : List Char → Bool
  | a :: b :: ':' :: _ => a.isDigit && b.isDigit
  | _ => false

/-- Behind a time of day. -/
def skipTime (cs : List Char) : Except Fault (List Char) := do
  let (_, rest) ← readPair 0 23 cs
  let rest ← expect ':' rest
  let (_, rest) ← readPair 0 59 rest
  let rest ← expect ':' rest
  let (_, rest) ← readPair 0 60 rest
  match rest with
  | '.' :: digits =>
    let count := (digits.takeWhile Char.isDigit).length
    return if count == 0 then rest else digits.drop count
  | _ => return rest

/-- Behind an offset from UTC, if there is one. -/
def skipOffset (cs : List Char) : Except Fault (List Char) :=
  match cs with
  | 'Z' :: rest => .ok rest
  | 'z' :: rest => .ok rest
  | '+' :: rest => skipHours rest
  | '-' :: rest => skipHours rest
  | _ => .ok cs
where
  /-- Behind hours and minutes. -/
  skipHours (cs : List Char) : Except Fault (List Char) := do
    let (_, rest) ← readPair 0 23 cs
    let rest ← expect ':' rest
    let (_, rest) ← readPair 0 59 rest
    return rest

/-- Behind a date, with a time and an offset when they follow. -/
def skipDate (cs : List Char) : Except Fault (List Char) := do
  let year := digitsValue 10 (cs.take 4)
  let (month, rest) ← readPair 1 12 (cs.drop 5)
  let rest ← expect '-' rest
  let (day, rest) ← readPair 1 31 rest
  if Time.daysInMonth year month < day then throw .outOfRange
  match rest with
  | c :: after =>
    if (c == 'T' || c == 't' || c == ' ') && startsTime after then skipOffset (← skipTime after)
    else return rest
  | [] => return rest

/-- A date or time as a value. -/
def datetime : Value :=
  .record [("$__toml_private_datetime", .text "")]

/-- A whole number within sixty-four bits. -/
def wholeValue (n : Int) : Except Fault Value :=
  if Int64.minValue.toInt ≤ n && n ≤ Int64.maxValue.toInt then .ok (.int n) else .error .outOfRange

/-- A whole number in a base other than ten, behind its mark. -/
def readBased (base : Nat) (cs : List Char) : Except Fault (Value × List Char) := do
  let isDigit (c : Char) : Bool := match hexDigit? c with
    | some n => n < base
    | none => false
  let (digits, rest) := readDigits isDigit cs
  if digits.isEmpty then throw .malformed
  let v ← wholeValue (digitsValue base digits)
  return (v, rest)

/-- The digits in front of a point: a single zero, or digits that start with another one. -/
def readWhole (cs : List Char) : Except Fault (List Char × List Char) :=
  match cs with
  | '0' :: rest => .ok (['0'], rest)
  | _ =>
    let (digits, rest) := readDigits Char.isDigit cs
    if digits.isEmpty then .error .malformed else .ok (digits, rest)

/-- Digits behind a point, if there are some. -/
def readPlaces : List Char → Except Fault (Option (List Char) × List Char)
  | '.' :: rest =>
    let (digits, rest) := readDigits Char.isDigit rest
    if digits.isEmpty then .error .malformed else .ok (some digits, rest)
  | cs => .ok (none, cs)

/-- The sign at the front of a text: whether it is a minus. -/
def readSign : List Char → Bool × List Char
  | '-' :: rest => (true, rest)
  | '+' :: rest => (false, rest)
  | cs => (false, cs)

/-- The power of ten, if there is one. -/
def readPower : List Char → Except Fault (Option Int × List Char)
  | c :: rest =>
    if c == 'e' || c == 'E' then
      let (negative, rest) := readSign rest
      let (digits, rest) := readDigits Char.isDigit rest
      if digits.isEmpty then .error .malformed
      else
        let n : Int := digitsValue 10 digits
        .ok (some (if negative then -n else n), rest)
    else .ok (none, c :: rest)
  | [] => .ok (none, [])

/-- A number in base ten whose sign was read. -/
def readDecimal (negative : Bool) (cs : List Char) : Except Fault (Value × List Char) := do
  let (whole, rest) ← readWhole cs
  let (places, rest) ← readPlaces rest
  let (power, rest) ← readPower rest
  match places, power with
  | none, none =>
    let n : Int := digitsValue 10 whole
    let v ← wholeValue (if negative then -n else n)
    return (v, rest)
  | places, power =>
    let behind := places.getD []
    let x := Decimal.nearest (digitsValue 10 (whole ++ behind)) (power.getD 0 - behind.length)
    if !Decimal.isFinite x && !negative then throw .outOfRange
    return (.float (if negative then -x else x), rest)

/-- A word that stands for a double that is no number. -/
def readSpecial (negative : Bool) : List Char → Option (Value × List Char)
  | 'i' :: 'n' :: 'f' :: rest => some (.float (if negative then -1 / 0 else 1 / 0), rest)
  | 'n' :: 'a' :: 'n' :: rest => some (.float (0 / 0), rest)
  | _ => none

/-- A number, date or time. -/
def readNumber (cs : List Char) : Except Fault (Value × List Char) :=
  if startsDate cs then (skipDate cs).map fun rest => (datetime, rest)
  else if startsTime cs then (skipTime cs).map fun rest => (datetime, rest)
  else
    match cs with
    | '0' :: 'x' :: rest => readBased 16 rest
    | '0' :: 'o' :: rest => readBased 8 rest
    | '0' :: 'b' :: rest => readBased 2 rest
    | _ =>
      let (negative, rest) := readSign cs
      match readSpecial negative rest with
      | some found => .ok found
      | none => readDecimal negative rest

mutual

/-- A value. `room` counts the arrays and tables that may still be opened. -/
def readValue (fuel room : Nat) (cs : List Char) : Except Fault (Value × List Char) :=
  match fuel with
  | 0 => .error .malformed
  | fuel + 1 =>
    match cs with
    | '"' :: _ => (readString cs).map fun (s, rest) => (.text s, rest)
    | '\'' :: _ => (readString cs).map fun (s, rest) => (.text s, rest)
    | '[' :: rest =>
      if room == 0 then .error .tooDeep
      else (readItems fuel (room - 1) rest).map fun (items, rest) => (.list items, rest)
    | '{' :: rest =>
      if room == 0 then .error .tooDeep
      else (readPairs fuel (room - 1) true (.explicit) rest).map fun (t, rest) => (t.toValue, rest)
    | 't' :: 'r' :: 'u' :: 'e' :: rest => .ok (.bool true, rest)
    | 'f' :: 'a' :: 'l' :: 's' :: 'e' :: rest => .ok (.bool false, rest)
    | _ => readNumber cs

/-- The items of an array up to its closing bracket. -/
def readItems (fuel room : Nat) (cs : List Char) : Except Fault (List Value × List Char) :=
  match fuel with
  | 0 => .error .malformed
  | fuel + 1 =>
    match skipLines cs.length cs with
    | ']' :: rest => .ok ([], rest)
    | cs => do
      let (item, rest) ← readValue fuel room cs
      match skipLines rest.length rest with
      | ',' :: rest =>
        let (items, rest) ← readItems fuel room rest
        return (item :: items, rest)
      | ']' :: rest => return ([item], rest)
      | _ => throw .malformed

/-- The keys of an inline table up to its closing bracket; `first` when none was read yet. -/
def readPairs (fuel room : Nat) (first : Bool) (t : Table) (cs : List Char) :
    Except Fault (Table × List Char) :=
  match fuel with
  | 0 => .error .malformed
  | fuel + 1 =>
    match first, skipSpace cs with
    | true, '}' :: rest => .ok (t, rest)
    | _, cs => do
      let (path, rest) ← readKey (cs.length + 1) cs
      let rest ← expect '=' (skipSpace rest)
      let (v, rest) ← readValue fuel room (skipSpace rest)
      let t ← t.setDotted path.dropLast (path.getLastD "") v
      match skipSpace rest with
      | ',' :: rest => readPairs fuel room false t rest
      | '}' :: rest => return (t, rest)
      | _ => throw .malformed

end

/-- A line of a document, white space in front skipped: a header, a key with its value, or
nothing. -/
def readLine (d : Draft) (cs : List Char) : Except Fault (Draft × List Char) :=
  match skipSpace cs with
  | [] => .ok (d, [])
  | '[' :: '[' :: rest => do
    let (path, rest) ← readKey (rest.length + 1) rest
    let rest ← expect ']' rest
    let rest ← expect ']' rest
    let d ← d.startItem path
    return (d, ← finishLine rest)
  | '[' :: rest => do
    let (path, rest) ← readKey (rest.length + 1) rest
    let rest ← expect ']' rest
    let d ← d.startTable path
    return (d, ← finishLine rest)
  | c :: rest =>
    if c == '#' || c == '\n' || c == '\r' then (finishLine (c :: rest)).map fun rest => (d, rest)
    else do
      let (path, rest) ← readKey (rest.length + 2) (c :: rest)
      let rest ← expect '=' rest
      let rest := skipSpace rest
      let (v, rest) ← readValue (2 * rest.length + 2) (depthLimit - 1) rest
      let d ← d.setKey path.dropLast (path.getLastD "") v
      return (d, ← finishLine rest)

/-- The lines of a document. -/
def readLines : Nat → Draft → List Char → Except Fault Draft
  | _, d, [] => .ok d
  | 0, _, _ :: _ => .error .malformed
  | fuel + 1, d, cs => do
    let (d, rest) ← readLine d cs
    readLines fuel d rest

/-- Reads a text as a TOML document. -/
def parse (text : String) : Except Fault Value := do
  let cs := match text.toList with
    | '\ufeff' :: rest => rest
    | cs => cs
  let d ← readLines (cs.length + 1) .start cs
  let root ← d.finishTable
  return root.toValue

end Readability.Data.Toml
