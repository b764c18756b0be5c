import Readability.Data.Value
import Readability.Decimal.Nearest

/-!
Reading JSON. Each reader takes what it reads off the front of a text and gives the rest as well.
The grammar is the strict one: no text behind the value, no comma in front of a closing bracket, no
lone surrogate in a string, no number beyond the range of doubles, and no more than 127 brackets
open at once. A whole number that fits sixty-four bits stays a whole number; all others are doubles.
-/

namespace Readability.Data.Json

/-- Why a text is not a JSON document. -/
inductive Fault where
  | endInList
  | endInObject
  | endInString
  | endInValue
  | expectedColon
  | expectedCommaInList
  | expectedCommaInObject
  | expectedIdent
  | expectedValue
  | invalidEscape
  | invalidNumber
  | controlCharacter
  | keyNotString
  | trailingComma
  | trailingCharacters
  /-- A part of the text stands for nothing. -/
  | refused (reason : Refusal)
deriving Repr, DecidableEq

namespace Fault

/-- The fault in words. -/
def message : Fault → String
  | endInList => "EOF while parsing a list"
  | endInObject => "EOF while parsing an object"
  | endInString => "EOF while parsing a string"
  | endInValue => "EOF while parsing a value"
  | expectedColon => "expected `:`"
  | expectedCommaInList => "expected `,` or `]`"
  | expectedCommaInObject => "expected `,` or `\x7d`"
  | expectedIdent => "expected ident"
  | expectedValue => "expected value"
  | invalidEscape => "invalid escape"
  | invalidNumber => "invalid number"
  | controlCharacter => "control character (\\u0000-\\u001F) found while parsing a string"
  | keyNotString => "key must be a string"
  | trailingComma => "trailing comma"
  | trailingCharacters => "trailing characters"
  | refused reason => reason.message

end Fault

/-- White space between tokens. -/
def isSpace (c : Char) : Bool :=
  c == ' ' || c == '\n' || c == '\t' || c == '\r'

/-- Without the white space at the start. -/
def skipSpace (cs : List Char) : List Char :=
  cs.dropWhile isSpace

/-- The value of a hexadecimal digit. -/
def hexDigit? (c : Char) : Option Nat :=
  if c.isDigit then some (c.toNat - '0'.toNat)
  else if 'a' ≤ c && c ≤ 'f' then some (c.toNat - 'a'.toNat + 10)
  else if 'A' ≤ c && c ≤ 'F' then some (c.toNat - 'A'.toNat + 10)
  else none

/-- The code unit written in four hexadecimal digits. -/
def readUnit : List Char → Except Fault (Nat × List Char)
  | a :: b :: c :: d :: rest =>
    match hexDigit? a, hexDigit? b, hexDigit? c, hexDigit? d with
    | some a, some b, some c, some d => .ok (((a * 16 + b) * 16 + c) * 16 + d, rest)
    | _, _, _, _ => .error .invalidEscape
  | _ => .error .endInString

/-- A piece of a string: a character, or a code unit written with a backslash and the letter u. -/
inductive Piece where
  | char (c : Char)
  | unit (n : Nat)
deriving Repr, DecidableEq

/-- The piece written behind a backslash. -/
def readEscape : List Char → Except Fault (Piece × List Char)
  | [] => .error .endInString
  | '"' :: rest => .ok (.char '"', rest)
  | '\\' :: rest => .ok (.char '\\', rest)
  | '/' :: rest => .ok (.char '/', rest)
  | 'b' :: rest => .ok (.char '\x08', rest)
  | 'f' :: rest => .ok (.char '\x0c', rest)
  | 'n' :: rest => .ok (.char '\n', rest)
  | 'r' :: rest => .ok (.char '\r', rest)
  | 't' :: rest => .ok (.char '\t', rest)
  | 'u' :: rest => (readUnit rest).map fun (n, rest) => (.unit n, rest)
  | _ :: _ => .error .invalidEscape

/-- The pieces of a string up to its closing quote. Each step uses up a character, so `fuel` need
not exceed the text's length by more than one. -/
def readPieces : Nat → List Char → Except Fault (List Piece × List Char)
  | 0, _ => .error .endInString
  | _ + 1, [] => .error .endInString
  | fuel + 1, c :: cs =>
    if c == '"' then .ok ([], cs)
    else if c == '\\' then do
      let (piece, rest) ← readEscape cs
      let (pieces, rest) ← readPieces fuel rest
      return (piece :: pieces, rest)
    else if c.toNat < 0x20 then .error .controlCharacter
    else do
      let (pieces, rest) ← readPieces fuel cs
      return (.char c :: pieces, rest)

/-- Whether a code unit is the first half of a pair. -/
def isHigh (n : Nat) : Bool :=
  0xD800 ≤ n && n ≤ 0xDBFF

/-- Whether a code unit is the second half of a pair. -/
def isLow (n : Nat) : Bool :=
  0xDC00 ≤ n && n ≤ 0xDFFF

/-- The characters that some pieces stand for; code units of a pair make up one character. -/
def joinPieces : List Piece → Except Refusal (List Char)
  | [] => .ok []
  | .char c :: rest => (joinPieces rest).map (c :: ·)
  | .unit high :: .unit low :: rest =>
    if isHigh high then
      if isLow low then
        (joinPieces rest).map (Char.ofNat (0x10000 + (high - 0xD800) * 0x400 + (low - 0xDC00)) :: ·)
      else .error .loneSurrogate
    else if isLow high then .error .loneSurrogate
    else (joinPieces (.unit low :: rest)).map (Char.ofNat high :: ·)
  | .unit n :: rest =>
    if isHigh n then .error .unfinishedPair
    else if isLow n then .error .loneSurrogate
    else (joinPieces rest).map (Char.ofNat n :: ·)

/-- A string behind its opening quote. -/
def readString (cs : List Char) : Except Fault (Except Refusal String × List Char) := do
  let (pieces, rest) ← readPieces (cs.length + 1) cs
  return ((joinPieces pieces).map String.ofList, rest)

/-- Digits off the front of a text. -/
def readDigits (cs : List Char) : List Char × List Char :=
  (cs.takeWhile Char.isDigit, cs.dropWhile Char.isDigit)

/-- The whole number that some digits stand for. -/
def digitsValue (digits : List Char) : Nat :=
  digits.foldl (fun n c => 10 * n + (c.toNat - '0'.toNat)) 0

/-- The digits in front of the point: a single zero or digits that start with another one. -/
def readWhole (cs : List Char) : Except Fault (List Char × List Char) :=
  match cs with
  | [] => .error .endInValue
  | '0' :: rest =>
    match rest with
    | d :: _ => if d.isDigit then .error .invalidNumber else .ok (['0'], rest)
    | [] => .ok (['0'], rest)
  | _ =>
    let (digits, rest) := readDigits cs
    if digits.isEmpty then .error .invalidNumber else .ok (digits, rest)

/-- The digits that have to follow a point or the letter of an exponent. -/
def readPart (cs : List Char) : Except Fault (List Char × List Char) :=
  match cs with
  | [] => .error .endInValue
  | _ =>
    let (digits, rest) := readDigits cs
    if digits.isEmpty then .error .invalidNumber else .ok (digits, rest)

/-- The digits behind a point, if there is one. -/
def readPlaces : List Char → Except Fault (Option (List Char) × List Char)
  | '.' :: rest => do
    let (digits, rest) ← readPart rest
    return (some digits, rest)
  | cs => .ok (none, cs)

/-- The power of ten behind the letter of an exponent. -/
def readPower (cs : List Char) : Except Fault (Int × List Char) := do
  match cs with
  | '-' :: rest =>
    let (digits, rest) ← readPart rest
    return (-(digitsValue digits : Int), rest)
  | '+' :: rest =>
    let (digits, rest) ← readPart rest
    return ((digitsValue digits : Int), rest)
  | cs =>
    let (digits, rest) ← readPart cs
    return ((digitsValue digits : Int), rest)

/-- The exponent, if there is one. -/
def readExponent : List Char → Except Fault (Option Int × List Char)
  | c :: rest =>
    if c == 'e' || c == 'E' then do
      let (power, rest) ← readPower rest
      return (some power, rest)
    else .ok (none, c :: rest)
  | [] => .ok (none, [])

/-- The double written by sign, digits and power of ten. -/
def floatValue (negative : Bool) (digits : Nat) (power : Int) : Value :=
  let x := Decimal.nearest digits power
  if Decimal.isFinite x then .float (if negative then -x else x) else .refused .outOfRange

/-- A number whose sign was read. -/
def readNumber (negative : Bool) (cs : List Char) : Except Fault (Value × List Char) := do
  let (whole, rest) ← readWhole cs
  let (places, rest) ← readPlaces rest
  let (power, rest) ← readExponent rest
  let n := digitsValue whole
  match places, power with
  | none, none =>
    if negative then
      if n == 0 then return (.float (-0.0), rest)
      else if n ≤ 1 <<< 63 then return (.int (-n), rest)
      else return (floatValue true n 0, rest)
    else if n < UInt64.size then return (.int n, rest)
    else return (floatValue false n 0, rest)
  | places, power =>
    let behind := places.getD []
    return (floatValue negative (digitsValue (whole ++ behind)) (power.getD 0 - behind.length),
      rest)

/-- Reads a fixed word whose first letter was read. -/
def readWord (value : Value) : List Char → List Char → Except Fault (Value × List Char)
  | [], cs => .ok (value, cs)
  | _ :: _, [] => .error .endInValue
  | w :: ws, c :: cs => if c == w then readWord value ws cs else .error .expectedIdent

/-- How many brackets may be open at once. -/
def depthLimit : Nat := 127

mutual

/-- A value, white space in front skipped. `room` counts the brackets that may still be opened. -/
def readValue (fuel room : Nat) (cs : List Char) : Except Fault (Value × List Char) :=
  match fuel with
  | 0 => .error .endInValue
  | fuel + 1 =>
    match skipSpace cs with
    | [] => .error .endInValue
    | '"' :: rest => do
      let (s, rest) ← readString rest
      match s with
      | .ok s => return (.text s, rest)
      | .error reason => return (.refused reason, rest)
    | '[' :: rest => do
      let (items, rest) ← readItems fuel (room - 1) true rest
      return (if room == 0 then .refused .tooDeep else .list items, rest)
    | '{' :: rest => do
      let (entries, rest) ← readEntries fuel (room - 1) true rest
      return (if room == 0 then .refused .tooDeep else .record entries, rest)
    | 'n' :: rest => readWord .null ['u', 'l', 'l'] rest
    | 't' :: rest => readWord (.bool true) ['r', 'u', 'e'] rest
    | 'f' :: rest => readWord (.bool false) ['a', 'l', 's', 'e'] rest
    | '-' :: rest => readNumber true rest
    | c :: rest => if c.isDigit then readNumber false (c :: rest) else .error .expectedValue

/-- The items of a list up to its closing bracket; `first` when none was read yet. -/
def readItems (fuel room : Nat) (first : Bool) (cs : List Char) :
    Except Fault (List Value × List Char) :=
  match fuel with
  | 0 => .error .endInList
  | fuel + 1 =>
    match skipSpace cs with
    | [] => .error .endInList
    | ']' :: rest => .ok ([], rest)
    | c :: rest =>
      if first then do
        let (item, rest) ← readValue fuel room (c :: rest)
        let (items, rest) ← readItems fuel room false rest
        return (item :: items, rest)
      else if c == ',' then
        match skipSpace rest with
        | [] => .error .endInValue
        | ']' :: _ => .error .trailingComma
        | rest => do
          let (item, rest) ← readValue fuel room rest
          let (items, rest) ← readItems fuel room false rest
          return (item :: items, rest)
      else .error .expectedCommaInList

/-- The entries of a record up to its closing bracket; `first` when none was read yet. -/
def readEntries (fuel room : Nat) (first : Bool) (cs : List Char) :
    Except Fault (List (String × Value) × List Char) :=
  match fuel with
  | 0 => .error .endInObject
  | fuel + 1 =>
    match skipSpace cs with
    | [] => .error .endInObject
    | '}' :: rest => .ok ([], rest)
    | c :: rest =>
      if first then
        if c == '"' then readEntry fuel room rest else .error .keyNotString
      else if c == ',' then
        match skipSpace rest with
        | [] => .error .endInValue
        | '}' :: _ => .error .trailingComma
        | '"' :: rest => readEntry fuel room rest
        | _ :: _ => .error .keyNotString
      else .error .expectedCommaInObject

/-- An entry behind the opening quote of its name, and the entries that follow it. -/
def readEntry (fuel room : Nat) (cs : List Char) :
    Except Fault (List (String × Value) × List Char) :=
  match fuel with
  | 0 => .error .endInObject
  | fuel + 1 => do
    let (name, rest) ← readString cs
    let name ← name.mapError .refused
    match skipSpace rest with
    | [] => throw .endInObject
    | ':' :: rest =>
      let (value, rest) ← readValue fuel room rest
      let (entries, rest) ← readEntries fuel room false rest
      return ((name, value) :: entries, rest)
    | _ :: _ => throw .expectedColon

end

/-- Reads a text that is one JSON value and nothing else; some parts of it may be refused. -/
def read (text : String) : Except Fault Value := do
  let cs := text.toList
  let (value, rest) ← readValue (2 * cs.length + 2) depthLimit cs
  match skipSpace rest with
  | [] => return value
  | _ :: _ => throw .trailingCharacters

/-- Reads a text that is one JSON value and nothing else, no part of it refused. -/
def parse (text : String) : Except Fault Value := do
  let value ← read text
  match value.refusal? with
  | none => return value
  | some reason => throw (.refused reason)

end Readability.Data.Json
