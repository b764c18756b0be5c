import Readability.Text.Blank
import Readability.Decimal.Fixed
import Readability.Time.Instant

/-!
Instants as text. Reading follows RFC 3339 with some leave: any count of digits behind the point,
white space around the separators, a year of any length behind a sign. Writing is always in UTC.
-/

namespace Readability.Time

/-- Why a text is not an instant. -/
inductive InstantFault where
  | tooShort
  | invalid
  | outOfRange
  | trailing
deriving Repr, DecidableEq

namespace InstantFault

/-- The fault in words. -/
def message : InstantFault → String
  | tooShort => "premature end of input"
  | invalid => "input contains invalid characters"
  | outOfRange => "input is out of range"
  | trailing => "trailing input"

end InstantFault

/-- A step that reads something off the front of a text. -/
abbrev Reading (α : Type) := List Char → Except InstantFault (α × List Char)

/-- The whole number that some digits stand for. -/
def digitsValue (digits : List Char) : Nat :=
  digits.foldl (fun n c => 10 * n + (c.toNat - '0'.toNat)) 0

/-- The largest number a field may hold before its own range is looked at. -/
def fieldLimit : Nat := 1 <<< 63

/-- Reads up to `width` digits, at least one. -/
def readNumber (width : Option Nat) : Reading Nat := fun cs =>
  match cs with
  | [] => .error .tooShort
  | _ =>
    let digits := match width with
      | some w => (cs.take w).takeWhile Char.isDigit
      | none => cs.takeWhile Char.isDigit
    if digits.isEmpty then .error .invalid
    else if fieldLimit ≤ digitsValue digits then .error .outOfRange
    else .ok (digitsValue digits, cs.drop digits.length)

/-- Reads a number of at most two digits that lies between two bounds, white space in front
skipped. -/
def readField (low high : Nat) : Reading Nat := fun cs => do
  let (n, rest) ← readNumber (some 2) (Text.trimStart cs)
  if low ≤ n && n ≤ high then .ok (n, rest) else .error .outOfRange

/-- Reads a year: four digits at most, or any number behind a sign. -/
def readYear : Reading Int := fun cs => do
  let (year, rest) ← (match Text.trimStart cs with
    | '-' :: rest => (readNumber none rest).map fun (n, r) => (-(n : Int), r)
    | '+' :: rest => (readNumber none rest).map fun (n, r) => ((n : Int), r)
    | cs => (readNumber (some 4) cs).map fun (n, r) => ((n : Int), r))
  if Int32.minValue.toInt ≤ year && year ≤ Int32.maxValue.toInt then .ok (year, rest)
  else .error .outOfRange

/-- Reads one separator, white space in front skipped. -/
def readMark (mark : Char) : Reading Unit := fun cs =>
  match Text.trimStart cs with
  | [] => .error .tooShort
  | c :: rest => if c == mark then .ok ((), rest) else .error .invalid

/-- Reads the mark between date and time. -/
def readGap : Reading Unit
  | [] => .error .tooShort
  | c :: rest => if c == 't' || c == 'T' || c == ' ' then .ok ((), rest) else .error .invalid

/-- Reads the fraction of a second, if there is one; only nine digits count. -/
def readFraction : Reading Nat
  | '.' :: cs => do
    let (n, rest) ← readNumber (some 9) cs
    let width := cs.length - rest.length
    .ok (n * Nat.pow 10 (9 - width), rest.dropWhile Char.isDigit)
  | cs => .ok (0, cs)

/-- Reads two digits. -/
def readPair : Reading Nat
  | a :: b :: rest =>
    if a.isDigit && b.isDigit then .ok (digitsValue [a, b], rest) else .error .invalid
  | [c] => .error (if c.utf8Size < 2 then .tooShort else .invalid)
  | [] => .error .tooShort

/-- Reads hours and minutes of an offset behind its sign, in seconds. -/
def readHoursMinutes : Reading Int := fun cs => do
  let (hours, rest) ← readPair cs
  let rest := rest.dropWhile fun c => c == ':' || Text.isBlank c
  let (minutes, rest) ← readPair rest
  if 60 ≤ minutes then .error .outOfRange
  else .ok ((hours * 3600 + minutes * 60 : Nat), rest)

/-- Reads the offset from UTC in seconds. -/
def readOffset : Reading Int := fun cs =>
  if (cs.take 3).map Char.toLower == ['u', 't', 'c'] then .ok (0, cs.drop 3)
  else
    match cs with
    | [] => .error .tooShort
    | c :: rest =>
      if c == 'Z' || c == 'z' then .ok (0, rest)
      else if c == '+' then readHoursMinutes rest
      else if c == '-' || c == '\u2212' then (readHoursMinutes rest).map fun (n, r) => (-n, r)
      else .error .invalid

/-- Whether a year is one that dates are kept for. -/
def isKeptYear (year : Int) : Bool :=
  -262143 ≤ year && year ≤ 262142

namespace Instant

/-- Reads a text as an instant. -/
def parse (text : String) : Except InstantFault Instant := do
  let cs := text.toList
  let (year, cs) ← readYear cs
  let ((), cs) ← readMark '-' cs
  let (month, cs) ← readField 1 12 cs
  let ((), cs) ← readMark '-' cs
  let (day, cs) ← readField 1 31 cs
  let ((), cs) ← readGap cs
  let (hour, cs) ← readField 0 23 cs
  let ((), cs) ← readMark ':' cs
  let (minute, cs) ← readField 0 59 cs
  let ((), cs) ← readMark ':' cs
  let (second, cs) ← readField 0 60 cs
  let (fraction, cs) ← readFraction cs
  let (offset, cs) ← readOffset (Text.trimStart cs)
  if !Text.allBlank cs then throw .trailing
  let date : Date := ⟨year, month, day⟩
  if !isKeptYear year || !date.isReal || (daySeconds : Int) ≤ offset.natAbs then throw .outOfRange
  let leap := second == 60
  let clock : Int := hour * 3600 + minute * 60 + (if leap then 59 else second : Nat)
  let seconds := date.toDays * daySeconds + clock - offset
  let instant := ofUnix seconds (if leap then nanosPerSecond + fraction else fraction)
  if !isKeptYear instant.date.year then throw .outOfRange
  return instant

end Instant

/-- A year: four digits from 0 to 9999, any other with its sign and at least four digits. -/
def yearText (year : Int) : String :=
  let digits := String.ofList (Decimal.padDigits 4 year.natAbs)
  if 0 ≤ year && year ≤ 9999 then digits
  else (if year < 0 then "-" else "+") ++ digits

/-- Two digits. -/
def twoDigits (n : Nat) : String :=
  String.ofList (Decimal.padDigits 2 n)

namespace Date

/-- Year, month and day. -/
def text (d : Date) : String :=
  yearText d.year ++ "-" ++ twoDigits d.month ++ "-" ++ twoDigits d.day

end Date

/-- The fraction of a second in as many thousands as it needs. -/
def fractionText (nanos : Nat) : String :=
  if nanos == 0 then ""
  else if nanos % 1000000 == 0 then "." ++ String.ofList (Decimal.padDigits 3 (nanos / 1000000))
  else if nanos % 1000 == 0 then "." ++ String.ofList (Decimal.padDigits 6 (nanos / 1000))
  else "." ++ String.ofList (Decimal.padDigits 9 nanos)

namespace Instant

/-- The date alone. -/
def dateText (t : Instant) : String :=
  t.date.text

/-- Hours and minutes. -/
def minuteText (t : Instant) : String :=
  twoDigits (t.second / 3600) ++ ":" ++ twoDigits (t.second / 60 % 60)

/-- The number of the second, 60 in a leap second, and its fraction. -/
def secondText (t : Instant) : String × String :=
  if nanosPerSecond ≤ t.fraction then
    (twoDigits (t.second % 60 + 1), fractionText (t.fraction - nanosPerSecond))
  else (twoDigits (t.second % 60), fractionText t.fraction)

/-- Date and time up to the fraction, without zone. -/
def localText (t : Instant) : String :=
  let (second, fraction) := t.secondText
  t.dateText ++ "T" ++ t.minuteText ++ ":" ++ second ++ fraction

/-- The instant with the zone written as a letter, as documents of data hold it. -/
def text (t : Instant) : String :=
  t.localText ++ "Z"

/-- The instant with the zone written as an offset, as tables hold it. -/
def offsetText (t : Instant) : String :=
  t.localText ++ "+00:00"

/-- The instant in words for a page's foot: whole seconds, and the zone's name. -/
def footText (t : Instant) : String :=
  t.dateText ++ " " ++ t.minuteText ++ ":" ++ t.secondText.1 ++ " UTC"

end Instant

end Readability.Time
