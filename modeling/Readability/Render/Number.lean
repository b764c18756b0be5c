import Readability.Decimal.Fixed

/-!
Numbers in reports for readers: scores with three places, changes with their sign, and a dash for
none.
-/

namespace Readability.Render

/-- A score. -/
def score (x : Float) : String :=
  Decimal.fixed 3 x

/-- A score, or a dash. -/
def scoreOrDash : Option Float → String
  | some x => score x
  | none => "-"

/-- A change. -/
def change (x : Float) : String :=
  Decimal.signed 3 x

/-- A change, or a dash. -/
def changeOrDash : Option Float → String
  | some x => change x
  | none => "-"

/-- A count, with blanks in front up to a width. -/
def padded (width n : Nat) : String :=
  let digits := Nat.toDigits 10 n
  String.ofList (List.replicate (width - digits.length) ' ' ++ digits)

end Readability.Render
