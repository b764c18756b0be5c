import Readability.Decimal.Shortest

/-!
Two ways to write the shortest digits of a double: `plain`, always positional, and `numeral`, the
form of a number in a JSON document, with a signed exponent for very large and very small numbers.
-/

namespace Readability.Decimal

/-- Digits with the point after the first `point` of them, zeros filled in where digits are missing.
The point is written only in front of a digit. -/
def positional (digits : List Char) (point : Int) : String :=
  let count := (digits.length : Int)
  if point ≤ 0 then
    "0." ++ String.ofList (List.replicate (-point).toNat '0' ++ digits)
  else if count ≤ point then
    String.ofList (digits ++ List.replicate (point - count).toNat '0')
  else
    String.ofList (digits.take point.toNat ++ '.' :: digits.drop point.toNat)

/-- The shortest digits in positional form, without point when the number is whole; of two equally
near decimals the larger one. -/
def plain (x : Float) : String :=
  match Exact.ofFloat x with
  | .nan => "NaN"
  | .infinite negative => if negative then "-inf" else "inf"
  | .finite negative m e =>
    let sign := if negative then "-" else ""
    if m == 0 then sign ++ "0"
    else
      let d := shortest .up m e
      let digits := Nat.toDigits 10 d.digits
      sign ++ positional digits (digits.length + d.exponent)

/-- Digits as a numeral with at least one place or an exponent: positional from `1e-5` up to below
`1e16`, else one digit in front of the point. -/
def numeralDigits (digits : List Char) (exponent : Int) : String :=
  let point := digits.length + exponent
  if 0 ≤ exponent && point ≤ 16 then positional digits point ++ ".0"
  else if -5 < point && point ≤ 16 then positional digits point
  else
    let power := (if 0 < point then "+" else "") ++ toString (point - 1)
    match digits with
    | [] => "0.0"
    | [d] => d.toString ++ "e" ++ power
    | d :: rest => d.toString ++ "." ++ String.ofList rest ++ "e" ++ power

/-- A number as JSON documents write it; of two equally near decimals the even one. -/
def numeral (x : Float) : String :=
  match Exact.ofFloat x with
  | .nan => "NaN"
  | .infinite negative => if negative then "-inf" else "inf"
  | .finite negative m e =>
    let sign := if negative then "-" else ""
    if m == 0 then sign ++ "0.0"
    else
      let d := shortest .toEven m e
      sign ++ numeralDigits (Nat.toDigits 10 d.digits) d.exponent

end Readability.Decimal
