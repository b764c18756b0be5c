import Readability.Decimal.Exact

/-!
Numbers with a fixed count of places behind the point. The exact binary value is rounded, a half
goes to the even neighbour, and all digits in front of the point are written.
-/

namespace Readability.Decimal

/-- The decimal digits of `n`, with zeros in front up to `width`. -/
def padDigits (width n : Nat) : List Char :=
  let digits := Nat.toDigits 10 n
  List.replicate (width - digits.length) '0' ++ digits

/-- `n / 10 ^ places`, written with `places` digits behind the point. -/
def scaledText (places n : Nat) : String :=
  if places == 0 then String.ofList (Nat.toDigits 10 n)
  else
    let unit := Nat.pow 10 places
    String.ofList (Nat.toDigits 10 (n / unit) ++ '.' :: padDigits places (n % unit))

/-- `mantissa * 2 ^ exponent * 10 ^ places`, rounded to a whole number. -/
def scaled (places mantissa : Nat) (exponent : Int) : Nat :=
  match exponent with
  | .ofNat k => (mantissa <<< k) * Nat.pow 10 places
  | .negSucc k => roundDiv (mantissa * Nat.pow 10 places) (1 <<< (k + 1))

/-- A number with `places` digits behind the point. A zero keeps its sign. -/
def fixed (places : Nat) (x : Float) : String :=
  match Exact.ofFloat x with
  | .nan => "NaN"
  | .infinite negative => if negative then "-inf" else "inf"
  | .finite negative m e => (if negative then "-" else "") ++ scaledText places (scaled places m e)

/-- A number with `places` digits behind the point and its sign, also a plus. -/
def signed (places : Nat) (x : Float) : String :=
  match Exact.ofFloat x with
  | .nan => "NaN"
  | .infinite negative => if negative then "-inf" else "+inf"
  | .finite negative m e => (if negative then "-" else "+") ++ scaledText places (scaled places m e)

end Readability.Decimal
