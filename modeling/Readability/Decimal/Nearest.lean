import Readability.Decimal.Exact

/-!
From decimal digits to the nearest double. Exponents far outside the range of doubles are settled by
the size of the number alone, so that no huge power of ten is ever computed.
-/

namespace Readability.Decimal

/-- The double nearest to `digits * 10 ^ exponent`; beyond the range of doubles, infinity. -/
def nearest (digits : Nat) (exponent : Int) : Float :=
  let length := (Nat.toDigits 10 digits).length
  if digits == 0 then 0
  else if 400 < length + exponent then 1 / 0
  else if length + exponent < -400 then 0
  else
    match exponent with
    | .ofNat k => Float.ofScientific digits false k
    | .negSucc k => Float.ofScientific digits true (k + 1)

end Readability.Decimal
