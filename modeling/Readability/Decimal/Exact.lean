/-!
The exact value of a double: a sign and a whole number times a power of two. All decimal text is
chosen from this form in exact arithmetic, so that no rounding of its own can enter.
-/

namespace Readability.Decimal

/-- The leading bit of a mantissa, which the bits of a double leave out. -/
def hiddenBit : Nat := 1 <<< 52

/-- What a double stands for. -/
inductive Exact where
  | nan
  | infinite (negative : Bool)
  /-- The number `mantissa * 2 ^ exponent`, or its negative. -/
  | finite (negative : Bool) (mantissa : Nat) (exponent : Int)
deriving Repr, DecidableEq

namespace Exact

/-- Reads sign, exponent and fraction from the sixty-four bits of a double. -/
def ofBits (bits : Nat) : Exact :=
  let negative := (bits >>> 63) % 2 == 1
  let power : Nat := (bits >>> 52) % 2048
  let fraction : Nat := bits % hiddenBit
  if power == 2047 then
    if fraction == 0 then .infinite negative else .nan
  else if power == 0 then .finite negative fraction (-1074)
  else .finite negative (hiddenBit + fraction) ((power : Int) - 1075)

/-- The exact value of a double. -/
def ofFloat (x : Float) : Exact :=
  ofBits x.toBits.toNat

end Exact

/-- The whole number nearest to `num / den`; of two equally near ones the even one. -/
def roundDiv (num den : Nat) : Nat :=
  let q := num / den
  let r := num % den
  if 2 * r < den then q
  else if den < 2 * r then q + 1
  else q + q % 2

/-- The rounded quotient is within half a unit of the exact one. -/
theorem roundDiv_near {num den : Nat} (h : 0 < den) :
    2 * num ≤ 2 * roundDiv num den * den + den ∧ 2 * roundDiv num den * den ≤ 2 * num + den := by
  have hdiv : den * (num / den) + num % den = num := Nat.div_add_mod num den
  have hlt : num % den < den := Nat.mod_lt _ h
  simp only [roundDiv]
  generalize num / den = q at *
  generalize num % den = r at *
  have hq : 2 * q * den = 2 * (den * q) := by rw [Nat.mul_assoc, Nat.mul_comm q den]
  have hq1 : 2 * (q + 1) * den = 2 * (den * q) + 2 * den := by
    rw [Nat.mul_assoc, Nat.add_mul, Nat.mul_comm q den, Nat.one_mul, Nat.mul_add]
  split
  · omega
  · split
    · omega
    · rcases Nat.mod_two_eq_zero_or_one q with hp | hp
      · rw [hp, Nat.add_zero]; omega
      · rw [hp]; omega

/-- Whether a double is a number: neither infinite nor not-a-number. -/
def isFinite (x : Float) : Bool :=
  match Exact.ofFloat x with
  | .finite .. => true
  | _ => false

end Readability.Decimal
