/-!
Sums, bounds and a total order of doubles.
-/

namespace Readability.Number

/-- The sum of some numbers, from the first to the last. It starts at the zero that leaves every
number as it is, the negative one. -/
def total [Add α] [Neg α] [OfNat α 0] (xs : List α) : α :=
  xs.foldl (· + ·) (-0)

/-- A number moved into the bounds it lies outside of. -/
def clamp (low high x : Float) : Float :=
  let x := if x < low then low else x
  if high < x then high else x

/-- The place of a double in the total order of their bits: from the negative not-a-numbers over
minus infinity, the two zeros in their order, and infinity to the positive not-a-numbers. A `Float`
here has one not-a-number only, which comes last; where the sign and the payload of a not-a-number
matter, as they do in that order, a computed one has no fixed bits anyway. -/
def orderKey (x : Float) : Int :=
  let bits := x.toBits.toNat
  if bits < 1 <<< 63 then bits else -((bits - (1 <<< 63) : Nat) : Int) - 1

/-- The total order of doubles. -/
def compareTotal (x y : Float) : Ordering :=
  compare (orderKey x) (orderKey y)

/-- Whether a double comes before another one, or at the same place. -/
def leTotal (x y : Float) : Bool :=
  orderKey x ≤ orderKey y

theorem leTotal_refl (x : Float) : leTotal x x = true := by
  simp [leTotal]

theorem leTotal_total (x y : Float) : (leTotal x y || leTotal y x) = true := by
  simp only [leTotal, Bool.or_eq_true, decide_eq_true_eq]
  omega

theorem leTotal_trans {x y z : Float} (hxy : leTotal x y = true) (hyz : leTotal y z = true) :
    leTotal x z = true := by
  simp only [leTotal, decide_eq_true_eq] at *
  omega

end Readability.Number
