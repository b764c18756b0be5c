import Mathlib
import Readability.Decimal.Exact
import Readability.Number.Double

/-!
# Which operations on doubles give numbers

A double is packed from a sign, a mantissa and an exponent (`shape`). What an
operation gives is no number exactly where one of its arguments is none, or where
its rule says so: a product of zero and infinity (`isNaN_mul`). Sums with finite
numbers, and quotients of one, are numbers as their other argument is
(`isNaN_add`, `isNaN_sub`, `isNaN_one_div`).

Rounding never makes a zero of what is none, because exponents stop where the
mantissas of doubles do (`canonical_unpack`, `normalize_finite`). So finite
numbers that differ have a difference (`isZero_sub`).

Comparing says nothing of what is no number and orders all else (`le_of_not_lt`);
hence a number that is clamped lies between its bounds (`clamp_bounds`).

Nothing is rounded that a double can hold (`roundWithAccuracy_exact`). So division by
one and addition to the negative zero change nothing at all (`div_one`,
`negZero_add`).
-/

namespace Readability.Number

open Float.Model (Format UnpackedFloat totalExponent)
open Float.Model.UnpackedFloat

/-- What a double stands for. -/
def shape (x : Float) : UnpackedFloat :=
  x.toModel.unpack

/-- Whether a shape is one of the two zeros. -/
def isZero : UnpackedFloat → Bool
  | .zero _ => true
  | _ => false

/-! ## Bits -/

theorem isNaN_unpack (b : BitVec Format.binary64.numBits) :
    (unpack Format.binary64 b).isNaN = true ↔
      unpackExponent b = -1#_ ∧ unpackMantissa b ≠ 0#_ := by
  simp only [unpack]
  split
  · split <;> simp_all [isNaN]
  · split
    · split <;> simp_all [isNaN]
    · simp_all [isNaN]

theorem isZero_unpack (b : BitVec Format.binary64.numBits) :
    isZero (unpack Format.binary64 b) = true ↔
      unpackExponent b = 0#_ ∧ unpackMantissa b = 0#_ := by
  have hends : (0#11) ≠ -1#11 := by decide
  simp only [unpack]
  split
  · split <;> simp_all [isZero]
  · split
    · split <;> simp_all [isZero]
    · simp_all [isZero]

theorem isFinite_unpack {b : BitVec Format.binary64.numBits} (h : unpackExponent b ≠ -1#_) :
    (unpack Format.binary64 b).isFinite = true := by
  simp only [unpack]
  rw [if_neg h]
  split
  · split <;> rfl
  · rfl

theorem not_isFinite_unpack {b : BitVec Format.binary64.numBits} (h : unpackExponent b = -1#_) :
    (unpack Format.binary64 b).isFinite = false := by
  simp only [unpack]
  rw [if_pos h]
  split <;> rfl

theorem toNat_unpackExponent (bits : UInt64) :
    (@unpackExponent Format.binary64 bits.toBitVec).toNat =
      (bits.toNat >>> 52) % 2048 := by
  simp only [unpackExponent, BitVec.toNat_cast, BitVec.extractLsb_toNat]
  rfl

/-- What is read as finite is finite. -/
theorem isFinite_shape {x : Float} (h : Decimal.isFinite x = true) :
    (shape x).isFinite = true := by
  refine isFinite_unpack ?_
  intro hones
  have hpower := congrArg BitVec.toNat hones
  rw [toNat_unpackExponent] at hpower
  have hlast : (x.toModel.toBits.toNat >>> 52) % 2048 = 2047 := hpower
  have hbits : x.toBits.toNat = x.toModel.toBits.toNat := rfl
  rw [Decimal.isFinite, Decimal.Exact.ofFloat, Decimal.Exact.ofBits, hbits, hlast] at h
  simp only [beq_self_eq_true, if_true] at h
  split at h
  · rename_i heq
    split at heq <;> cases heq
  · cases h

/-- What is finite is read as finite. -/
theorem isFinite_of_shape {x : Float} (h : (shape x).isFinite = true) :
    Decimal.isFinite x = true := by
  have hpower : (x.toModel.toBits.toNat >>> 52) % 2048 ≠ 2047 := by
    rw [← toNat_unpackExponent]
    intro hlast
    have hones : @unpackExponent Format.binary64 x.toModel.toBits.toBitVec = -1#_ :=
      BitVec.eq_of_toNat_eq hlast
    rw [shape, Float.Model.unpack, not_isFinite_unpack hones] at h
    cases h
  have hbits : x.toBits.toNat = x.toModel.toBits.toNat := rfl
  rw [Decimal.isFinite, Decimal.Exact.ofFloat, Decimal.Exact.ofBits, hbits]
  simp only [beq_iff_eq, if_neg hpower]
  split_ifs <;> rfl

/-- A number that is packed stays a number. -/
theorem isNaN_pack (u : UnpackedFloat) : (Float.Model.pack u).unpack.isNaN = u.isNaN := by
  cases u with
  | notANumber => rfl
  | infinity sign => cases sign <;> rfl
  | zero sign => cases sign <;> rfl
  | finite sign m e hm =>
    show (unpack Format.binary64 (pack Format.binary64 (.finite sign m e hm))).isNaN = false
    rw [← Bool.not_eq_true, isNaN_unpack]
    rintro ⟨hexponent, hmantissa⟩
    simp only [pack] at hexponent hmantissa
    split at hexponent
    · -- too large, so infinite
      rename_i hlarge
      rw [if_pos hlarge, packedInfinity, unpackMantissa_packComponents] at hmantissa
      exact hmantissa rfl
    · rename_i hsmall
      split at hexponent <;> rw [unpackExponent_packComponents] at hexponent
      · have hones := congrArg BitVec.toNat hexponent
        rw [BitVec.toNat_ofNat] at hones
        have hlast : (-1#11).toNat = 2047 := by decide
        change _ % 2 ^ 11 = (-1#11).toNat at hones
        simp only [Format.binary64] at hones hsmall
        omega
      · exact absurd hexponent (by decide)

/-- A mantissa that fits is not lost when it is packed. -/
theorem isZero_pack_finite (sign : Sign) {m : Nat} {e : Int} (hm : 0 < m) (hfits : m < 2 ^ 53)
    (hleast : -1074 ≤ e) : isZero (Float.Model.pack (.finite sign m e hm)).unpack = false := by
  show isZero (unpack Format.binary64 (pack Format.binary64 (.finite sign m e hm))) = false
  rw [← Bool.not_eq_true, isZero_unpack]
  rintro ⟨hexponent, hmantissa⟩
  simp only [pack] at hexponent hmantissa
  split at hexponent
  · rw [packedInfinity, unpackExponent_packComponents] at hexponent
    exact absurd hexponent (by decide)
  · rename_i hsmall
    rw [if_neg hsmall] at hmantissa
    split at hexponent
    · -- a leading bit goes with an exponent that is not zero
      rw [unpackExponent_packComponents] at hexponent
      have hzero := congrArg BitVec.toNat hexponent
      rw [BitVec.toNat_ofNat] at hzero
      change _ % 2 ^ 11 = 0 at hzero
      have hbias : Format.binary64.exponentBias = 1023 := by decide
      simp only [hbias] at hzero hsmall
      omega
    · rename_i hlog
      rw [if_neg hlog, unpackMantissa_packComponents] at hmantissa
      have hzero := congrArg BitVec.toNat hmantissa
      rw [BitVec.toNat_ofNat] at hzero
      change m % 2 ^ 52 = 0 at hzero
      have hlog' : m.log2 + 1 ≠ 53 := hlog
      have hlt : m.log2 < 53 := (Nat.log2_lt (Nat.ne_of_gt hm)).mpr hfits
      have hlow : m < 2 ^ 52 := (Nat.log2_lt (Nat.ne_of_gt hm)).mp (by omega)
      rw [Nat.mod_eq_of_lt hlow] at hzero
      omega

/-- Mantissas that doubles have: short ones only at the least exponent. -/
theorem canonical_unpack {b : BitVec Format.binary64.numBits} {sign : Sign} {m : Nat} {e : Int}
    {hm : 0 < m} (h : unpack Format.binary64 b = .finite sign m e hm) :
    m < 2 ^ 53 ∧ -1074 ≤ e ∧ (e = -1074 ∨ 2 ^ 52 ≤ m) := by
  have hbias : Format.binary64.exponentBias = 1023 := by decide
  have hmantissa : (unpackMantissa b).toNat < 2 ^ 52 := (unpackMantissa b).isLt
  simp only [unpack, hbias] at h
  split at h
  · split at h <;> cases h
  · split at h
    · rename_i hexponent
      split at h
      · cases h
      · injection h with _ hm' he
        rw [hexponent] at he
        change (0 : Int) - (1023 + 52) + 1 = e at he
        omega
    · rename_i hexponent
      injection h with _ hm' he
      -- the leading bit is not written, and stands in front of the mantissa
      have hlead : (1#1 ++ unpackMantissa b).toNat = 2 ^ 52 + (unpackMantissa b).toNat := by
        rw [BitVec.toNat_append, ← Nat.shiftLeft_add_eq_or_of_lt (unpackMantissa b).isLt,
          Nat.shiftLeft_eq]
        exact congrArg (· + _) (Nat.one_mul _)
      rw [hlead] at hm'
      have hpos : (unpackExponent b).toNat ≠ 0 := fun hzero =>
        hexponent (BitVec.eq_of_toNat_eq (hzero.trans BitVec.toNat_zero.symm))
      change ((unpackExponent b).toNat : Int) - (1023 + 52) = e at he
      omega

/-! ## Rounding -/

theorem mantissa_shift (n : Nat) (em : ExtendedMantissa) :
    (em >>> n).mantissa = em.mantissa / 2 ^ n := by
  induction n with
  | zero =>
    rw [Nat.pow_zero, Nat.div_one]
    rfl
  | succ n ih =>
    have hstep : (em >>> (n + 1)).mantissa = (em >>> n).mantissa / 2 := rfl
    rw [hstep, ih, Nat.div_div_eq_div_mul, Nat.pow_succ]

theorem mantissa_ofMantissaAndAccuracy (m : Nat) (accuracy : Accuracy) :
    (ExtendedMantissa.ofMantissaAndAccuracy m accuracy).mantissa = m := by
  rcases accuracy with _ | ordering
  · rfl
  · cases ordering <;> rfl

theorem le_roundedMantissa (em : ExtendedMantissa) : em.mantissa ≤ em.roundedMantissa := by
  rw [ExtendedMantissa.roundedMantissa]
  rcases em.accuracy with _ | ordering
  · exact Nat.le_refl _
  · cases ordering
    · exact Nat.le_refl _
    · exact Nat.le_add_right _ _
    · exact Nat.le_succ _

theorem targetExponent_eq (total : Int) :
    Format.binary64.targetExponent total = max (total - 53) (-1074) :=
  rfl

/-- A mantissa that is brought to its exponent keeps its leading bit, and fits. -/
theorem shifted_bounds {m : Nat} (hm : 0 < m) {e : Int} (he : -1074 ≤ e) :
    let shift := (Format.binary64.targetExponent (totalExponent m e) - e).toNat
    0 < m / 2 ^ shift ∧ m / 2 ^ shift < 2 ^ 53 := by
  intro shift
  have hlow : 2 ^ m.log2 ≤ m := Nat.log2_self_le (Nat.ne_of_gt hm)
  have hhigh : m < 2 ^ (m.log2 + 1) := Nat.lt_log2_self
  have hshift : shift = m.log2 - 52 := by
    simp only [shift, targetExponent_eq, totalExponent]
    omega
  rw [hshift]
  constructor
  · refine Nat.div_pos ?_ (Nat.two_pow_pos _)
    exact Nat.le_trans (Nat.pow_le_pow_right (by decide) (Nat.sub_le _ _)) hlow
  · rw [Nat.div_lt_iff_lt_mul (Nat.two_pow_pos _), ← Nat.pow_add]
    exact Nat.lt_of_lt_of_le hhigh (Nat.pow_le_pow_right (by decide) (by omega))

/-- A number is rounded to a number, as long as its exponent is not below the
least one. -/
theorem roundWithAccuracy_finite (sign : Sign) {m : Nat} (hm : 0 < m) {e : Int} (he : -1074 ≤ e)
    (accuracy : Accuracy) :
    ∃ m' e' hm', roundWithAccuracy Format.binary64 sign m e accuracy = .finite sign m' e' hm' ∧
      m' < 2 ^ 53 ∧ -1074 ≤ e' := by
  obtain ⟨hfirst, -⟩ := shifted_bounds hm he
  obtain ⟨shift, hshift⟩ : ∃ n,
      (Format.binary64.targetExponent (totalExponent m e) - e).toNat = n := ⟨_, rfl⟩
  rw [hshift] at hfirst
  -- rounding adds at most one to a mantissa, and never takes anything off
  have hrounded := le_roundedMantissa
    (ExtendedMantissa.ofMantissaAndAccuracy m accuracy >>> shift)
  rw [mantissa_shift, mantissa_ofMantissaAndAccuracy] at hrounded
  obtain ⟨hpos, hfits⟩ := shifted_bounds (Nat.lt_of_lt_of_le hfirst hrounded)
    (e := e + shift) (by omega)
  simp only [roundWithAccuracy, shiftToTargetExponent, shiftToExponent, hshift,
    mantissa_shift _ (ExtendedMantissa.ofMantissaAndAccuracy _ .exact),
    mantissa_ofMantissaAndAccuracy _ .exact]
  rw [dif_neg (Nat.ne_of_gt hpos)]
  exact ⟨_, _, hpos, rfl, hfits, by omega⟩

theorem round_finite (sign : Sign) {m : Nat} (hm : 0 < m) {e : Int} (he : -1074 ≤ e) :
    ∃ m' e' hm', UnpackedFloat.round Format.binary64 sign m e = .finite sign m' e' hm' ∧
      m' < 2 ^ 53 ∧ -1074 ≤ e' := by
  simp only [UnpackedFloat.round, decreaseExponent]
  refine roundWithAccuracy_finite sign ?_ ?_ _
  · rw [Nat.shiftLeft_eq]
    exact Nat.mul_pos hm (Nat.two_pow_pos _)
  · rw [targetExponent_eq]
    omega

/-- What is not zero is not rounded to zero. -/
theorem normalize_finite {m : Int} (hm : m ≠ 0) {e : Int} (he : -1074 ≤ e) (zero : Sign) :
    ∃ sign m' e' hm', UnpackedFloat.normalize Format.binary64 m e zero = .finite sign m' e' hm' ∧
      m' < 2 ^ 53 ∧ -1074 ≤ e' := by
  rw [UnpackedFloat.normalize]
  rcases hcompare : compare m 0 with _ | _ | _
  · have hneg := Int.compare_eq_lt.mp hcompare
    exact ⟨_, round_finite .negative (by omega) he⟩
  · exact absurd (Int.compare_eq_eq.mp hcompare) hm
  · have hpos := Int.compare_eq_gt.mp hcompare
    exact ⟨_, round_finite .positive (by omega) he⟩

theorem isNaN_roundWithAccuracy (sign : Sign) (m : Nat) (e : Int) (accuracy : Accuracy) :
    (roundWithAccuracy Format.binary64 sign m e accuracy).isNaN = false := by
  simp only [roundWithAccuracy]
  split <;> rfl

theorem isNaN_normalize (m e : Int) (zero : Sign) :
    (UnpackedFloat.normalize Format.binary64 m e zero).isNaN = false := by
  rw [UnpackedFloat.normalize]
  split
  · exact isNaN_roundWithAccuracy _ _ _ _
  · rfl
  · exact isNaN_roundWithAccuracy _ _ _ _

/-! ## Results that are no numbers -/

/-- A sum with a finite number is no number only if its other term is none. -/
theorem isNaN_add {x : Float} (hx : (shape x).isFinite = true) (y : Float) :
    (x + y).isNaN = y.isNaN := by
  show (Float.Model.pack (add Format.binary64 (shape x) (shape y))).unpack.isNaN =
    (shape y).isNaN
  rw [isNaN_pack]
  rcases hxs : shape x with _ | _ | _ | _ <;> rw [hxs] at hx <;> try cases hx
  all_goals rcases shape y with _ | _ | _ | _ <;> simp only [add] <;> try rfl
  · split <;> rfl
  · exact isNaN_normalize _ _ _

theorem isNaN_sub {x : Float} (hx : (shape x).isFinite = true) (y : Float) :
    (x - y).isNaN = y.isNaN := by
  show (Float.Model.pack (sub Format.binary64 (shape x) (shape y))).unpack.isNaN =
    (shape y).isNaN
  rw [isNaN_pack]
  rcases hxs : shape x with _ | _ | _ | _ <;> rw [hxs] at hx <;> try cases hx
  all_goals rcases shape y with _ | _ | _ | _ <;> simp only [sub] <;> try rfl
  · split <;> rfl
  · exact isNaN_normalize _ _ _

/-- What is no number makes none of a sum. -/
theorem isNaN_add_of_isNaN {x : Float} (hx : x.isNaN = true) (y : Float) :
    (x + y).isNaN = true := by
  have hshape : (shape x).isNaN = true := hx
  show (Float.Model.pack (add Format.binary64 (shape x) (shape y))).unpack.isNaN = true
  rw [isNaN_pack]
  rcases hxs : shape x with _ | _ | _ | _ <;> rw [hxs] at hshape <;> try cases hshape
  rcases shape y with _ | _ | _ | _ <;> rfl

/-- A product of numbers is none only if it is of zero and infinity. -/
theorem isNaN_mul (x y : Float) :
    (x * y).isNaN = ((shape x).isNaN || (shape y).isNaN || ((shape x).isInf && isZero (shape y)) ||
      (isZero (shape x) && (shape y).isInf)) := by
  show (Float.Model.pack (mul Format.binary64 (shape x) (shape y))).unpack.isNaN = _
  rw [isNaN_pack]
  rcases shape x with _ | _ | _ | _ <;> rcases shape y with _ | _ | _ | _ <;> simp only [mul] <;>
    try rfl
  exact isNaN_roundWithAccuracy _ _ _ _

/-- Zero times a finite number is one of the zeros. -/
theorem zero_mul_of_finite {x : Float} (hx : (shape x).isFinite = true) :
    0 * x = 0 ∨ 0 * x = -0 := by
  have hzero : shape 0 = .zero .positive := rfl
  have hproduct : ∃ sign, mul Format.binary64 (shape 0) (shape x) = .zero sign := by
    rw [hzero]
    rcases hxs : shape x with _ | _ | sign | ⟨sign, _, _, _⟩ <;> rw [hxs] at hx <;> try cases hx
    · exact ⟨_, rfl⟩
    · exact ⟨_, rfl⟩
  obtain ⟨sign, hsign⟩ := hproduct
  have hpack : 0 * x = Float.ofModel (Float.Model.pack (.zero sign)) := by
    rw [← hsign]
    rfl
  rw [hpack]
  cases sign with
  | positive => exact .inl rfl
  | negative => exact .inr rfl

/-- Both zeros equal zero, and nothing else does. -/
theorem isZero_shape (x : Float) : isZero (shape x) = (x == 0) := by
  have hzero : shape 0 = .zero .positive := rfl
  show isZero (shape x) = (shape x).beq (shape 0)
  rw [hzero]
  rcases shape x with ⟨_ | _⟩ | _ | _ | ⟨_ | _, _, _, _⟩ <;> rfl

theorem shape_one : shape 1 = .finite .positive (2 ^ 52) (-52) (by decide) := by
  rfl

/-- A quotient of one by a number is a number. -/
theorem isNaN_one_div (x : Float) : (1 / x).isNaN = x.isNaN := by
  show (Float.Model.pack (div Format.binary64 (shape 1) (shape x))).unpack.isNaN =
    (shape x).isNaN
  rw [isNaN_pack, shape_one]
  rcases shape x with _ | _ | _ | _ <;> simp only [div] <;> try rfl
  exact isNaN_roundWithAccuracy _ _ _ _

/-- An infinite term makes a sum with a finite number infinite. -/
theorem isInf_add {x y : Float} (hx : (shape x).isFinite = true) (hy : (shape y).isInf = true) :
    (shape (x + y)).isInf = true := by
  show (Float.Model.pack (add Format.binary64 (shape x) (shape y))).unpack.isInf = true
  rcases hxs : shape x with _ | _ | _ | _ <;> rw [hxs] at hx <;> try cases hx
  all_goals
    rcases hys : shape y with ⟨_ | _⟩ | _ | _ | _ <;> rw [hys] at hy <;> try cases hy
  all_goals
    simp only [add]
    rfl

/-- One by infinity is zero. -/
theorem isZero_one_div {x : Float} (hx : (shape x).isInf = true) :
    isZero (shape (1 / x)) = true := by
  show isZero (Float.Model.pack (div Format.binary64 (shape 1) (shape x))).unpack = true
  rw [shape_one]
  rcases hxs : shape x with ⟨_ | _⟩ | _ | _ | _ <;> rw [hxs] at hx <;> try cases hx
  all_goals rfl

/-! ## Order -/

theorem lt_iff (x y : Float) : x < y ↔ (shape x).compare (shape y) = some .lt := by
  show decide ((shape x).lt (shape y) = true) = true ↔ _
  rw [decide_eq_true_iff, UnpackedFloat.lt, beq_iff_eq]

theorem le_iff (x y : Float) :
    x ≤ y ↔ ((shape x).compare (shape y)).any (fun o => o.isLE) = true := by
  show decide ((shape x).le (shape y) = true) = true ↔ _
  rw [decide_eq_true_iff, UnpackedFloat.le]

theorem compare_eq_none_iff (u v : UnpackedFloat) :
    u.compare v = none ↔ u.isNaN = true ∨ v.isNaN = true := by
  rcases u with (_ | _) | _ | _ | ⟨_ | _⟩ <;> rcases v with (_ | _) | _ | _ | ⟨_ | _⟩ <;>
    simp [isNaN, UnpackedFloat.compare]

theorem compare_swap (u v : UnpackedFloat) : v.compare u = (u.compare v).map Ordering.swap := by
  rcases u with (_ | _) | _ | _ | ⟨_ | _, m, e⟩ <;>
    rcases v with (_ | _) | _ | _ | ⟨_ | _, m', e'⟩ <;>
    simp only [UnpackedFloat.compare, Option.map_some, Option.map_none, Ordering.swap_then,
      Int.compare_swap, Nat.compare_swap] <;> rfl

/-- Only numbers can be compared. -/
theorem isNaN_of_compare {x y : Float} {o : Ordering}
    (h : (shape x).compare (shape y) = some o) : x.isNaN = false ∧ y.isNaN = false := by
  have hsome : ¬ ((shape x).isNaN = true ∨ (shape y).isNaN = true) := by
    rw [← compare_eq_none_iff, h]
    exact Option.some_ne_none _
  rw [not_or, Bool.not_eq_true, Bool.not_eq_true] at hsome
  exact hsome

theorem isNaN_of_lt {x y : Float} (h : x < y) : x.isNaN = false ∧ y.isNaN = false :=
  isNaN_of_compare ((lt_iff x y).mp h)

theorem isNaN_of_le {x y : Float} (h : x ≤ y) : x.isNaN = false ∧ y.isNaN = false := by
  rw [le_iff, Option.any_eq_true] at h
  obtain ⟨o, hcompare, -⟩ := h
  exact isNaN_of_compare hcompare

theorem le_of_lt {x y : Float} (h : x < y) : x ≤ y := by
  rw [lt_iff] at h
  rw [le_iff, h]
  rfl

/-- Two numbers are in order, one way or the other. -/
theorem le_of_not_lt {x y : Float} (hx : x.isNaN = false) (hy : y.isNaN = false) (h : ¬ x < y) :
    y ≤ x := by
  rw [lt_iff] at h
  rw [le_iff, compare_swap (shape x)]
  rcases hcompare : (shape x).compare (shape y) with _ | o
  · rcases (compare_eq_none_iff _ _).mp hcompare with hnan | hnan
    · exact absurd (hx.symm.trans hnan) Bool.false_ne_true
    · exact absurd (hy.symm.trans hnan) Bool.false_ne_true
  · rw [hcompare] at h
    cases o
    · exact absurd rfl h
    · rfl
    · rfl

theorem le_refl_of_number {x : Float} (hx : x.isNaN = false) : x ≤ x := by
  by_cases h : x < x
  · exact le_of_lt h
  · exact le_of_not_lt hx hx h

theorem compare_infinity {u : UnpackedFloat} (h : u.isFinite = true) :
    u.compare (.infinity .negative) = some .gt ∧
      (UnpackedFloat.infinity .positive).compare u = some .gt := by
  cases u with
  | infinity sign => cases h
  | notANumber => cases h
  | zero sign => exact ⟨rfl, rfl⟩
  | finite sign m e hm => exact ⟨rfl, rfl⟩

/-- What lies between two finite numbers is finite. -/
theorem isFinite_of_between {low high x : Float} (hlow : (shape low).isFinite = true)
    (hhigh : (shape high).isFinite = true) (hle : low ≤ x) (hge : x ≤ high) :
    Decimal.isFinite x = true := by
  have hnumber : (shape x).isNaN = false := (isNaN_of_le hle).2
  rw [le_iff] at hle hge
  refine isFinite_of_shape ?_
  rcases hshape : shape x with sign | _ | _ | _
  · rw [hshape] at hle hge
    cases sign with
    | negative =>
      rw [(compare_infinity hlow).1] at hle
      cases hle
    | positive =>
      rw [(compare_infinity hhigh).2] at hge
      cases hge
  · rw [hshape] at hnumber
    cases hnumber
  · rfl
  · rfl

/-- **A number that is clamped lies between its bounds.** -/
theorem clamp_bounds {low high x : Float} (h : low < high) (hx : x.isNaN = false) :
    low ≤ clamp low high x ∧ clamp low high x ≤ high := by
  obtain ⟨hlow, hhigh⟩ := isNaN_of_lt h
  simp only [clamp]
  by_cases hbelow : x < low
  · rw [if_pos hbelow]
    by_cases hcross : high < low
    · rw [if_pos hcross]
      exact ⟨le_of_lt h, le_refl_of_number hhigh⟩
    · rw [if_neg hcross]
      exact ⟨le_refl_of_number hlow, le_of_lt h⟩
  · rw [if_neg hbelow]
    by_cases habove : high < x
    · rw [if_pos habove]
      exact ⟨le_of_lt h, le_refl_of_number hhigh⟩
    · rw [if_neg habove]
      exact ⟨le_of_not_lt hx hlow hbelow, le_of_not_lt hhigh hx habove⟩

/-- What is no number passes between all bounds. -/
theorem clamp_of_isNaN {low high x : Float} (hx : x.isNaN = true) : clamp low high x = x := by
  have hbelow : ¬ x < low := fun h => by
    rw [(isNaN_of_lt h).1] at hx
    cases hx
  have habove : ¬ high < x := fun h => by
    rw [(isNaN_of_lt h).2] at hx
    cases hx
  simp only [clamp]
  rw [if_neg hbelow, if_neg habove]

/-! ## Differences -/

/-- Mantissas that are brought to one exponent stand in the order of the
numbers. -/
theorem aligned_lt {m n : Nat} {e f : Int} (hm : m < 2 ^ 53) (hn : f = -1074 ∨ 2 ^ 52 ≤ n)
    (he : -1074 ≤ e) (h : (compare e f).then (compare m n) = .lt) :
    (decreaseExponent m e (min e f)).1 < (decreaseExponent n f (min e f)).1 := by
  simp only [decreaseExponent, Nat.shiftLeft_eq]
  rw [Ordering.then_eq_lt] at h
  rcases h with hlt | ⟨heq, hlt⟩
  · -- the larger exponent goes with a leading bit, which outgrows the smaller mantissa
    have hef := Int.compare_eq_lt.mp hlt
    have hlead : 2 ^ 52 ≤ n := hn.resolve_left (by omega)
    have hgap : 2 ^ 1 ≤ 2 ^ (f - min e f).toNat := Nat.pow_le_pow_right (by decide) (by omega)
    have hsame : (e - min e f).toNat = 0 := by omega
    have hgrown := Nat.mul_le_mul hlead hgap
    rw [hsame, Nat.pow_zero, Nat.mul_one]
    omega
  · have hef := Int.compare_eq_eq.mp heq
    subst hef
    have hsame : (e - min e e).toNat = 0 := by omega
    rw [hsame, Nat.pow_zero, Nat.mul_one, Nat.mul_one]
    exact Nat.compare_eq_lt.mp hlt

theorem decreaseExponent_pos {m : Nat} (hm : 0 < m) (e target : Int) :
    0 < (decreaseExponent m e target).1 := by
  rw [decreaseExponent, Nat.shiftLeft_eq]
  exact Nat.mul_pos hm (Nat.two_pow_pos _)

/-- **Finite numbers that differ have a difference**: it does not vanish when it
is rounded. -/
theorem isZero_sub {x y : Float} (hx : (shape x).isFinite = true) (hy : (shape y).isFinite = true)
    (h : x < y) : isZero (shape (y - x)) = false := by
  rw [lt_iff] at h
  show isZero (Float.Model.pack (sub Format.binary64 (shape y) (shape x))).unpack = false
  rcases hxs : shape x with _ | _ | s | ⟨s, m, e, hm⟩ <;> rw [hxs] at hx h <;> try cases hx
  all_goals
    rcases hys : shape y with _ | _ | t | ⟨t, n, f, hn⟩ <;> rw [hys] at hy h <;> try cases hy
  · cases h
  · -- nothing is taken off
    obtain ⟨hfits, hleast, -⟩ := canonical_unpack hys
    exact isZero_pack_finite t hn hfits hleast
  · obtain ⟨hfits, hleast, -⟩ := canonical_unpack hxs
    exact isZero_pack_finite (-s) hm hfits hleast
  · obtain ⟨hmfits, hmleast, hmlead⟩ := canonical_unpack hxs
    obtain ⟨hnfits, hnleast, hnlead⟩ := canonical_unpack hys
    have hmpos := decreaseExponent_pos hm e (min f e)
    have hnpos := decreaseExponent_pos hn f (min f e)
    -- brought to one exponent, the mantissas differ
    have hne : t.apply (decreaseExponent n f (min f e)).1 -
        s.apply (decreaseExponent m e (min f e)).1 ≠ 0 := by
      cases s <;> cases t <;> simp only [UnpackedFloat.compare, Option.some.injEq] at h
      · rw [Ordering.swap_then, Int.compare_swap, Nat.compare_swap] at h
        have hlt := aligned_lt hnfits hmlead hnleast h
        simp only [Sign.apply]
        omega
      · simp only [Sign.apply]
        omega
      · cases h
      · have hlt := aligned_lt hmfits hnlead hmleast h
        rw [Int.min_comm] at hlt
        simp only [Sign.apply]
        omega
    obtain ⟨sign, m', e', hm', hnormal, hfits, hleast⟩ :=
      normalize_finite hne (e := min f e) (by omega) .positive
    simp only [sub]
    rw [hnormal]
    exact isZero_pack_finite sign hm' hfits hleast

/-! ## Numbers that change nothing -/

/-- A double is packed from its shape. -/
theorem pack_shape (x : Float) : Float.ofModel (Float.Model.pack (shape x)) = x := by
  have hbits := pack_unpack_of_valid x.toModel.valid
  exact Float.toBits_inj.mp (UInt64.toBitVec_inj.mp hbits)

/-- The negative zero leaves every double as it is. -/
theorem negZero_add (x : Float) : -0 + x = x := by
  have hzero : shape (-0) = .zero .negative := rfl
  have hsum : add Format.binary64 (shape (-0)) (shape x) = shape x := by
    rw [hzero]
    rcases shape x with _ | _ | ⟨_ | _⟩ | _ <;> rfl
  show Float.ofModel (Float.Model.pack (add Format.binary64 (shape (-0)) (shape x))) = x
  rw [hsum, pack_shape]

/-- Zeros that are taken off leave the mantissa exact. -/
theorem exact_shift (m n : Nat) :
    ExtendedMantissa.ofMantissaAndAccuracy (m * 2 ^ n) .exact >>> n =
      ExtendedMantissa.ofMantissaAndAccuracy m .exact := by
  induction n generalizing m with
  | zero =>
    rw [Nat.pow_zero, Nat.mul_one]
    rfl
  | succ n ih =>
    have hstep : ∀ em : ExtendedMantissa,
        em >>> (n + 1) = ExtendedMantissa.shiftRightOne (em >>> n) := fun _ => rfl
    rw [hstep, Nat.pow_succ, Nat.mul_comm (2 ^ n), ← Nat.mul_assoc, ih]
    simp [ExtendedMantissa.ofMantissaAndAccuracy, ExtendedMantissa.shiftRightOne]

theorem log2_mul_two_pow {m : Nat} (hm : 0 < m) (n : Nat) : (m * 2 ^ n).log2 = m.log2 + n := by
  induction n with
  | zero => rw [Nat.pow_zero, Nat.mul_one, Nat.add_zero]
  | succ n ih =>
    rw [Nat.pow_succ, ← Nat.mul_assoc, Nat.mul_comm _ 2,
      Nat.log2_two_mul (Nat.ne_of_gt (Nat.mul_pos hm (Nat.two_pow_pos n))), ih, Nat.add_assoc]

/-- What a double can hold is not rounded, with however many zeros behind it. -/
theorem roundWithAccuracy_exact (sign : Sign) {m : Nat} (hm : 0 < m) {e : Int} (hfits : m < 2 ^ 53)
    (hleast : -1074 ≤ e) (hlead : e = -1074 ∨ 2 ^ 52 ≤ m) (n : Nat) :
    roundWithAccuracy Format.binary64 sign (m * 2 ^ n) (e - n) .exact = .finite sign m e hm := by
  have hlog : m.log2 < 53 := (Nat.log2_lt (Nat.ne_of_gt hm)).mpr hfits
  have hlead' : e = -1074 ∨ 52 ≤ m.log2 :=
    hlead.imp_right fun h => (Nat.le_log2 (Nat.ne_of_gt hm)).mpr h
  have htarget : ∀ k : Nat,
      Format.binary64.targetExponent (totalExponent (m * 2 ^ k) (e - k)) = e := by
    intro k
    rw [targetExponent_eq, totalExponent, log2_mul_two_pow hm]
    omega
  -- the zeros are taken off once, and the second time there are none
  have hshift : ∀ k : Nat, shiftToTargetExponent Format.binary64 (m * 2 ^ k) (e - k) .exact =
      (ExtendedMantissa.ofMantissaAndAccuracy m .exact, e) := by
    intro k
    have hzeros : (e - (e - k)).toNat = k := by omega
    rw [shiftToTargetExponent, shiftToExponent, htarget, hzeros, exact_shift]
    exact congrArg (Prod.mk _) (by omega)
  have hagain := hshift 0
  rw [Nat.pow_zero, Nat.mul_one, Int.natCast_zero, Int.sub_zero] at hagain
  have hrounded : (ExtendedMantissa.ofMantissaAndAccuracy m .exact).roundedMantissa = m := rfl
  simp only [roundWithAccuracy, hshift, hrounded, hagain]
  exact dif_neg (Nat.ne_of_gt hm)

/-- **One divides every double as it is**: nothing is rounded. -/
theorem div_one (x : Float) : x / 1 = x := by
  have hquotient : div Format.binary64 (shape x) (shape 1) = shape x := by
    rw [shape_one]
    rcases hx : shape x with ⟨_ | _⟩ | _ | ⟨_ | _⟩ | ⟨s, m, e, hm⟩ <;> try rfl
    obtain ⟨hfits, hleast, hlead⟩ := canonical_unpack hx
    have hlog : m.log2 < 53 := (Nat.log2_lt (Nat.ne_of_gt hm)).mpr hfits
    have hone : totalExponent (2 ^ 52) (-52) = 1 := rfl
    have hsign : s / .positive = s := by cases s <;> rfl
    simp only [div, divCore, hone, hsign]
    -- the mantissa is written with more zeros than the division takes off
    obtain ⟨n, hn⟩ : ∃ n : Nat, min (e - (-52))
        (Format.binary64.targetExponent (totalExponent m e - 1)) = e - n := by
      rw [targetExponent_eq, totalExponent]
      exact ⟨(e - min (e - (-52)) (max (m.log2 + 1 + e - 1 - 53) (-1074))).toNat, by omega⟩
    have hzeros : (e - (-52) - (e - n)).toNat = n + 52 := by omega
    rw [hn, hzeros, Nat.shiftLeft_eq, Nat.pow_add, ← Nat.mul_assoc,
      Nat.mul_div_cancel _ (Nat.two_pow_pos 52), Nat.mul_mod_left]
    exact roundWithAccuracy_exact s hm hfits hleast hlead n
  show Float.ofModel (Float.Model.pack (div Format.binary64 (shape x) (shape 1))) = x
  rw [hquotient, pack_shape]

/-- A sum starts with its first number. -/
theorem total_cons (x : Float) (xs : List Float) : total (x :: xs) = xs.foldl (· + ·) x := by
  rw [total, List.foldl_cons, negZero_add]

end Readability.Number
