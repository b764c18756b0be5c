import Mathlib
import Readability.Proofs.Doubles

/-!
# Shares as doubles

Whole numbers below `2 ^ 53` are doubles as they are (`shape_toFloat`), with a leading bit
in place. So is their quotient before it is rounded, and if it is less than one, it is so by
more than rounding can add (`quotient_bounds`): `a / b` is at most `1 - 1 / b`, and there is
a double between that and one.

Hence rounding does not change on which side of one a share lies (`share_bounds`,
`share_lt_one`). For larger numbers it does: `2 ^ 53` and `2 ^ 53 + 1` are one double.
-/

namespace Readability.Number

open Float.Model (Format UnpackedFloat totalExponent)
open Float.Model.UnpackedFloat

/-! ## Packing -/

theorem unpackSign_packComponents (spec : Format) (sign : Sign)
    (exponent : BitVec spec.exponentBits) (mantissa : BitVec spec.mantissaBitsWithoutImplicit) :
    unpackSign (packComponents spec sign exponent mantissa) = sign.toBitVec := by
  refine BitVec.eq_of_getLsbD_eq fun i hi => ?_
  obtain rfl : i = 0 := by omega
  simp [unpackSign, packComponents, BitVec.getLsbD_append, BitVec.getElem_append]

/-- A leading bit in front of the others makes up the mantissa. -/
theorem toNat_leadingBit {bits m : Nat} (hlead : 2 ^ bits ≤ m) (hfits : m < 2 ^ (bits + 1)) :
    (1#1 ++ BitVec.ofNat bits m).toNat = m := by
  have hrest : m % 2 ^ bits = m - 2 ^ bits := by
    rw [Nat.mod_eq_sub_mod hlead, Nat.mod_eq_of_lt (by rw [Nat.pow_succ] at hfits; omega)]
  rw [BitVec.toNat_append, ← Nat.shiftLeft_add_eq_or_of_lt (BitVec.isLt _), BitVec.toNat_ofNat,
    BitVec.toNat_ofNat, Nat.shiftLeft_eq, hrest, Nat.pow_one, Nat.one_mod, Nat.one_mul]
  omega

/-- A number with a leading bit is packed as it is. -/
theorem unpack_pack {spec : Format} {sign : Sign} {m : Nat} {e : Int} {hm : 0 < m}
    (hlead : 2 ^ spec.mantissaBitsWithoutImplicit ≤ m)
    (hfits : m < 2 ^ (spec.mantissaBitsWithoutImplicit + 1))
    (hleast : 0 < e + spec.exponentBias + spec.mantissaBitsWithoutImplicit)
    (hmost : e + spec.exponentBias + spec.mantissaBitsWithoutImplicit + 1 < 2 ^ spec.exponentBits) :
    unpack spec (pack spec (.finite sign m e hm)) = .finite sign m e hm := by
  obtain ⟨biased, hbiased⟩ := Int.eq_ofNat_of_zero_le (Int.le_of_lt hleast)
  have hsmall : biased + 1 < 2 ^ spec.exponentBits := by
    rw [hbiased] at hmost
    exact_mod_cast hmost
  have hlog : m.log2 + 1 = spec.mantissaBits := by
    have hlow := (Nat.le_log2 (Nat.ne_of_gt hm)).mpr hlead
    have hhigh := (Nat.log2_lt (Nat.ne_of_gt hm)).mpr hfits
    rw [Format.mantissaBits]
    omega
  have hexponent : (BitVec.ofNat spec.exponentBits biased).toNat = biased := by
    rw [BitVec.toNat_ofNat, Nat.mod_eq_of_lt (by omega)]
  have hzero : BitVec.ofNat spec.exponentBits biased ≠ 0#_ := by
    intro h
    rw [h, BitVec.toNat_zero] at hexponent
    omega
  have hones : BitVec.ofNat spec.exponentBits biased ≠ -1#_ := by
    intro h
    rw [h, BitVec.neg_one_eq_allOnes, BitVec.toNat_allOnes] at hexponent
    omega
  have hsign : Sign.ofBitVec sign.toBitVec = sign := by cases sign <;> rfl
  have hpack : pack spec (.finite sign m e hm) =
      packComponents spec sign (BitVec.ofNat spec.exponentBits biased)
        (BitVec.ofNat spec.mantissaBitsWithoutImplicit m) := by
    rw [pack, hbiased]
    exact (if_neg (Nat.not_le.mpr hsmall)).trans (if_pos hlog)
  have hbias : (biased : Int) - (spec.exponentBias + spec.mantissaBitsWithoutImplicit) = e := by
    omega
  simp only [hpack, unpack, unpackExponent_packComponents, unpackMantissa_packComponents,
    unpackSign_packComponents, if_neg hones, if_neg hzero, hsign, hexponent,
    toNat_leadingBit hlead hfits, hbias]

/-- Doubles with a leading bit are packed as they are. -/
theorem shape_pack {sign : Sign} {m : Nat} {e : Int} {hm : 0 < m} (hlead : 2 ^ 52 ≤ m)
    (hfits : m < 2 ^ 53) (hleast : -1074 ≤ e) (hmost : e ≤ 971) :
    shape (Float.ofModel (Float.Model.pack (.finite sign m e hm))) = .finite sign m e hm := by
  have hbias : Format.binary64.exponentBias = 1023 := by decide
  refine unpack_pack hlead hfits ?_ ?_
  · rw [hbias]
    show 0 < e + 1023 + 52
    omega
  · rw [hbias]
    show e + 1023 + 52 + 1 < 2048
    omega

/-! ## Whole numbers -/

/-- The mantissa of a whole number: the number with a leading bit in place. -/
def mantissaOf (n : Nat) : Nat :=
  n * 2 ^ (52 - n.log2)

/-- Its exponent. -/
def exponentOf (n : Nat) : Int :=
  n.log2 - 52

section Whole

variable {n : Nat} (hn : 0 < n) (hfits : n < 2 ^ 53)

include hn

theorem mantissaOf_pos : 0 < mantissaOf n :=
  Nat.mul_pos hn (Nat.two_pow_pos _)

include hfits

theorem log2_le : n.log2 ≤ 52 :=
  Nat.le_of_lt_succ ((Nat.log2_lt (Nat.ne_of_gt hn)).mpr hfits)

theorem mantissaOf_bounds : 2 ^ 52 ≤ mantissaOf n ∧ mantissaOf n < 2 ^ 53 := by
  have hlog := log2_le hn hfits
  have hlow : 2 ^ n.log2 ≤ n := Nat.log2_self_le (Nat.ne_of_gt hn)
  have hhigh : n < 2 ^ (n.log2 + 1) := Nat.lt_log2_self
  have hbits : ∀ k, n.log2 + k - n.log2 + (52 - n.log2) = 52 - n.log2 + k := by omega
  constructor
  · calc 2 ^ 52 = 2 ^ n.log2 * 2 ^ (52 - n.log2) := by rw [← Nat.pow_add, Nat.add_sub_cancel' hlog]
      _ ≤ mantissaOf n := Nat.mul_le_mul_right _ hlow
  · calc mantissaOf n < 2 ^ (n.log2 + 1) * 2 ^ (52 - n.log2) :=
        Nat.mul_lt_mul_of_pos_right hhigh (Nat.two_pow_pos _)
      _ = 2 ^ 53 := by
        rw [← Nat.pow_add]
        congr 1
        omega

/-- The mantissa is not rounded, with however many zeros behind it. -/
theorem roundWithAccuracy_whole (zeros : Nat) : roundWithAccuracy Format.binary64 .positive
    (mantissaOf n * 2 ^ zeros) (exponentOf n - zeros) .exact =
      .finite .positive (mantissaOf n) (exponentOf n) (mantissaOf_pos hn) := by
  obtain ⟨hlead, hsmall⟩ := mantissaOf_bounds hn hfits
  refine roundWithAccuracy_exact .positive (mantissaOf_pos hn) hsmall ?_ (.inr hlead) zeros
  rw [exponentOf]
  omega

theorem shape_pack_whole : shape (Float.ofModel (Float.Model.pack
    (.finite .positive (mantissaOf n) (exponentOf n) (mantissaOf_pos hn)))) =
      .finite .positive (mantissaOf n) (exponentOf n) (mantissaOf_pos hn) := by
  have hlog := log2_le hn hfits
  obtain ⟨hlead, hsmall⟩ := mantissaOf_bounds hn hfits
  exact shape_pack hlead hsmall (by rw [exponentOf]; omega) (by rw [exponentOf]; omega)

/-- Rounding leaves a whole number as it is. -/
theorem round_whole : UnpackedFloat.round Format.binary64 .positive n 0 =
    .finite .positive (mantissaOf n) (exponentOf n) (mantissaOf_pos hn) := by
  have hlog := log2_le hn hfits
  have htarget : Format.binary64.targetExponent (totalExponent n 0) = exponentOf n := by
    rw [targetExponent_eq, totalExponent, exponentOf]
    omega
  have hshift : (0 - exponentOf n).toNat = 52 - n.log2 := by
    rw [exponentOf]
    omega
  have hexponent : (0 : Int) - (52 - n.log2 : Nat) = exponentOf n := by
    rw [exponentOf]
    omega
  have hexact := roundWithAccuracy_whole hn hfits 0
  rw [Nat.pow_zero, Nat.mul_one, Int.natCast_zero, Int.sub_zero] at hexact
  simp only [UnpackedFloat.round, decreaseExponent, htarget, hshift, hexponent, Nat.shiftLeft_eq]
  exact hexact

theorem shape_toUInt64 : shape n.toUInt64.toFloat =
    .finite .positive (mantissaOf n) (exponentOf n) (mantissaOf_pos hn) := by
  have hnat : n.toUInt64.toNat = n := Nat.mod_eq_of_lt (Nat.lt_trans hfits (by decide))
  have hnormal : UnpackedFloat.normalize Format.binary64 n 0 .positive =
      .finite .positive (mantissaOf n) (exponentOf n) (mantissaOf_pos hn) := by
    rw [UnpackedFloat.normalize, Int.compare_eq_gt.mpr (Int.natCast_pos.mpr hn)]
    exact round_whole hn hfits
  show shape (Float.ofModel (Float.Model.pack
    (UnpackedFloat.normalize Format.binary64 n.toUInt64.toNat 0 .positive))) = _
  rw [hnat, hnormal]
  exact shape_pack_whole hn hfits

/-- **A whole number is a double as it is.** -/
theorem shape_toFloat : shape n.toFloat =
    .finite .positive (mantissaOf n) (exponentOf n) (mantissaOf_pos hn) := by
  -- the power of ten that small numbers are multiplied by is one
  have hone : shape (Float.ofBits 0x3FF0000000000000) =
      .finite .positive (2 ^ 52) (-52) (by decide) := rfl
  have hsmallest : n < 2 ^ 53 ∧ 0 ≤ 22 := ⟨hfits, by decide⟩
  have hproduct : n.toFloat = n.toUInt64.toFloat * Float.ofBits 0x3FF0000000000000 := by
    show Float.ofScientific n false 0 = _
    rw [Float.ofScientific, dif_pos hsmallest]
    rfl
  have hexact : roundWithAccuracy Format.binary64 .positive (mantissaOf n * 2 ^ 52)
      (exponentOf n + -52) .exact = _ := roundWithAccuracy_whole hn hfits 52
  rw [hproduct]
  show shape (Float.ofModel (Float.Model.pack
    (mul Format.binary64 (shape n.toUInt64.toFloat) (shape (Float.ofBits 0x3FF0000000000000))))) = _
  rw [shape_toUInt64 hn hfits, hone]
  show shape (Float.ofModel (Float.Model.pack (roundWithAccuracy Format.binary64 .positive
    (mantissaOf n * 2 ^ 52) (exponentOf n + -52) .exact))) = _
  rw [hexact]
  exact shape_pack_whole hn hfits

end Whole

/-! ## Quotients -/

theorem roundedMantissa_le (em : ExtendedMantissa) : em.roundedMantissa ≤ em.mantissa + 1 := by
  rw [ExtendedMantissa.roundedMantissa]
  rcases em.accuracy with _ | ordering
  · exact Nat.le_succ _
  · cases ordering
    · exact Nat.le_succ _
    · exact Nat.add_le_add_left (Nat.le_of_lt_succ (Nat.mod_lt _ (by decide))) _
    · exact Nat.le_refl _

/-- Without its last bits a number has its leading bit in place. -/
theorem leading_bounds {m : Nat} (hlead : 2 ^ 52 ≤ m) :
    2 ^ 52 ≤ m / 2 ^ (m.log2 - 52) ∧ m / 2 ^ (m.log2 - 52) < 2 ^ 53 := by
  have hm : m ≠ 0 := by omega
  have hlog : 52 ≤ m.log2 := (Nat.le_log2 hm).mpr hlead
  constructor
  · rw [Nat.le_div_iff_mul_le (Nat.two_pow_pos _), ← Nat.pow_add, Nat.add_sub_cancel' hlog]
    exact Nat.log2_self_le hm
  · rw [Nat.div_lt_iff_lt_mul (Nat.two_pow_pos _), ← Nat.pow_add]
    calc m < 2 ^ (m.log2 + 1) := Nat.lt_log2_self
      _ = 2 ^ (53 + (m.log2 - 52)) := by
        congr 1
        omega

/-- The shift that leads to the exponent of a number with a leading bit. -/
theorem shiftToTargetExponent_eq {m : Nat} (hlead : 2 ^ 52 ≤ m) {e : Int} (he : -1074 ≤ e)
    (accuracy : Accuracy) : shiftToTargetExponent Format.binary64 m e accuracy =
      (ExtendedMantissa.ofMantissaAndAccuracy m accuracy >>> (m.log2 - 52),
        e + (m.log2 - 52 : Nat)) := by
  have hlog : 52 ≤ m.log2 := (Nat.le_log2 (by omega)).mpr hlead
  have hshift : (Format.binary64.targetExponent (totalExponent m e) - e).toNat = m.log2 - 52 := by
    rw [targetExponent_eq, totalExponent]
    omega
  rw [shiftToTargetExponent, shiftToExponent, hshift]

/-- **A quotient below one is rounded below one**, as long as it leaves room for rounding. -/
theorem roundWithAccuracy_lt_one {q : Nat} (hlead : 2 ^ 52 ≤ q) {e : Int} (he : -1074 ≤ e)
    (hsmall : e + (q.log2 - 52 : Nat) ≤ -53)
    (hroom : e + (q.log2 - 52 : Nat) = -53 → q / 2 ^ (q.log2 - 52) + 1 < 2 ^ 53)
    (accuracy : Accuracy) :
    ∃ m e' hm, roundWithAccuracy Format.binary64 .positive q e accuracy =
      .finite .positive m e' hm ∧ 2 ^ 52 ≤ m ∧ m < 2 ^ 53 ∧ -1074 ≤ e' ∧ e' ≤ -53 := by
  obtain ⟨hfirst, hfits⟩ := leading_bounds hlead
  generalize hem : ExtendedMantissa.ofMantissaAndAccuracy q accuracy >>> (q.log2 - 52) = em
  have hmantissa : em.mantissa = q / 2 ^ (q.log2 - 52) := by
    rw [← hem, mantissa_shift, mantissa_ofMantissaAndAccuracy]
  have hlow := le_roundedMantissa em
  have hhigh := roundedMantissa_le em
  generalize hrounded : em.roundedMantissa = rounded at hlow hhigh
  rw [hmantissa] at hlow hhigh
  have hleading : 2 ^ 52 ≤ rounded := Nat.le_trans hfirst hlow
  obtain ⟨hlast, hlast'⟩ := leading_bounds hleading
  have hpos : rounded / 2 ^ (rounded.log2 - 52) ≠ 0 := by omega
  have hlog : rounded.log2 ≤ 53 := Nat.le_of_lt_succ
    ((Nat.log2_lt (by omega)).mpr (by omega))
  have hroom' : rounded.log2 = 53 → e + (q.log2 - 52 : Nat) ≠ -53 := by
    intro hfull htight
    have hge : 2 ^ 53 ≤ rounded := hfull ▸ Nat.log2_self_le (by omega)
    have := hroom htight
    omega
  refine ⟨rounded / 2 ^ (rounded.log2 - 52),
    e + (q.log2 - 52 : Nat) + (rounded.log2 - 52 : Nat), Nat.pos_of_ne_zero hpos, ?_, hlast, hlast',
    by omega, by omega⟩
  simp only [roundWithAccuracy, shiftToTargetExponent_eq hlead he, hem, hrounded,
    shiftToTargetExponent_eq hleading (by omega : -1074 ≤ e + (q.log2 - 52 : Nat)),
    mantissa_shift, mantissa_ofMantissaAndAccuracy]
  exact dif_neg hpos

/-- What is divided and how: mantissas with their leading bits in place give a quotient that has
one. -/
theorem divCore_whole {a b : Nat} (ha : 0 < a) (hafits : a < 2 ^ 53) (hb : 0 < b)
    (hbfits : b < 2 ^ 53) :
    divCore Format.binary64 (mantissaOf a) (exponentOf a) (mantissaOf b) (exponentOf b) =
      (mantissaOf a * 2 ^ 53 / mantissaOf b, (a.log2 : Int) - b.log2 - 53,
        accuracyOfFraction (mantissaOf a * 2 ^ 53 % mantissaOf b) (mantissaOf b)) := by
  have hlog : ∀ {n}, 0 < n → n < 2 ^ 53 → (mantissaOf n).log2 = 52 := by
    intro n hn hfits
    rw [mantissaOf, log2_mul_two_pow hn]
    exact Nat.add_sub_cancel' (log2_le hn hfits)
  have halog := log2_le ha hafits
  have hblog := log2_le hb hbfits
  have htarget : min (exponentOf a - exponentOf b) (Format.binary64.targetExponent
      (totalExponent (mantissaOf a) (exponentOf a) - totalExponent (mantissaOf b) (exponentOf b))) =
      (a.log2 : Int) - b.log2 - 53 := by
    rw [targetExponent_eq, totalExponent, totalExponent, hlog ha hafits, hlog hb hbfits, exponentOf,
      exponentOf]
    omega
  have hshift : (exponentOf a - exponentOf b - ((a.log2 : Int) - b.log2 - 53)).toNat = 53 := by
    rw [exponentOf, exponentOf]
    omega
  simp only [divCore, htarget, hshift, Nat.shiftLeft_eq]

/-- The quotient of two mantissas has a leading bit. -/
theorem quotient_leads {a b : Nat} (ha : 0 < a) (hafits : a < 2 ^ 53) (hb : 0 < b)
    (hbfits : b < 2 ^ 53) : 2 ^ 52 ≤ mantissaOf a * 2 ^ 53 / mantissaOf b := by
  rw [Nat.le_div_iff_mul_le (mantissaOf_pos hb)]
  exact Nat.mul_le_mul (mantissaOf_bounds ha hafits).1
    (Nat.le_of_lt (mantissaOf_bounds hb hbfits).2)

section Below

variable {a b : Nat} (ha : 0 < a) (hlt : a < b) (hfits : b < 2 ^ 53)

include ha hlt hfits

/-- One bit too many at most, and none if the two numbers have one exponent. -/
theorem quotient_log2_le : (mantissaOf a * 2 ^ 53 / mantissaOf b).log2 + a.log2 ≤ 52 + b.log2 := by
  have hb : 0 < b := Nat.lt_trans ha hlt
  have hafits : a < 2 ^ 53 := Nat.lt_trans hlt hfits
  have hlead := quotient_leads ha hafits hb hfits
  have hbpos := mantissaOf_pos hb
  have hlogs : a.log2 ≤ b.log2 := (Nat.le_log2 (Nat.ne_of_gt hb)).mpr
    (Nat.le_trans (Nat.log2_self_le (Nat.ne_of_gt ha)) (Nat.le_of_lt hlt))
  rcases Nat.lt_or_eq_of_le hlogs with hless | hsame
  · have hhigh : mantissaOf a * 2 ^ 53 / mantissaOf b < 2 ^ 54 := by
      have hahigh := (mantissaOf_bounds ha hafits).2
      have hblow := (mantissaOf_bounds hb hfits).1
      rw [Nat.div_lt_iff_lt_mul hbpos]
      omega
    have hlog := (Nat.log2_lt (by omega)).mpr hhigh
    omega
  · -- mantissas of one exponent stand in the order of the numbers
    have hmantissas : mantissaOf a < mantissaOf b := by
      rw [mantissaOf, mantissaOf, hsame]
      exact Nat.mul_lt_mul_of_pos_right hlt (Nat.two_pow_pos _)
    have hhigh : mantissaOf a * 2 ^ 53 / mantissaOf b < 2 ^ 53 := by
      rw [Nat.div_lt_iff_lt_mul hbpos, Nat.mul_comm]
      exact Nat.mul_lt_mul_of_pos_left hmantissas (Nat.two_pow_pos _)
    have hlog := (Nat.log2_lt (by omega)).mpr hhigh
    omega

/-- A quotient that is next to one leaves room for rounding. -/
theorem quotient_room {extra : Nat} (htight : extra + a.log2 = b.log2) :
    mantissaOf a * 2 ^ 53 / mantissaOf b / 2 ^ extra + 1 < 2 ^ 53 := by
  have hblog := log2_le (Nat.lt_trans ha hlt) hfits
  have hbits : 52 - a.log2 = extra + (52 - b.log2) := by omega
  generalize hrest : mantissaOf a * 2 ^ 53 / mantissaOf b / 2 ^ extra = rest
  -- the quotient without its last bits is no more than the exact one
  have hscaled : rest * b * 2 ^ (52 - a.log2) ≤ a * 2 ^ 53 * 2 ^ (52 - a.log2) :=
    calc rest * b * 2 ^ (52 - a.log2) = rest * 2 ^ extra * mantissaOf b := by
          rw [hbits, Nat.pow_add, mantissaOf]
          ring
      _ ≤ mantissaOf a * 2 ^ 53 / mantissaOf b * mantissaOf b :=
          Nat.mul_le_mul_right _ (hrest ▸ Nat.div_mul_le_self _ _)
      _ ≤ mantissaOf a * 2 ^ 53 := Nat.div_mul_le_self _ _
      _ = a * 2 ^ 53 * 2 ^ (52 - a.log2) := by
          rw [mantissaOf]
          ring
  have hexact : rest * b ≤ a * 2 ^ 53 := Nat.le_of_mul_le_mul_right hscaled (Nat.two_pow_pos _)
  by_contra hfull
  have hmany : (2 ^ 53 - 1) * b ≤ rest * b := Nat.mul_le_mul_right _ (by omega)
  omega

/-- A smaller number by a larger one is a quotient that is rounded below one. -/
theorem quotient_bounds :
    let q := mantissaOf a * 2 ^ 53 / mantissaOf b
    let e : Int := (a.log2 : Int) - b.log2 - 53
    2 ^ 52 ≤ q ∧ -1074 ≤ e ∧ e + (q.log2 - 52 : Nat) ≤ -53 ∧
      (e + (q.log2 - 52 : Nat) = -53 → q / 2 ^ (q.log2 - 52) + 1 < 2 ^ 53) := by
  intro q e
  have hb : 0 < b := Nat.lt_trans ha hlt
  have hblog := log2_le hb hfits
  have hlead : 2 ^ 52 ≤ q := quotient_leads ha (Nat.lt_trans hlt hfits) hb hfits
  have hqlow : 52 ≤ q.log2 := (Nat.le_log2 (by omega)).mpr hlead
  have hqhigh : q.log2 + a.log2 ≤ 52 + b.log2 := quotient_log2_le ha hlt hfits
  exact ⟨hlead, by omega, by omega, fun htight => quotient_room ha hlt hfits (by omega)⟩

theorem shape_div_below : ∃ m e hm, shape (a.toFloat / b.toFloat) = .finite .positive m e hm ∧
    e ≤ -53 := by
  have hb : 0 < b := Nat.lt_trans ha hlt
  obtain ⟨hlead, hleast, hsmall, hroom⟩ := quotient_bounds ha hlt hfits
  obtain ⟨m, e, hm, hround, hfirst, hlast, hleast', hbelow⟩ :=
    roundWithAccuracy_lt_one hlead hleast hsmall hroom
      (accuracyOfFraction (mantissaOf a * 2 ^ 53 % mantissaOf b) (mantissaOf b))
  refine ⟨m, e, hm, ?_, hbelow⟩
  show shape (Float.ofModel (Float.Model.pack
    (div Format.binary64 (shape a.toFloat) (shape b.toFloat)))) = _
  rw [shape_toFloat ha (Nat.lt_trans hlt hfits), shape_toFloat hb hfits]
  simp only [div, divCore_whole ha (Nat.lt_trans hlt hfits) hb hfits]
  show shape (Float.ofModel (Float.Model.pack (roundWithAccuracy Format.binary64 .positive
    _ _ _))) = _
  rw [hround]
  exact shape_pack hfirst hlast hleast' (by omega)

end Below

section Shares

variable {a b : Nat} (hfits : b < 2 ^ 53)

include hfits

theorem shape_div_self (hb : 0 < b) : shape (b.toFloat / b.toFloat) = shape 1 := by
  have hquotient : mantissaOf b * 2 ^ 53 / mantissaOf b = 2 ^ 52 * 2 ^ 1 :=
    Nat.mul_div_cancel_left _ (mantissaOf_pos hb)
  have hrest : mantissaOf b * 2 ^ 53 % mantissaOf b = 0 := Nat.mul_mod_right _ _
  have hexponent : (b.log2 : Int) - b.log2 - 53 = -52 - (1 : Nat) := by omega
  have hround := roundWithAccuracy_exact .positive (m := 2 ^ 52) (by decide) (e := -52) (by decide)
    (by decide) (.inr (Nat.le_refl _)) 1
  show shape (Float.ofModel (Float.Model.pack
    (div Format.binary64 (shape b.toFloat) (shape b.toFloat)))) = _
  rw [shape_toFloat hb hfits]
  simp only [div, divCore_whole hb hfits hb hfits, hquotient, hrest, hexponent]
  show shape (Float.ofModel (Float.Model.pack (roundWithAccuracy Format.binary64 .positive
    (2 ^ 52 * 2 ^ 1) (-52 - (1 : Nat)) .exact))) = _
  rw [hround, shape_one]
  exact shape_pack (Nat.le_refl _) (by decide) (by decide) (by decide)

theorem shape_zero_div (hb : 0 < b) : shape ((0 : Nat).toFloat / b.toFloat) = .zero .positive := by
  have hzero : shape (0 : Nat).toFloat = .zero .positive := rfl
  show shape (Float.ofModel (Float.Model.pack
    (div Format.binary64 (shape (0 : Nat).toFloat) (shape b.toFloat)))) = _
  rw [hzero, shape_toFloat hb hfits]
  simp only [div]
  rfl

/-- **A proper share is less than one**, also when it is rounded. -/
theorem share_lt_one (hlt : a < b) : a.toFloat / b.toFloat < 1 := by
  rw [lt_iff, shape_one]
  rcases Nat.eq_zero_or_pos a with rfl | ha
  · rw [shape_zero_div hfits hlt]
    rfl
  · obtain ⟨m, e, hm, hshape, hbelow⟩ := shape_div_below ha hlt hfits
    rw [hshape, UnpackedFloat.compare, Int.compare_eq_lt.mpr (by omega : e < -52)]
    rfl

/-- **A share is between zero and one.** -/
theorem share_bounds (hb : 0 < b) (hle : a ≤ b) :
    0 ≤ a.toFloat / b.toFloat ∧ a.toFloat / b.toFloat ≤ 1 := by
  have hzero : shape 0 = .zero .positive := rfl
  rcases Nat.lt_or_eq_of_le hle with hlt | rfl
  · refine ⟨?_, le_of_lt (share_lt_one hfits hlt)⟩
    rw [le_iff, hzero]
    rcases Nat.eq_zero_or_pos a with rfl | ha
    · rw [shape_zero_div hfits hb]
      rfl
    · obtain ⟨m, e, hm, hshape, -⟩ := shape_div_below ha hlt hfits
      rw [hshape]
      rfl
  · rw [le_iff, le_iff, shape_div_self hfits hb, hzero, shape_one]
    exact ⟨rfl, by decide⟩

end Shares

end Readability.Number
