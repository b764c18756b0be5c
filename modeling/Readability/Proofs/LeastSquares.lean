import Mathlib
import Readability.Report.Trend

/-!
# The slope of least squares

The trend over exact numbers (`exactTrend`) is the slope of the line that misses the scores least,
by the sum of the squares. With the means taken out, the sum is a number that does not depend on the
line, plus two squares (`misfit_eq_of_spread`). Both vanish for one line only.

Main statement: `exactTrend_leastSquares`. The slope does not depend on the order of the samples,
nor on a shift of all of them in time. Leap seconds are an exception
(`exactTrend_leapSecond`): the difference of two instants counts one only if one of the two
lies in it, and a shift leaves it.
-/

namespace Readability.Number

/-- Over the rational numbers, whose zero has no sign, the total is the sum. -/
theorem total_eq_sum (xs : List ℚ) : total xs = xs.sum := by
  rw [total, neg_zero, List.sum_eq_foldl]

end Readability.Number

namespace Readability.Time.Instant

/-- Nanoseconds since the start of 1970, for an instant outside of the leap seconds. -/
def sinceEpoch (t : Instant) : Int :=
  (t.day * daySeconds + t.second) * nanosPerSecond + t.fraction

/-- The instant some nanoseconds after the start of 1970. -/
def ofNanos (n : Int) : Instant :=
  ofUnix (n / nanosPerSecond) (n % nanosPerSecond).toNat

/-- The instant some nanoseconds later, or earlier if their number is negative. The leap second of
the instant itself takes time, no other does. -/
def later (t : Instant) (d : Int) : Instant :=
  if t.fraction < nanosPerSecond ∨ t.fraction + d < nanosPerSecond then ofNanos (t.sinceEpoch + d)
  else if t.fraction + d < 2 * nanosPerSecond then { t with fraction := (t.fraction + d).toNat }
  else ofNanos (t.sinceEpoch + d - nanosPerSecond)

theorem sinceEpoch_ofNanos (n : Int) : (ofNanos n).sinceEpoch = n := by
  simp only [sinceEpoch, ofNanos, ofUnix, daySeconds, nanosPerSecond]
  omega

theorem fraction_ofNanos (n : Int) : (ofNanos n).fraction < nanosPerSecond := by
  simp only [ofNanos, ofUnix, nanosPerSecond]
  omega

/-- An instant without a part of a second. A leap second is the last of its day. -/
def IsWhole (t : Instant) : Prop :=
  t.second < daySeconds ∧ t.fraction % nanosPerSecond = 0 ∧
    (nanosPerSecond ≤ t.fraction → t.second + 1 = daySeconds)

instance (t : Instant) : Decidable t.IsWhole :=
  inferInstanceAs (Decidable (_ ∧ _ ∧ (_ → _)))

variable {a s t : Instant}

/-- The difference of two instants, where none is a leap second at an earlier time of day than the
other. -/
theorem nanosSince_eq (hs : nanosPerSecond ≤ s.fraction → t.second ≤ s.second)
    (ht : nanosPerSecond ≤ t.fraction → s.second ≤ t.second) :
    t.nanosSince s = t.sinceEpoch - s.sinceEpoch := by
  have hleap : t.leapBetween s = 0 := by
    rw [leapBetween]
    split_ifs <;> omega
  rw [nanosSince, hleap, sinceEpoch, sinceEpoch]
  ring

/-- Instants that are moved together keep their difference. -/
theorem secondsSince_later (hs : s.fraction < nanosPerSecond) (ht : t.fraction < nanosPerSecond)
    (d : Int) : (t.later d).secondsSince (s.later d) = t.secondsSince s := by
  have hmoved (n : Int) (h : nanosPerSecond ≤ (ofNanos n).fraction) : False :=
    absurd (fraction_ofNanos n) (not_lt.mpr h)
  rw [secondsSince, secondsSince, later, later, if_pos (.inl ht), if_pos (.inl hs),
    nanosSince_eq (fun h => (hmoved _ h).elim) (fun h => (hmoved _ h).elim), sinceEpoch_ofNanos,
    sinceEpoch_ofNanos, nanosSince_eq (fun h => absurd hs (not_lt.mpr h))
      (fun h => absurd ht (not_lt.mpr h)), add_sub_add_right_eq_sub]

theorem IsWhole.secondsSince_mul (hs : s.IsWhole) (ht : t.IsWhole) :
    t.secondsSince s * nanosPerSecond = t.sinceEpoch - s.sinceEpoch := by
  obtain ⟨hsday, hswhole, hslast⟩ := hs
  obtain ⟨htday, htwhole, htlast⟩ := ht
  have hnanos : t.nanosSince s = t.sinceEpoch - s.sinceEpoch :=
    nanosSince_eq (fun h => by have := hslast h; omega) (fun h => by have := htlast h; omega)
  have hdvd : (nanosPerSecond : Int) ∣ t.nanosSince s := by
    rw [hnanos, sinceEpoch, sinceEpoch]
    simp only [nanosPerSecond] at hswhole htwhole ⊢
    omega
  rw [secondsSince, Int.tdiv_mul_cancel hdvd, hnanos]

/-- Whole seconds from one instant to another may be counted by way of a third. -/
theorem IsWhole.secondsSince_add (ha : a.IsWhole) (hs : s.IsWhole) (ht : t.IsWhole) :
    t.secondsSince s = t.secondsSince a + a.secondsSince s := by
  have hdirect := hs.secondsSince_mul ht
  have hrest := ha.secondsSince_mul ht
  have hstart := hs.secondsSince_mul ha
  simp only [nanosPerSecond] at hdirect hrest hstart
  omega

end Readability.Time.Instant

namespace Readability.Report

open Readability.Time (Instant nanosPerSecond)

/-- The mean of the places. -/
def meanX (points : List (ℚ × ℚ)) : ℚ :=
  (points.map (·.1)).sum / points.length

/-- The mean of the heights. -/
def meanY (points : List (ℚ × ℚ)) : ℚ :=
  (points.map (·.2)).sum / points.length

/-- How far the places lie apart. -/
def spread (points : List (ℚ × ℚ)) : ℚ :=
  (points.map fun p => (p.1 - meanX points) ^ 2).sum

/-- How the heights go with the places. -/
def covariation (points : List (ℚ × ℚ)) : ℚ :=
  (points.map fun p => (p.1 - meanX points) * (p.2 - meanY points)).sum

/-- The sum of the squares by which a line misses some points. -/
def misfit (points : List (ℚ × ℚ)) (height slope : ℚ) : ℚ :=
  (points.map fun p => (p.2 - height - slope * p.1) ^ 2).sum

/-- A line of that slope misses the points by no more than any other line. -/
def FitsBest (points : List (ℚ × ℚ)) (slope : ℚ) : Prop :=
  ∃ height, ∀ height' slope', misfit points height slope ≤ misfit points height' slope'

section Points

variable {points : List (ℚ × ℚ)}

theorem slope_eq (points : List (ℚ × ℚ)) :
    slope Int.cast points =
      if spread points = 0 then none else some (covariation points / spread points) := by
  simp only [slope, Number.total_eq_sum, Int.cast_natCast, beq_iff_eq, spread, covariation, meanX,
    meanY, pow_two]

/-! ### Sums of squares -/

theorem sum_sq_nonneg (f : ℚ × ℚ → ℚ) (points : List (ℚ × ℚ)) :
    0 ≤ (points.map fun p => f p ^ 2).sum :=
  List.sum_nonneg fun x hx => by
    obtain ⟨p, -, rfl⟩ := List.mem_map.mp hx
    exact sq_nonneg (f p)

theorem sum_sq_eq_zero_iff (f : ℚ × ℚ → ℚ) (points : List (ℚ × ℚ)) :
    (points.map fun p => f p ^ 2).sum = 0 ↔ ∀ p ∈ points, f p = 0 := by
  induction points with
  | nil => simp
  | cons p points ih =>
    rw [List.map_cons, List.sum_cons, List.forall_mem_cons, ← ih,
      add_eq_zero_iff_of_nonneg (sq_nonneg _) (sum_sq_nonneg f points), sq_eq_zero_iff]

/-- The sum for a line, with the points seen from any place and height. -/
theorem misfit_eq (height slope x y : ℚ) (points : List (ℚ × ℚ)) :
    misfit points height slope =
      (points.map fun p => (p.2 - y) ^ 2).sum
        - 2 * slope * (points.map fun p => (p.1 - x) * (p.2 - y)).sum
        + slope ^ 2 * (points.map fun p => (p.1 - x) ^ 2).sum
        + 2 * (y - height - slope * x) * ((points.map fun p => p.2 - y).sum
          - slope * (points.map fun p => p.1 - x).sum)
        + points.length * (y - height - slope * x) ^ 2 := by
  induction points with
  | nil => simp [misfit]
  | cons p points ih =>
    rw [misfit] at ih
    simp only [misfit, List.map_cons, List.sum_cons, List.length_cons, ih, Nat.cast_add,
      Nat.cast_one]
    ring

/-- What some numbers differ from their mean by is nothing in sum. -/
theorem sum_sub_mean (f : ℚ × ℚ → ℚ) (h : points ≠ []) :
    (points.map fun p => f p - (points.map f).sum / points.length).sum = 0 := by
  have hlength : (points.length : ℚ) ≠ 0 :=
    Nat.cast_ne_zero.mpr (List.length_eq_zero_iff.not.mpr h)
  simp only [sub_eq_add_neg]
  rw [List.sum_map_add, List.map_const', List.sum_replicate, nsmul_eq_mul, mul_neg,
    mul_div_cancel₀ _ hlength, add_neg_cancel]

theorem ne_nil_of_spread (h : spread points ≠ 0) : points ≠ [] := by
  rintro rfl
  exact h rfl

/-- The sum for a line is least at the mean and with the quotient as its slope. -/
theorem misfit_eq_of_spread (h : spread points ≠ 0) (height slope : ℚ) :
    misfit points height slope =
      (points.map fun p => (p.2 - meanY points) ^ 2).sum - covariation points ^ 2 / spread points
        + points.length * (meanY points - height - slope * meanX points) ^ 2
        + spread points * (slope - covariation points / spread points) ^ 2 := by
  have hx : (points.map fun p => p.1 - meanX points).sum = 0 := sum_sub_mean _ (ne_nil_of_spread h)
  have hy : (points.map fun p => p.2 - meanY points).sum = 0 := sum_sub_mean _ (ne_nil_of_spread h)
  rw [misfit_eq height slope (meanX points) (meanY points), hx, hy]
  change _ - 2 * slope * covariation points + slope ^ 2 * spread points + _ + _ = _
  field_simp
  ring

/-- **The quotient is the slope of the line that fits best**, and no other is. -/
theorem fitsBest_iff (h : spread points ≠ 0) (b : ℚ) :
    FitsBest points b ↔ b = covariation points / spread points := by
  have hspread : 0 < spread points := lt_of_le_of_ne (sum_sq_nonneg _ points) (Ne.symm h)
  constructor
  · rintro ⟨height, hleast⟩
    have hbest := hleast (meanY points - covariation points / spread points * meanX points)
      (covariation points / spread points)
    rw [misfit_eq_of_spread h, misfit_eq_of_spread h] at hbest
    have hheight :
        0 ≤ (points.length : ℚ) * (meanY points - height - b * meanX points) ^ 2 := by positivity
    have hsquare : (b - covariation points / spread points) ^ 2 = 0 := by
      refine le_antisymm ?_ (sq_nonneg _)
      refine le_of_mul_le_mul_left ?_ hspread
      linarith
    exact sub_eq_zero.mp (sq_eq_zero_iff.mp hsquare)
  · rintro rfl
    refine ⟨meanY points - covariation points / spread points * meanX points,
      fun height' slope' => ?_⟩
    rw [misfit_eq_of_spread h, misfit_eq_of_spread h]
    have hheight :
        0 ≤ (points.length : ℚ) * (meanY points - height' - slope' * meanX points) ^ 2 := by
      positivity
    have hslope : 0 ≤ spread points * (slope' - covariation points / spread points) ^ 2 := by
      positivity
    linarith

/-- The spread is nothing if the places are all one. -/
theorem spread_eq_zero_iff {p : ℚ × ℚ} (hp : p ∈ points) :
    spread points = 0 ↔ ∀ q ∈ points, q.1 = p.1 := by
  rw [spread, sum_sq_eq_zero_iff]
  constructor
  · intro h q hq
    exact (sub_eq_zero.mp (h q hq)).trans (sub_eq_zero.mp (h p hp)).symm
  · intro h q hq
    have hlength : (points.length : ℚ) ≠ 0 :=
      Nat.cast_ne_zero.mpr (List.length_eq_zero_iff.not.mpr (List.ne_nil_of_mem hp))
    have hplaces : points.map (·.1) = List.replicate points.length p.1 :=
      List.eq_replicate_iff.mpr ⟨List.length_map .., by simpa using fun x y hxy => h (x, y) hxy⟩
    rw [meanX, hplaces, List.sum_replicate, nsmul_eq_mul, mul_div_cancel_left₀ _ hlength, h q hq,
      sub_self]

/-! ### What the slope does not depend on -/

theorem slope_perm {points' : List (ℚ × ℚ)} (h : points.Perm points') :
    slope Int.cast points = slope Int.cast points' := by
  have hx : meanX points = meanX points' := by
    rw [meanX, meanX, (h.map _).sum_eq, h.length_eq]
  have hy : meanY points = meanY points' := by
    rw [meanY, meanY, (h.map _).sum_eq, h.length_eq]
  have hspread : spread points = spread points' := by
    rw [spread, spread, hx, (h.map _).sum_eq]
  have hcovariation : covariation points = covariation points' := by
    rw [covariation, covariation, hx, hy, (h.map _).sum_eq]
  rw [slope_eq, slope_eq, hspread, hcovariation]

theorem slope_shift (h : points ≠ []) (c : ℚ) :
    slope Int.cast (points.map fun p => (p.1 + c, p.2)) = slope Int.cast points := by
  have hlength : (points.length : ℚ) ≠ 0 :=
    Nat.cast_ne_zero.mpr (List.length_eq_zero_iff.not.mpr h)
  have hx : meanX (points.map fun p => (p.1 + c, p.2)) = meanX points + c := by
    rw [meanX, meanX, List.map_map, List.length_map]
    change (points.map fun p => p.1 + c).sum / _ = _
    rw [List.sum_map_add, List.map_const', List.sum_replicate, nsmul_eq_mul, add_div,
      mul_div_cancel_left₀ _ hlength]
  have hy : meanY (points.map fun p => (p.1 + c, p.2)) = meanY points := by
    rw [meanY, meanY, List.map_map, List.length_map]
    rfl
  have hspread : spread (points.map fun p => (p.1 + c, p.2)) = spread points := by
    simp only [spread, hx, List.map_map, Function.comp_def, add_sub_add_right_eq_sub]
  have hcovariation : covariation (points.map fun p => (p.1 + c, p.2)) = covariation points := by
    simp only [covariation, hx, hy, List.map_map, Function.comp_def, add_sub_add_right_eq_sub]
  rw [slope_eq, slope_eq, hspread, hcovariation]

theorem slope_neg (points : List (ℚ × ℚ)) :
    slope Int.cast (points.map fun p => (p.1, -p.2)) = (slope Int.cast points).map (-·) := by
  have hx : meanX (points.map fun p => (p.1, -p.2)) = meanX points := by
    rw [meanX, meanX, List.map_map, List.length_map]
    rfl
  have hy : meanY (points.map fun p => (p.1, -p.2)) = -meanY points := by
    rw [meanY, meanY, List.map_map, List.length_map, ← neg_div, List.sum_neg, List.map_map]
    rfl
  have hspread : spread (points.map fun p => (p.1, -p.2)) = spread points := by
    rw [spread, spread, hx, List.map_map]
    rfl
  have hcovariation : covariation (points.map fun p => (p.1, -p.2)) = -covariation points := by
    rw [covariation, covariation, hx, hy, List.map_map, List.sum_neg, List.map_map]
    refine congrArg List.sum (List.map_congr_left fun p _ => ?_)
    change (p.1 - meanX points) * (-p.2 - -meanY points) =
      -((p.1 - meanX points) * (p.2 - meanY points))
    ring
  rw [slope_eq, slope_eq, hspread, hcovariation, apply_ite (Option.map _), Option.map_none,
    Option.map_some, neg_div]

end Points

/-- Days from one instant to another, by whole seconds. -/
def daysSince (start t : Instant) : ℚ :=
  t.secondsSince start / secondsPerDay

/-- Samples as points over the days since an instant. -/
def pointsSince (start : Instant) (samples : List (Instant × ℚ)) : List (ℚ × ℚ) :=
  samples.map fun s => (daysSince start s.1, s.2)

/-- Change per day of some samples, over exact numbers. -/
def exactTrend (samples : List (Instant × ℚ)) : Option ℚ :=
  slopePerDay Int.cast samples

section Samples

variable {samples : List (Instant × ℚ)} {first : Instant × ℚ}

theorem exactTrend_eq (h : first ∈ samples.head?) :
    exactTrend samples = slope Int.cast (pointsSince first.1 samples) := by
  obtain ⟨rest, rfl⟩ := List.head?_eq_some_iff.mp h
  simp [exactTrend, slopePerDay, sampleDays, pointsSince, daysSince]

theorem daysSince_eq_zero_iff (start t : Instant) :
    daysSince start t = 0 ↔ t.secondsSince start = 0 := by
  have hday : (secondsPerDay : ℚ) ≠ 0 := by decide
  rw [daysSince, div_eq_zero_iff, or_iff_left hday, Int.cast_eq_zero]

theorem daysSince_self (t : Instant) : daysSince t t = 0 := by
  rw [daysSince_eq_zero_iff]
  simp [Instant.secondsSince, Instant.nanosSince, Instant.leapBetween]

/-- The trend is absent if all samples belong to the second of the first. -/
theorem exactTrend_eq_none_iff (h : first ∈ samples.head?) :
    exactTrend samples = none ↔ ∀ s ∈ samples, s.1.secondsSince first.1 = 0 := by
  have hfirst : (daysSince first.1 first.1, first.2) ∈ pointsSince first.1 samples :=
    List.mem_map_of_mem (List.mem_of_mem_head? h)
  rw [exactTrend_eq h, slope_eq, ite_eq_left_iff, daysSince_self] at *
  simp only [reduceCtorEq, imp_false, not_not, spread_eq_zero_iff hfirst]
  simp only [pointsSince, List.forall_mem_map, daysSince_eq_zero_iff]

theorem exactTrend_perm {samples' : List (Instant × ℚ)} (h : samples.Perm samples')
    (hwhole : ∀ s ∈ samples, s.1.IsWhole) : exactTrend samples' = exactTrend samples := by
  rcases hhead : samples.head? with _ | first
  · rw [List.head?_eq_none_iff.mp hhead, List.nil_perm] at h
    rw [h, List.head?_eq_none_iff.mp hhead]
  rcases hhead' : samples'.head? with _ | first'
  · rw [List.head?_eq_none_iff.mp hhead', List.perm_nil] at h
    rw [h] at hhead
    cases hhead
  have hfirst := hwhole first (List.mem_of_mem_head? hhead)
  have hfirst' := hwhole first' (h.mem_iff.mpr (List.mem_of_mem_head? hhead'))
  have hmoved : pointsSince first'.1 samples =
      (pointsSince first.1 samples).map fun p => (p.1 + daysSince first'.1 first.1, p.2) := by
    rw [pointsSince, pointsSince, List.map_map]
    refine List.map_congr_left fun s hs => ?_
    rw [Function.comp_apply, daysSince, hfirst.secondsSince_add hfirst' (hwhole s hs), Int.cast_add,
      add_div]
    rfl
  have hne : pointsSince first.1 samples ≠ [] :=
    List.ne_nil_of_mem (List.mem_map_of_mem (List.mem_of_mem_head? hhead))
  calc exactTrend samples'
      = slope Int.cast (pointsSince first'.1 samples') := exactTrend_eq hhead'
    _ = slope Int.cast (pointsSince first'.1 samples) := slope_perm (h.symm.map _)
    _ = slope Int.cast (pointsSince first.1 samples) := by rw [hmoved, slope_shift hne]
    _ = exactTrend samples := (exactTrend_eq hhead).symm

theorem exactTrend_later (hclear : ∀ s ∈ samples, s.1.fraction < nanosPerSecond) (d : Int) :
    exactTrend (samples.map fun s => (s.1.later d, s.2)) = exactTrend samples := by
  rcases hhead : samples.head? with _ | first
  · rw [List.head?_eq_none_iff.mp hhead, List.map_nil]
  have hhead' : (first.1.later d, first.2) ∈
      (samples.map fun s => (s.1.later d, s.2)).head? := by
    rw [List.head?_map, hhead]
    rfl
  rw [exactTrend_eq hhead, exactTrend_eq hhead', pointsSince, pointsSince, List.map_map]
  refine congrArg _ (List.map_congr_left fun s hs => ?_)
  rw [Function.comp_apply, daysSince, daysSince,
    Instant.secondsSince_later (hclear first (List.mem_of_mem_head? hhead)) (hclear s hs)]

theorem exactTrend_neg (samples : List (Instant × ℚ)) :
    exactTrend (samples.map fun s => (s.1, -s.2)) = (exactTrend samples).map (-·) := by
  rcases hhead : samples.head? with _ | first
  · rw [List.head?_eq_none_iff.mp hhead]
    rfl
  have hhead' : (first.1, -first.2) ∈ (samples.map fun s => (s.1, -s.2)).head? := by
    rw [List.head?_map, hhead]
    rfl
  rw [exactTrend_eq hhead, exactTrend_eq hhead', ← slope_neg, pointsSince, pointsSince,
    List.map_map, List.map_map]
  rfl

end Samples

/-- **The trend is the slope of least squares.** It is absent if there are no samples, or if all of
them belong to the second of the first. Otherwise it is the one slope with a line that fits best.
It does not depend on the order of samples of whole seconds, nor on a shift in time of samples
outside of leap seconds. It is negated with the scores. -/
theorem exactTrend_leastSquares (samples : List (Instant × ℚ)) :
    (exactTrend samples = none ↔
      samples = [] ∨ ∃ first ∈ samples.head?, ∀ s ∈ samples, s.1.secondsSince first.1 = 0) ∧
    (∀ first ∈ samples.head?, ∀ b ∈ exactTrend samples,
      ∀ b', FitsBest (pointsSince first.1 samples) b' ↔ b' = b) ∧
    (∀ samples', samples.Perm samples' → (∀ s ∈ samples, s.1.IsWhole) →
      exactTrend samples' = exactTrend samples) ∧
    (∀ d, (∀ s ∈ samples, s.1.fraction < nanosPerSecond) →
      exactTrend (samples.map fun s => (s.1.later d, s.2)) = exactTrend samples) ∧
    exactTrend (samples.map fun s => (s.1, -s.2)) = (exactTrend samples).map (-·) := by
  refine ⟨?_, fun first hfirst b hb b' => ?_, fun _ h hwhole => exactTrend_perm h hwhole,
    fun d hclear => exactTrend_later hclear d, exactTrend_neg samples⟩
  · cases samples with
    | nil => exact iff_of_true rfl (.inl rfl)
    | cons first rest =>
      rw [exactTrend_eq_none_iff (List.head?_cons : (first :: rest).head? = some first)]
      simp
  · rw [exactTrend_eq hfirst, slope_eq, Option.mem_def, Option.ite_none_left_eq_some] at hb
    rw [fitsBest_iff hb.1, Option.some.inj hb.2]

/-- Scores that rise by a tenth each day. -/
def risingSamples : List (Instant × ℚ) :=
  [(⟨0, 0, 0⟩, 1 / 10), (⟨1, 0, 0⟩, 2 / 10), (⟨2, 0, 0⟩, 3 / 10)]

/-- The slope is a tenth and no other, also in the reverse order and a minute later. -/
theorem exactTrend_leastSquares_rising :
    exactTrend risingSamples = some (1 / 10) ∧
      (∀ b', FitsBest (pointsSince ⟨0, 0, 0⟩ risingSamples) b' ↔ b' = 1 / 10) ∧
      exactTrend risingSamples.reverse = some (1 / 10) ∧
      exactTrend (risingSamples.map fun s => (s.1.later (60 * nanosPerSecond), s.2)) =
        some (1 / 10) := by
  obtain ⟨-, hbest, hperm, hlater, -⟩ := exactTrend_leastSquares risingSamples
  have hslope : exactTrend risingSamples = some (1 / 10) := by decide +kernel
  refine ⟨hslope, hbest (⟨0, 0, 0⟩, 1 / 10) rfl _ hslope, ?_, ?_⟩
  · rw [hperm _ (List.reverse_perm risingSamples).symm (by decide), hslope]
  · rw [hlater _ (by decide), hslope]

/-- **A leap second changes the slope** with the order of the samples, and with a shift of all of
them. The shift is by a second, of the last one of 2016 and its leap second. The samples in two
orders are at 12:34:59, 12:34:60 and 12:35:00, without a part of a second. -/
theorem exactTrend_leapSecond :
    let last : Instant := ⟨17166, 86399, 0⟩
    let leap : Instant := ⟨17166, 86399, nanosPerSecond⟩
    let shifted : List (Instant × ℚ) := [(last, 0), (leap, 1)]
    let before : Instant := ⟨0, 45299, 0⟩
    let between : Instant := ⟨0, 45299, nanosPerSecond⟩
    let after : Instant := ⟨0, 45300, 0⟩
    let samples : List (Instant × ℚ) := [(before, 0), (between, 1), (after, 0)]
    let samples' : List (Instant × ℚ) := [(between, 1), (before, 0), (after, 0)]
    (exactTrend shifted = some 86400 ∧
      exactTrend (shifted.map fun s => (s.1.later nanosPerSecond, s.2)) = none) ∧
    samples.Perm samples' ∧ (∀ s ∈ samples, s.1.fraction % nanosPerSecond = 0) ∧
      exactTrend samples = some 43200 ∧ exactTrend samples' = some 0 := by
  intro last leap shifted before between after samples samples'
  refine ⟨⟨?_, ?_⟩, .swap .., ?_, ?_, ?_⟩ <;> decide +kernel

end Readability.Report
