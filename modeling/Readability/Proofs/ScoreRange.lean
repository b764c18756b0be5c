import Readability.Proofs.Acceptance
import Readability.Proofs.Doubles

/-!
# Scores within the range of a model

The ends of an accepted model's range are finite and in order (`range_of_check`),
so the score of a sum is a number within the range as soon as the link gives a
number (`scoreOfSum_bounds`), and clamping never meets bounds that are out of
order (`score?_eq`).

A linear link gives a number always. A curved one adds a share of the range's
width to its low end. Two finite ends can lie so far apart that their distance is
infinite; then a share of zero of it is no number, and such a score is no number
either (`Lost`).

Main statement: `score_bounds_iff`. `score_lost_wide` is a model whose scores are
lost where its curve comes down to zero.
-/

namespace Readability.Model

open Readability.Number (clamp_bounds clamp_of_isNaN isFinite_shape isInf_add isNaN_add isNaN_mul
  isNaN_of_le isNaN_of_lt isNaN_one_div isNaN_sub isZero_one_div isZero_shape isZero_sub le_of_lt
  shape shape_one)
open Readability.Source (UnitError)

/-- Clamping that comes to a stop when its bounds are out of order. -/
def clamp? (low high x : Float) : Option Float :=
  if low ≤ high then some (Number.clamp low high x) else none

theorem clamp?_of_lt {low high : Float} (h : low < high) (x : Float) :
    clamp? low high x = some (Number.clamp low high x) :=
  if_pos (le_of_lt h)

/-- The logistic curve gives numbers where the exponential does. -/
theorem isNaN_sigmoid (z : Float) : (sigmoid z).isNaN = (Float.exp (-z)).isNaN := by
  rw [sigmoid, isNaN_one_div, isNaN_add (by rw [shape_one]; rfl)]

/-- The score that a weighted sum stands for, unless clamping comes to a stop. -/
def scoreOfSum? (m : Model) (z : Float) : Option Float := do
  let low := m.range.min
  let high := m.range.max
  let score ← match m.link with
    | .logistic => some (low + (high - low) * sigmoid z)
    | .invertedLogistic => some (low + (high - low) * (1 - sigmoid z))
    | .linear => clamp? low high z
  clamp? low high score

/-- The score of a vector, unless clamping comes to a stop. -/
def score? (m : Model) (v : Feature.Vector) : Option (Except UnitError Float) :=
  match m.checkVector v with
  | .error e => some (.error e)
  | .ok () =>
    let z := m.weightedSum v.values
    if z.isNaN then some (.error (.featureMismatch "linear combination is NaN"))
    else (m.scoreOfSum? z).map .ok

/-- The share of the range that a curved link adds to the low end. -/
def share? (m : Model) (z : Float) : Option Float :=
  match m.link with
  | .logistic => some (sigmoid z)
  | .invertedLogistic => some (1 - sigmoid z)
  | .linear => none

/-- The exponential on the curve is no number, or the share to add is zero and the
ends of the range lie infinitely far apart. `Float.exp` is opaque here, so the first
clause has to be asked for: no exponential of a number is none, and a score is asked
for only where the sum is a number. -/
def Lost (m : Model) (z : Float) : Prop :=
  ∃ share, m.share? z = some share ∧ ((Float.exp (-z)).isNaN = true ∨
    (m.range.max - m.range.min).isInf = true ∧ (share == 0) = true)

/-! ## Ranges -/

/-- Ends that are finite and in order. -/
structure Proper (range : ScoreRange) : Prop where
  min : (shape range.min).isFinite = true
  max : (shape range.max).isFinite = true
  lt : range.min < range.max

theorem range_of_check {m : Model} (h : m.check = .ok ()) : Proper m.range := by
  rw [check] at h
  split_ifs at h with _ _ _ _ _ hrange
  rw [Bool.not_eq_true', Bool.not_eq_false, Bool.and_eq_true, Bool.and_eq_true,
    decide_eq_true_eq] at hrange
  obtain ⟨⟨hmin, hmax⟩, hlt⟩ := hrange
  exact ⟨isFinite_shape hmin, isFinite_shape hmax, hlt⟩

/-! ## Scores -/

/-- A part of the range is no number only if its share is none, or if it is zero of
an infinite width. -/
theorem isNaN_part {range : ScoreRange} (h : Proper range) (share : Float) :
    (range.min + (range.max - range.min) * share).isNaN =
      (share.isNaN || (range.max - range.min).isInf && share == 0) := by
  have hwidth : (range.max - range.min).isNaN = false := by
    rw [isNaN_sub h.max, (isNaN_of_lt h.lt).1]
  rw [isNaN_add h.min, isNaN_mul, isZero_sub h.min h.max h.lt, isZero_shape, Bool.false_and,
    Bool.or_false]
  show ((range.max - range.min).isNaN || share.isNaN || _) = _
  rw [hwidth, Bool.false_or]
  rfl

/-- The value on the curve, before it is clamped. -/
theorem isNaN_share {m : Model} {z share : Float} (h : m.share? z = some share) :
    share.isNaN = (Float.exp (-z)).isNaN := by
  rw [share?] at h
  split at h
  · cases h
    exact isNaN_sigmoid z
  · cases h
    rw [isNaN_sub (by rw [shape_one]; rfl), isNaN_sigmoid]
  · cases h

theorem scoreOfSum_of_share {m : Model} {z share : Float} (h : m.share? z = some share) :
    m.scoreOfSum z = Number.clamp m.range.min m.range.max
      (m.range.min + (m.range.max - m.range.min) * share) := by
  rw [share?] at h
  rw [scoreOfSum]
  split at h <;> cases h <;> simp only [*]

/-- A straight link clamps the sum once more. -/
theorem scoreOfSum_of_linear {m : Model} {z : Float} (h : m.share? z = none) :
    m.scoreOfSum z = Number.clamp m.range.min m.range.max
      (Number.clamp m.range.min m.range.max z) := by
  rw [share?] at h
  rw [scoreOfSum]
  split at h <;> cases h
  simp only [*]

theorem lost_iff_of_share {m : Model} {z share : Float} (h : m.share? z = some share) :
    m.Lost z ↔ (share.isNaN || (m.range.max - m.range.min).isInf && share == 0) = true := by
  rw [Bool.or_eq_true, Bool.and_eq_true, isNaN_share h]
  constructor
  · rintro ⟨other, hother, hlost⟩
    rw [h, Option.some.injEq] at hother
    subst hother
    exact hlost
  · exact fun hlost => ⟨share, h, hlost⟩

theorem not_lost_of_linear {m : Model} {z : Float} (h : m.share? z = none) : ¬ m.Lost z := by
  rintro ⟨share, hshare, -⟩
  rw [h] at hshare
  cases hshare

/-- What is lost is no number. -/
theorem isNaN_scoreOfSum {m : Model} {z : Float} (h : Proper m.range) (hlost : m.Lost z) :
    (m.scoreOfSum z).isNaN = true := by
  rcases hshare : m.share? z with _ | share
  · exact absurd hlost (not_lost_of_linear hshare)
  · have hpart := (lost_iff_of_share hshare).mp hlost
    rw [← isNaN_part h] at hpart
    rw [scoreOfSum_of_share hshare, clamp_of_isNaN hpart]
    exact hpart

/-- All other scores lie within the range. -/
theorem scoreOfSum_bounds {m : Model} {z : Float} (h : Proper m.range) (hz : z.isNaN = false)
    (hlost : ¬ m.Lost z) : m.range.min ≤ m.scoreOfSum z ∧ m.scoreOfSum z ≤ m.range.max := by
  rcases hshare : m.share? z with _ | share
  · have hclamped := isNaN_of_le (clamp_bounds h.lt hz).1
    rw [scoreOfSum_of_linear hshare]
    exact clamp_bounds h.lt hclamped.2
  · rw [lost_iff_of_share hshare, Bool.not_eq_true, ← isNaN_part h] at hlost
    rw [scoreOfSum_of_share hshare]
    exact clamp_bounds h.lt hlost

/-- Within the bounds of a proper range, clamping never comes to a stop. -/
theorem scoreOfSum?_eq {m : Model} (h : Proper m.range) (z : Float) :
    m.scoreOfSum? z = some (m.scoreOfSum z) := by
  rw [scoreOfSum?, scoreOfSum]
  cases m.link <;> simp [clamp?_of_lt h.lt]

theorem score?_eq {m : Model} (h : Proper m.range) (v : Feature.Vector) :
    m.score? v = some (m.score v) := by
  rw [score?, score]
  rcases m.checkVector v with e | _
  · rfl
  · simp only [scoreValues, scoreOfSum?_eq h, Option.map_some, bind, Except.bind]
    split <;> rfl

/-- The curve comes down to zero where the exponential outgrows all doubles. -/
theorem lost_of_isInf {m : Model} {z : Float} (hlink : m.link = .logistic)
    (hwidth : (m.range.max - m.range.min).isInf = true)
    (hexp : (Float.exp (-z)).isInf = true) : m.Lost z := by
  have hshare : m.share? z = some (sigmoid z) := by rw [share?, hlink]
  refine ⟨sigmoid z, hshare, .inr ⟨hwidth, ?_⟩⟩
  rw [← isZero_shape]
  exact isZero_one_div (isInf_add (by rw [shape_one]; rfl) hexp)

theorem score_eq_ok {m : Model} {v : Feature.Vector} {s : Float} (h : m.score v = .ok s) :
    m.checkVector v = .ok () ∧ (m.weightedSum v.values).isNaN = false ∧
      s = m.scoreOfSum (m.weightedSum v.values) := by
  rw [score] at h
  rcases hcheck : m.checkVector v with e | _ <;> rw [hcheck] at h
  · cases h
  · have hvalues : m.scoreValues v.values = .ok s := h
    rw [scoreValues] at hvalues
    split at hvalues
    · cases hvalues
    · next hz =>
      rw [Bool.not_eq_true] at hz
      exact ⟨rfl, hz, by cases hvalues; rfl⟩

/-! ## A range that is too wide -/

/-- A document whose range spans nearly all doubles. -/
def wideText : String :=
  "\x7b\"format\":\"readscope-model\",\"version\":1,\"schema\":\"s\",\"link\":\"logistic\"," ++
  "\"intercept\":0.0,\"range\":\x7b\"min\":-1e308,\"max\":1e308\x7d," ++
  "\"features\":[\x7b\"name\":\"a\",\"weight\":1.0\x7d]\x7d"

/-- The model that is read from it. -/
def wideModel : Model :=
  ⟨formatTag, 1, "s", .logistic, 0, ⟨-1e308, 1e308⟩, .thirds, [⟨"a", 1, none⟩], ""⟩

/-- A vector far to the left on its curve. -/
def wideVector : Feature.Vector :=
  ⟨"s", ["a"], [-1000]⟩

theorem ofText_wideText : Model.ofText wideText = .ok wideModel := by
  have hread : (Model.ofText wideText).toOption = some wideModel := by decide +kernel
  rcases hm : Model.ofText wideText with _ | m <;> rw [hm] at hread <;> cases hread
  rfl

theorem weightedSum_wideVector : wideModel.weightedSum wideVector.values = -1000 := by
  rfl

theorem score_wideVector : wideModel.score wideVector = .ok (wideModel.scoreOfSum (-1000)) := by
  rfl

/-- **Scores of an accepted model.** Scoring never comes to a stop, and a score lies
within the range of the model, unless it is lost; then it is no number. -/
theorem score_bounds_iff {text : String} {m : Model} (hm : Model.ofText text = .ok m)
    (v : Feature.Vector) :
    m.score? v = some (m.score v) ∧
      ∀ s, m.score v = .ok s →
        ((m.range.min ≤ s ∧ s ≤ m.range.max) ↔ ¬ m.Lost (m.weightedSum v.values)) ∧
        (s.isNaN = true ↔ m.Lost (m.weightedSum v.values)) := by
  have hrange := range_of_check (check_of_ofText hm)
  refine ⟨score?_eq hrange v, fun s hs => ?_⟩
  obtain ⟨-, hz, rfl⟩ := score_eq_ok hs
  have hwithin := scoreOfSum_bounds hrange hz
  have hnone := isNaN_scoreOfSum (z := m.weightedSum v.values) hrange
  refine ⟨⟨fun hin hlost => ?_, hwithin⟩, ⟨fun hnan => ?_, hnone⟩⟩
  · have hnumber := (isNaN_of_le hin.1).2
    rw [hnone hlost] at hnumber
    cases hnumber
  · by_contra hkept
    have hnumber := (isNaN_of_le (hwithin hkept).1).2
    rw [hnan] at hnumber
    cases hnumber

/-- The score of the vector exists; whether it is within the range depends on the
exponential of a thousand. -/
theorem score_bounds_iff_wideText :
    Model.ofText wideText = .ok wideModel ∧
      wideModel.score? wideVector = some (.ok (wideModel.scoreOfSum (-1000))) ∧
      ((wideModel.range.min ≤ wideModel.scoreOfSum (-1000) ∧
          wideModel.scoreOfSum (-1000) ≤ wideModel.range.max) ↔ ¬ wideModel.Lost (-1000)) ∧
      ((wideModel.scoreOfSum (-1000)).isNaN = true ↔ wideModel.Lost (-1000)) := by
  obtain ⟨htotal, hscores⟩ := score_bounds_iff ofText_wideText wideVector
  obtain ⟨hwithin, hnone⟩ := hscores _ score_wideVector
  rw [weightedSum_wideVector] at hwithin hnone
  exact ⟨ofText_wideText, htotal, hwithin, hnone⟩

/-- Where the exponential of a thousand is infinite, as it is beyond the doubles, the
model above gives a score that is no number. -/
theorem score_wideVector_lost :
    Model.ofText wideText = .ok wideModel ∧
      ∃ s, wideModel.score wideVector = .ok s ∧
        ((Float.exp 1000).isInf = true → s.isNaN = true) := by
  refine ⟨ofText_wideText, _, score_wideVector, fun hexp => ?_⟩
  have hwidth : (wideModel.range.max - wideModel.range.min).isInf = true := by decide +kernel
  exact isNaN_scoreOfSum (range_of_check (check_of_ofText ofText_wideText))
    (lost_of_isInf rfl hwidth hexp)

end Readability.Model
