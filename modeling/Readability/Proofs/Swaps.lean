import Mathlib.Data.List.Induction
import Readability.Proofs.Doubles
import Readability.Proofs.Hints
import Readability.Proofs.ScoreRange

/-!
# Hints for vectors that have a score

A vector with a score need not have hints. All that a model adds up is finite, but a
product of two finite doubles can be infinite, and a target in the place of a value can
bring an infinite term of one sign into a sum that is infinite with the other sign. Then
the sum is no number, the vector with the target has no score, and one such target keeps
back the hints of all other features.

> `isNaN_total_iff`: a sum of numbers is no number exactly where a term meets what was
> added up before it as the infinity of the other sign.

Main statement: `improvements_eq_ok_iff_swappable`. A vector with a score has hints
exactly when no target makes terms clash, and the only other answer is that its sum is
no number. `improvements_steepVector` is a vector with a score, and with a target that
improves it, which has no hints.
-/

namespace Readability.Number

open Float.Model.UnpackedFloat

/-- Infinities of opposite signs. -/
def Opposed (x y : Float) : Prop :=
  ∃ sign, shape x = .infinity sign ∧ shape y = .infinity (-sign)

/-- A sum is no number if one of its terms is none, or if they are opposed. -/
theorem isNaN_add_iff (x y : Float) :
    (x + y).isNaN = true ↔ x.isNaN = true ∨ y.isNaN = true ∨ Opposed x y := by
  show (Float.Model.pack (add Float.Model.Format.binary64 (shape x) (shape y))).unpack.isNaN =
    true ↔ (shape x).isNaN = true ∨ (shape y).isNaN = true ∨ Opposed x y
  rw [isNaN_pack, Opposed]
  rcases shape x with ⟨_ | _⟩ | _ | ⟨_ | _⟩ | _ <;>
    rcases shape y with ⟨_ | _⟩ | _ | ⟨_ | _⟩ | _ <;> simp [add, isNaN]
  · rfl
  · rfl
  · exact isNaN_normalize _ _ _

theorem total_concat (xs : List Float) (x : Float) : total (xs ++ [x]) = total xs + x := by
  rw [total, List.foldl_append]
  rfl

/-- **A sum of numbers is no number exactly where a term is opposed to the sum before it.** -/
theorem isNaN_total_iff {xs : List Float} (hxs : ∀ x ∈ xs, x.isNaN = false) :
    (total xs).isNaN = true ↔
      ∃ before x after, xs = before ++ x :: after ∧ Opposed (total before) x := by
  induction xs using List.reverseRecOn with
  | nil =>
    refine iff_of_false ?_ ?_
    · show ¬ (-0 : Float).isNaN = true
      decide
    · rintro ⟨before, x, after, hsplit, -⟩
      exact List.append_ne_nil_of_right_ne_nil before (List.cons_ne_nil x after) hsplit.symm
  | append_singleton xs last ih =>
    have hlast : ¬ last.isNaN = true := by
      rw [hxs last (by simp)]
      exact Bool.false_ne_true
    rw [total_concat, isNaN_add_iff, ih fun x hx => hxs x (List.mem_append_left _ hx),
      or_iff_right hlast]
    constructor
    · rintro (⟨before, x, after, rfl, hopposed⟩ | hopposed)
      · exact ⟨before, x, after ++ [last], by simp, hopposed⟩
      · exact ⟨xs, last, [], rfl, hopposed⟩
    · rintro ⟨before, x, after, hsplit, hopposed⟩
      -- the term is the last one, or one of those before
      rcases List.eq_nil_or_concat after with rfl | ⟨after, y, rfl⟩
      · obtain ⟨rfl, hlast⟩ := List.append_inj' hsplit rfl
        rw [List.singleton_inj] at hlast
        subst hlast
        exact .inr hopposed
      · rw [List.concat_eq_append, ← List.cons_append, ← List.append_assoc] at hsplit
        exact .inl ⟨before, x, after, (List.append_inj' hsplit rfl).1, hopposed⟩

/-- Products of finite numbers may be infinite, but they are numbers. -/
theorem isNaN_mul_of_isFinite {x y : Float} (hx : (shape x).isFinite = true)
    (hy : (shape y).isFinite = true) : (x * y).isNaN = false := by
  have hnumber : ∀ u : Float.Model.UnpackedFloat, u.isFinite = true →
      u.isNaN = false ∧ u.isInf = false := by
    intro u hu
    cases u with
    | notANumber => cases hu
    | infinity => cases hu
    | zero => exact ⟨rfl, rfl⟩
    | finite => exact ⟨rfl, rfl⟩
  obtain ⟨hxnan, hxinf⟩ := hnumber _ hx
  obtain ⟨hynan, hyinf⟩ := hnumber _ hy
  rw [isNaN_mul, hxnan, hxinf, hynan, hyinf, Bool.and_false]
  rfl

end Readability.Number

namespace Readability.Model

open Readability.Data.Json (bind_eq_ok)
open Readability.Number (Opposed isFinite_shape isNaN_add isNaN_mul_of_isFinite isNaN_total_iff
  total)
open Readability.Source (UnitError)

variable {m : Model} {v : Feature.Vector} {values : List Float} {current : Float}

/-! ## Sums that are no numbers -/

/-- What the features add to the intercept. -/
def terms (m : Model) (values : List Float) : List Float :=
  List.zipWith (fun f x => f.weight * x) m.features values

/-- An infinite term meets a sum that is infinite with the other sign. -/
def Clashes (m : Model) (values : List Float) : Prop :=
  ∃ before term after, m.terms values = before ++ term :: after ∧ Opposed (total before) term

/-- **Finite values have a weighted sum, unless their terms clash.** -/
theorem isNaN_weightedSum_iff (hm : m.check = .ok ())
    (hvalues : ∀ x ∈ values, Decimal.isFinite x = true) :
    (m.weightedSum values).isNaN = true ↔ m.Clashes values := by
  obtain ⟨hintercept, hweights⟩ := weights_of_check hm
  have hterms : ∀ term ∈ m.terms values, term.isNaN = false := by
    intro term hterm
    rw [terms, ← List.map_uncurry_zip_eq_zipWith] at hterm
    obtain ⟨⟨f, x⟩, hpair, rfl⟩ := List.mem_map.mp hterm
    obtain ⟨hf, hx⟩ := List.of_mem_zip hpair
    exact isNaN_mul_of_isFinite (isFinite_shape (hweights f hf)) (isFinite_shape (hvalues x hx))
  show (m.intercept + total (m.terms values)).isNaN = true ↔ _
  rw [isNaN_add (isFinite_shape hintercept), isNaN_total_iff hterms]
  rfl

/-- How scoring fails where terms clash. -/
def clash : UnitError :=
  .featureMismatch "linear combination is NaN"

theorem scoreValues_of_isNaN (h : (m.weightedSum values).isNaN = true) :
    m.scoreValues values = .error clash := by
  rw [scoreValues]
  exact if_pos h

theorem scoreValues_of_number (h : (m.weightedSum values).isNaN = false) :
    m.scoreValues values = .ok (m.scoreOfSum (m.weightedSum values)) := by
  rw [scoreValues]
  exact if_neg (by rw [h]; exact Bool.false_ne_true)

/-! ## One target after the other -/

/-- The target of a feature, in the place of its value, leaves the sum no number. -/
def Blocks (m : Model) (values : List Float) (place : Nat) (f : FeatureWeight) : Prop :=
  ∃ goal, f.target = some goal ∧ place < values.length ∧
    (m.weightedSum (values.set place goal)).isNaN = true

/-- A feature without a target, or without a value, is passed over; any other is tried
without fault unless its target blocks. -/
theorem hintAt_of_not_blocks (current : Float) {place : Nat} {f : FeatureWeight}
    (h : ¬ m.Blocks values place f) :
    ∃ hint, m.hintAt values current place f = .ok hint := by
  unfold hintAt
  split
  · next goal value hgoal hvalue =>
    have hplace : place < values.length := (List.getElem?_eq_some_iff.mp hvalue).1
    have hnumber : (m.weightedSum (values.set place goal)).isNaN = false := by
      rw [← Bool.not_eq_true]
      exact fun hnan => h ⟨goal, hgoal, hplace, hnan⟩
    rw [scoreValues_of_number hnumber]
    by_cases hgain : current < m.scoreOfSum (m.weightedSum (values.set place goal))
    · exact ⟨_, if_pos hgain⟩
    · exact ⟨_, if_neg hgain⟩
  · exact ⟨none, rfl⟩

theorem hintAt_of_blocks {place : Nat} {f : FeatureWeight} (h : m.Blocks values place f) :
    m.hintAt values current place f = .error clash := by
  obtain ⟨goal, hgoal, hplace, hnan⟩ := h
  unfold hintAt
  rw [hgoal, List.getElem?_eq_getElem hplace]
  show m.scoreValues (values.set place goal) >>= _ = _
  rw [scoreValues_of_isNaN hnan]
  rfl

/-- All features are tried, or the first one that blocks ends the trial of all. -/
theorem hintsFrom_cases (m : Model) (values : List Float) (current : Float) :
    ∀ (features : List FeatureWeight) (place : Nat),
    (∃ hints, m.hintsFrom values current place features = .ok hints) ∧
        (∀ i f, features[i]? = some f → ¬ m.Blocks values (place + i) f) ∨
      m.hintsFrom values current place features = .error clash ∧
        ∃ i f, features[i]? = some f ∧ m.Blocks values (place + i) f := by
  intro features
  induction features with
  | nil =>
    intro place
    exact .inl ⟨⟨[], rfl⟩, fun i f hf => by cases hf⟩
  | cons f features ih =>
    intro place
    by_cases hfirst : m.Blocks values place f
    · refine .inr ⟨?_, 0, f, rfl, hfirst⟩
      rw [hintsFrom, hintAt_of_blocks hfirst]
      rfl
    · obtain ⟨hint, hhint⟩ := hintAt_of_not_blocks current hfirst
      -- places of the rest are one further in the whole
      have hnext : ∀ i, place + 1 + i = place + (i + 1) := by omega
      rcases ih (place + 1) with ⟨⟨others, hothers⟩, hrest⟩ | ⟨herror, i, g, hg, hblocks⟩
      · refine .inl ⟨⟨_, hintsFrom_cons_eq_ok.mpr ⟨hint, others, hhint, hothers, rfl⟩⟩, ?_⟩
        intro i g hg
        cases i with
        | zero =>
          cases hg
          exact hfirst
        | succ i =>
          rw [← hnext]
          exact hrest i g hg
      · refine .inr ⟨?_, i + 1, g, hg, by rwa [← hnext]⟩
        rw [hintsFrom, hhint, ← hnext] at *
        show (m.hintsFrom values current (place + 1) features >>= _) = _
        rw [herror]
        rfl

/-! ## Vectors with a score -/

/-- No target makes terms clash when it takes the place of a value. -/
def Swappable (m : Model) (v : Feature.Vector) : Prop :=
  ∀ place f goal, m.features[place]? = some f → f.target = some goal →
    ¬ m.Clashes (v.values.set place goal)

/-- Targets are finite, so one that blocks is one that makes terms clash. -/
theorem swappable_iff (hm : m.check = .ok ()) (hv : m.checkVector v = .ok ()) :
    m.Swappable v ↔ ∀ place f, m.features[place]? = some f → ¬ m.Blocks v.values place f := by
  obtain ⟨-, -, hlength, -⟩ := checkVector_eq_ok_iff.mp hv
  have hclash : ∀ {place f goal}, m.features[place]? = some f → f.target = some goal →
      ((m.weightedSum (v.values.set place goal)).isNaN = true ↔
        m.Clashes (v.values.set place goal)) := by
    intro place f goal hf hgoal
    have hfinite := (features_of_check hm).2 f (List.mem_of_getElem? hf) goal hgoal
    have hchanged := checkVector_withValue hv place hfinite
    exact isNaN_weightedSum_iff hm (checkVector_eq_ok_iff.mp hchanged).2.2.2
  constructor
  · rintro h place f hf ⟨goal, hgoal, -, hnan⟩
    exact h place f goal hf hgoal ((hclash hf hgoal).mp hnan)
  · intro h place f goal hf hgoal hclashes
    have hplace : place < v.values.length := hlength ▸ (List.getElem?_eq_some_iff.mp hf).1
    exact h place f hf ⟨goal, hgoal, hplace, (hclash hf hgoal).mpr hclashes⟩

/-- **A vector with a score has hints exactly when no target makes terms clash**; if one
does, there is no hint for any feature, and the answer is that the sum is no number. -/
theorem improvements_eq_ok_iff_swappable {text : String} (hm : Model.ofText text = .ok m)
    {s : Float} (hs : m.score v = .ok s) :
    ((∃ hints, m.improvements v = .ok hints) ↔ m.Swappable v) ∧
      (¬ m.Swappable v →
        m.improvements v = .error (.featureMismatch "linear combination is NaN")) := by
  have hcheck := check_of_ofText hm
  obtain ⟨hv, hnumber, -⟩ := score_eq_ok hs
  have hcurrent := scoreValues_of_number hnumber
  have hfresh := hintsFrom_cases m v.values (m.scoreOfSum (m.weightedSum v.values)) m.features 0
  simp only [Nat.zero_add] at hfresh
  rw [swappable_iff hcheck hv]
  rcases hfresh with ⟨⟨fresh, hfresh⟩, hfree⟩ | ⟨herror, i, f, hf, hblocks⟩
  · have hhints : m.improvements v = .ok (ranked fresh) :=
      improvements_eq_ok.mpr ⟨hv, _, fresh, hcurrent, hfresh, rfl⟩
    exact ⟨iff_of_true ⟨_, hhints⟩ hfree, fun hblocked => absurd hfree hblocked⟩
  · have hfails : m.improvements v = .error clash := by
      rw [improvements, hv]
      show (m.scoreValues v.values >>= _) = _
      rw [hcurrent]
      show (m.hintsFrom v.values _ 0 m.features >>= _) = _
      rw [herror]
      rfl
    refine ⟨iff_of_false ?_ fun hfree => hfree i f hf hblocks, fun _ => hfails⟩
    rintro ⟨hints, hhints⟩
    rw [hfails] at hhints
    cases hhints

/-! ## Weights that are too steep -/

/-- A document whose weights bring common values beyond all doubles. -/
def steepText : String :=
  "\x7b\"format\":\"readscope-model\",\"version\":1,\"schema\":\"s\",\"link\":\"linear\"," ++
  "\"intercept\":1,\"features\":[\x7b\"name\":\"lines\",\"weight\":-1e308,\"target\":0\x7d," ++
  "\x7b\"name\":\"notes\",\"weight\":1e308,\"target\":20\x7d]\x7d"

/-- The model that is read from it. -/
def steepModel : Model :=
  ⟨formatTag, 1, "s", .linear, 1, .unit, .thirds,
    [⟨"lines", -1e308, some 0⟩, ⟨"notes", 1e308, some 20⟩], ""⟩

/-- Long lines without notes. -/
def steepVector : Feature.Vector :=
  ⟨"s", ["lines", "notes"], [40, 0]⟩

theorem ofText_steepText : Model.ofText steepText = .ok steepModel := by
  have hread : (Model.ofText steepText).toOption = some steepModel := by decide +kernel
  rcases hm : Model.ofText steepText with _ | m <;> rw [hm] at hread <;> cases hread
  rfl

theorem score_steepVector : steepModel.score steepVector = .ok 0 := by
  decide +kernel

/-- **Shorter lines would raise the score, but there are no hints**: the target of the
notes makes terms clash. -/
theorem improvements_steepVector :
    Model.ofText steepText = .ok steepModel ∧ steepModel.score steepVector = .ok 0 ∧
      steepModel.Improves steepVector 0 ⟨"lines", -1e308, some 0⟩ 0 0 1 ∧
      steepModel.improvements steepVector =
        .error (.featureMismatch "linear combination is NaN") := by
  refine ⟨ofText_steepText, score_steepVector, ⟨rfl, score_steepVector, ?_, ?_⟩, ?_⟩
  · decide +kernel
  · decide +kernel
  · decide +kernel

theorem not_swappable_steepVector : ¬ steepModel.Swappable steepVector := by
  intro h
  refine h 1 ⟨"notes", 1e308, some 20⟩ 20 rfl rfl ?_
  have hlines : total [-1e308 * 40] = -1 / 0 := by decide +kernel
  have hnotes : (1e308 * 20 : Float) = 1 / 0 := by decide +kernel
  refine ⟨[-1e308 * 40], 1e308 * 20, [], rfl, .negative, ?_, ?_⟩
  · rw [hlines]
    rfl
  · rw [hnotes]
    rfl

theorem improvements_eq_ok_iff_swappable_steepText :
    (Model.ofText steepText = .ok steepModel ∧ steepModel.score steepVector = .ok 0) ∧
      (¬ ∃ hints, steepModel.improvements steepVector = .ok hints) ∧
      steepModel.improvements steepVector =
        .error (.featureMismatch "linear combination is NaN") := by
  obtain ⟨hiff, herror⟩ := improvements_eq_ok_iff_swappable ofText_steepText score_steepVector
  exact ⟨⟨ofText_steepText, score_steepVector⟩, fun hhints => not_swappable_steepVector
    (hiff.mp hhints), herror not_swappable_steepVector⟩

end Readability.Model
