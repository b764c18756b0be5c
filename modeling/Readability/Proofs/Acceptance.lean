import Mathlib.Data.List.Nodup
import Readability.Model.Document

/-!
# What models and vectors are accepted

A model that was read from a text has passed its check (`check_of_ofText`), so its
features have names of their own and finite targets (`features_of_check`).

A vector is accepted for a model when it has its schema, its features and finite
values, and for nothing else (`checkVector_eq_ok_iff`). One finite value can take the
place of another in it (`checkVector_withValue`).
-/

namespace Readability.Feature.Vector

/-- The vector with another value at one place. -/
def withValue (v : Vector) (place : Nat) (x : Float) : Vector :=
  { v with values := v.values.set place x }

end Readability.Feature.Vector

namespace Readability.Model

deriving instance DecidableEq for ScoreRange, Bands, FeatureWeight, Model

/-- Features that pass have names of their own, other than those before, and finite
weights and targets. -/
theorem checkFeatures_eq_ok : ∀ {features : List FeatureWeight} {seen : List String},
    checkFeatures seen features = .ok () →
      (features.map (·.name)).Nodup ∧ (∀ f ∈ features, f.name ∉ seen) ∧
        ∀ f ∈ features, Decimal.isFinite f.weight = true ∧
          ∀ target ∈ f.target, Decimal.isFinite target = true := by
  intro features
  induction features with
  | nil => exact fun _ => ⟨List.nodup_nil, by simp, by simp⟩
  | cons f features ih =>
    intro seen h
    rw [checkFeatures] at h
    split_ifs at h with hseen hweight htarget
    obtain ⟨hnodup, hnew, hfinite⟩ := ih h
    refine ⟨?_, ?_, ?_⟩
    · rw [List.map_cons, List.nodup_cons]
      refine ⟨?_, hnodup⟩
      intro hmem
      obtain ⟨g, hg, hname⟩ := List.mem_map.mp hmem
      exact hnew g hg (hname ▸ List.mem_cons_self)
    · rw [List.forall_mem_cons]
      refine ⟨fun hmem => hseen (List.contains_iff_mem.mpr hmem), ?_⟩
      exact fun g hg hmem => hnew g hg (List.mem_cons_of_mem _ hmem)
    · rw [List.forall_mem_cons]
      refine ⟨⟨by simpa using hweight, ?_⟩, hfinite⟩
      intro target hsome
      rw [Option.mem_def] at hsome
      simpa [hsome] using htarget

variable {m : Model} {v : Feature.Vector}

/-- A text is a model's when it is read as a value, the value as the model, and the model passes. -/
theorem ofText_eq_ok_iff {text : String} : ofText text = .ok m ↔
    ∃ v, Data.Json.read text = .ok v ∧ Model.decode .json v = .ok m ∧ m.check = .ok () := by
  rw [ofText]
  rcases Data.Json.read text with fault | v
  · exact iff_of_false (fun h => nomatch h) fun ⟨_, h, _⟩ => nomatch h
  show ofValue v = .ok m ↔ _
  rw [ofValue]
  constructor
  · rcases hdecode : Model.decode .json v with fault | decoded
    · exact fun h => nomatch h
    rcases hcheck : decoded.check with flaw | _
    · intro h
      simp [Except.mapError, hcheck, bind, Except.bind] at h
    · intro h
      simp only [Except.mapError, hcheck, bind, Except.bind, pure, Except.pure,
        Except.ok.injEq] at h
      subst h
      exact ⟨v, rfl, hdecode, hcheck⟩
  · rintro ⟨_, hv, hdecode, hcheck⟩
    cases hv
    simp only [hdecode, hcheck, Except.mapError, bind, Except.bind, pure, Except.pure]

theorem check_of_ofText {text : String} {m : Model} (h : Model.ofText text = .ok m) :
    m.check = .ok () := by
  obtain ⟨-, -, -, hcheck⟩ := ofText_eq_ok_iff.mp h
  exact hcheck

theorem features_of_check (h : m.check = .ok ()) : m.featureNames.Nodup ∧
    ∀ f ∈ m.features, ∀ target ∈ f.target, Decimal.isFinite target = true := by
  rw [check] at h
  split_ifs at h
  obtain ⟨hnodup, -, hfinite⟩ := checkFeatures_eq_ok h
  exact ⟨hnodup, fun f hf => (hfinite f hf).2⟩

/-- What an accepted model adds up is finite. -/
theorem weights_of_check (h : m.check = .ok ()) : Decimal.isFinite m.intercept = true ∧
    ∀ f ∈ m.features, Decimal.isFinite f.weight = true := by
  rw [check] at h
  split_ifs at h with _ _ _ _ hintercept
  obtain ⟨-, -, hfinite⟩ := checkFeatures_eq_ok h
  exact ⟨by simpa using hintercept, fun f hf => (hfinite f hf).1⟩

/-! ## Vectors -/

/-- Names of one number that differ nowhere are the same. -/
theorem firstDifference_eq_none_iff : ∀ {expected actual : List String} {place : Nat},
    expected.length = actual.length →
      (firstDifference place expected actual = none ↔ expected = actual) := by
  intro expected
  induction expected with
  | nil =>
    intro actual place hlength
    rw [List.length_eq_zero_iff.mp hlength.symm]
    exact iff_of_true rfl rfl
  | cons name expected ih =>
    intro actual place hlength
    cases actual with
    | nil => cases hlength
    | cons other actual =>
      rw [firstDifference, List.cons.injEq]
      split
      · next hother => exact iff_of_false (Option.some_ne_none _) fun h => bne_iff_ne.mp hother h.1
      · next hsame =>
        rw [bne_iff_ne, ne_eq, not_not] at hsame
        rw [ih (Nat.succ.inj hlength), and_iff_right hsame]

/-- **What vectors a model accepts**: those of its schema and its features with finite
values. -/
theorem checkVector_eq_ok_iff :
    m.checkVector v = .ok () ↔
      v.schema = m.schema ∧ v.names = m.featureNames ∧ v.values.length = m.features.length ∧
        ∀ x ∈ v.values, Decimal.isFinite x = true := by
  have hfeatures : m.featureNames.length = m.features.length := List.length_map _
  constructor
  · intro h
    rw [checkVector] at h
    split_ifs at h with hschema hlength
    rw [bne_iff_ne, ne_eq, not_not] at hschema
    rw [Bool.or_eq_true, bne_iff_ne, bne_iff_ne, not_or, not_not, not_not] at hlength
    split at h
    · cases h
    · next hnames =>
      rw [firstDifference_eq_none_iff (hfeatures.trans hlength.2.symm)] at hnames
      refine ⟨hschema, hnames.symm, hlength.1, ?_⟩
      split at h
      · cases h
      · next hfinite =>
        intro x hx
        have hvalues : v.pairs.map Prod.snd = v.values :=
          List.map_snd_zip (Nat.le_of_eq (hlength.1.trans hlength.2.symm))
        rw [← hvalues] at hx
        obtain ⟨pair, hpair, rfl⟩ := List.mem_map.mp hx
        simpa using List.find?_eq_none.mp hfinite pair hpair
  · rintro ⟨hschema, hnames, hlength, hfinite⟩
    have hnone : v.pairs.find? (fun pair => !Decimal.isFinite pair.2) = none := by
      refine List.find?_eq_none.mpr ?_
      rintro ⟨name, x⟩ hpair
      simp [hfinite x (List.of_mem_zip hpair).2]
    have hsame : firstDifference 0 m.featureNames v.names = none :=
      (firstDifference_eq_none_iff (congrArg List.length hnames.symm)).mpr hnames.symm
    rw [checkVector, hsame, hnone]
    simp [hschema, hlength, hnames, hfeatures]

/-- One finite value can take the place of another. -/
theorem checkVector_withValue (h : m.checkVector v = .ok ()) (place : Nat) {x : Float}
    (hx : Decimal.isFinite x = true) : m.checkVector (v.withValue place x) = .ok () := by
  obtain ⟨hschema, hnames, hlength, hfinite⟩ := checkVector_eq_ok_iff.mp h
  refine checkVector_eq_ok_iff.mpr ⟨hschema, hnames, ?_, ?_⟩
  · rw [Feature.Vector.withValue, List.length_set, hlength]
  · intro y hy
    rcases List.mem_or_eq_of_mem_set hy with hy | rfl
    · exact hfinite y hy
    · exact hx

end Readability.Model
