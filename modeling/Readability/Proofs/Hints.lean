import Mathlib.Data.List.Nodup
import Readability.Model.Hint
import Readability.Proofs.Acceptance
import Readability.Proofs.JsonReading
import Readability.Proofs.StableSort

/-!
# Hints as improvements

Each feature with a target is tried on its own: the vector is scored again with the
target in the feature's place and all other values as they are. Accepted targets are
finite, so the changed vector is accepted as the old one was, and what is tried is its
score (`hintAt_eq_ok`).

Features have names of their own. So ranks never tie (`sorted_ranked`), and the number
of a hint is its place.

> `improvements_exact`: hints are the improvements by one feature, all of them and no
> others, ranked by what they come to.
-/

namespace Readability.Model

open Readability.Data.Json (bind_eq_ok)

namespace Hint

/-- Which of two hints has the better rank. -/
def compareRank (a b : Hint) : Ordering :=
  (Number.compareTotal b.improvedScore a.improvedScore).then (compare a.feature b.feature)

instance : Std.TransCmp compareRank :=
  haveI : Std.TransCmp fun a b : Hint => Number.compareTotal b.improvedScore a.improvedScore :=
    @Std.TransCmp.opposite _ (compareOn fun h : Hint => Number.orderKey h.improvedScore) _
  inferInstanceAs <| Std.TransCmp <|
    compareLex (fun a b : Hint => Number.compareTotal b.improvedScore a.improvedScore)
      (compareOn Hint.feature)

theorem feature_eq_of_compareRank {a b : Hint} (h : a.compareRank b = .eq) :
    a.feature = b.feature := by
  rw [compareRank, Ordering.then_eq_eq] at h
  exact Std.LawfulEqCmp.eq_of_compare h.2

/-- The hint before it has a rank. -/
def unranked (h : Hint) : Hint :=
  { h with rank := 0 }

end Hint

/-- Hints in the order of their ranks. -/
def ranked (hints : List Hint) : List Hint :=
  (hints.mergeSort Hint.ranksBefore).zipIdx.map fun (hint, place) => { hint with rank := place + 1 }

/-- What is said of a hint without its rank. -/
theorem map_ranked {β : Type} {f : Hint → β} (hf : ∀ (h : Hint) rank, f { h with rank } = f h)
    (hints : List Hint) : (ranked hints).map f = (hints.mergeSort Hint.ranksBefore).map f := by
  have hplace : (fun p : Hint × Nat => f { p.1 with rank := p.2 + 1 }) = f ∘ Prod.fst :=
    funext fun p => hf p.1 _
  calc (ranked hints).map f
      = (hints.mergeSort Hint.ranksBefore).zipIdx.map
          fun p => f { p.1 with rank := p.2 + 1 } := List.map_map
    _ = ((hints.mergeSort Hint.ranksBefore).zipIdx.map Prod.fst).map f := by
        rw [hplace, List.map_map]
    _ = (hints.mergeSort Hint.ranksBefore).map f := by rw [List.zipIdx_map_fst]

/-- Ranks count from one. -/
theorem rank_ranked (hints : List Hint) :
    (ranked hints).map (·.rank) = List.range' 1 hints.length := by
  have hcount : (fun p : Hint × Nat => p.2 + 1) = (1 + ·) ∘ Prod.snd :=
    funext fun p => Nat.add_comm _ _
  calc (ranked hints).map (·.rank)
      = (hints.mergeSort Hint.ranksBefore).zipIdx.map fun p => p.2 + 1 := List.map_map
    _ = ((hints.mergeSort Hint.ranksBefore).zipIdx.map Prod.snd).map (1 + ·) := by
        rw [hcount, List.map_map]
    _ = List.range' 1 hints.length := by
        rw [List.zipIdx_map_snd, List.map_add_range', List.length_mergeSort]

/-- Where each feature has one hint, no two have the same rank. -/
theorem sorted_ranked {hints : List Hint} (hnodup : (hints.map (·.feature)).Nodup) :
    (ranked hints).Pairwise fun a b => a.compareRank b = .lt := by
  have hsorted : (hints.mergeSort Hint.ranksBefore).Pairwise fun a b =>
      (a.compareRank b).isLE = true :=
    List.pairwise_mergeSort Sorting.isLE_trans_of_cmp Sorting.isLE_total_of_cmp hints
  have honce : ((hints.mergeSort Hint.ranksBefore).map (·.feature)).Nodup :=
    ((List.mergeSort_perm _ _).map _).nodup_iff.mpr hnodup
  have hstrict : (hints.mergeSort Hint.ranksBefore).Pairwise fun a b =>
      a.compareRank b = .lt := by
    refine (hsorted.and (List.pairwise_map.mp honce)).imp ?_
    rintro a b ⟨hle, hne⟩
    rcases Ordering.isLE_iff_eq_lt_or_eq_eq.mp hle with hlt | heq
    · exact hlt
    · exact absurd (Hint.feature_eq_of_compareRank heq) hne
  -- ranks are given by score and feature alone
  let place (h : Hint) : Float × String := (h.improvedScore, h.feature)
  let before (a b : Float × String) : Prop :=
    (Number.compareTotal b.1 a.1).then (compare a.2 b.2) = .lt
  have hmap : (ranked hints).map place = (hints.mergeSort Hint.ranksBefore).map place :=
    map_ranked (fun _ _ => rfl) hints
  have hplaces : ((ranked hints).map place).Pairwise before := by
    rw [hmap, List.pairwise_map]
    exact hstrict
  exact List.pairwise_map.mp hplaces

theorem mem_ranked {hints : List Hint} (hfresh : ∀ hint ∈ hints, hint.rank = 0) {hint : Hint}
    (h : hint ∈ ranked hints) : hint.unranked ∈ hints := by
  have hmem := List.mem_map_of_mem (f := Hint.unranked) h
  rw [map_ranked fun _ _ => rfl] at hmem
  obtain ⟨fresh, hfreshMem, hsame⟩ := List.mem_map.mp hmem
  rw [List.mem_mergeSort] at hfreshMem
  have hunranked : fresh.unranked = fresh := by
    rw [Hint.unranked, ← hfresh fresh hfreshMem]
  rw [← hsame, hunranked]
  exact hfreshMem

variable {m : Model} {v : Feature.Vector} {values : List Float} {current : Float}

/-! ## One feature at a time -/

/-- The target of a feature, in the place of its value, raises the score of a vector. -/
structure Improves (m : Model) (v : Feature.Vector) (place : Nat) (f : FeatureWeight)
    (goal before after : Float) : Prop where
  target : f.target = some goal
  current : m.score v = .ok before
  improved : m.score (v.withValue place goal) = .ok after
  gain : before < after

theorem score_eq (h : m.checkVector v = .ok ()) : m.score v = m.scoreValues v.values := by
  rw [score, h]
  rfl

/-- A feature gives the hint that its target gives, if this raises the score. -/
theorem hintAt_eq_some_iff {place : Nat} {f : FeatureWeight} {hint : Hint} :
    m.hintAt values current place f = .ok (some hint) ↔
      f.target = some hint.targetValue ∧ values[place]? = some hint.currentValue ∧
        m.scoreValues (values.set place hint.targetValue) = .ok hint.improvedScore ∧
        current < hint.improvedScore ∧
        hint = ⟨0, f.name, hint.currentValue, hint.targetValue, current, hint.improvedScore⟩ := by
  rw [hintAt]
  split
  · next goal value htarget hvalue =>
    simp only [htarget, hvalue, Option.some.injEq, bind_eq_ok]
    constructor
    · rintro ⟨improved, hscore, hhint⟩
      split at hhint
      · next hgain =>
        cases hhint
        exact ⟨rfl, rfl, hscore, hgain, rfl⟩
      · cases hhint
    · rintro ⟨rfl, rfl, hscore, hgain, hhint⟩
      refine ⟨hint.improvedScore, hscore, ?_⟩
      rw [if_pos hgain, ← hhint]
      rfl
  · next hnone =>
    refine iff_of_false (by simp) ?_
    rintro ⟨htarget, hvalue, -⟩
    exact hnone _ _ htarget hvalue

/-- The features are tried one after the other. -/
theorem hintsFrom_cons_eq_ok {place : Nat} {f : FeatureWeight} {rest : List FeatureWeight}
    {hints : List Hint} :
    m.hintsFrom values current place (f :: rest) = .ok hints ↔
      ∃ hint others, m.hintAt values current place f = .ok hint ∧
        m.hintsFrom values current (place + 1) rest = .ok others ∧ hint.toList ++ others = hints := by
  simp only [hintsFrom, bind_eq_ok, pure, Except.pure, Except.ok.injEq, exists_and_left]

/-- All hints come from features, each from its own. -/
theorem mem_hintsFrom_iff {hint : Hint} : ∀ {features : List FeatureWeight} {place : Nat}
    {hints : List Hint}, m.hintsFrom values current place features = .ok hints →
      (hint ∈ hints ↔ ∃ i f, features[i]? = some f ∧
        m.hintAt values current (place + i) f = .ok (some hint)) := by
  intro features
  induction features with
  | nil =>
    intro place hints h
    cases h
    simp
  | cons f features ih =>
    intro place hints h
    obtain ⟨tried, others, htried, hothers, rfl⟩ := hintsFrom_cons_eq_ok.mp h
    have hfirst : hint ∈ tried.toList ↔ m.hintAt values current place f = .ok (some hint) := by
      rw [Option.mem_toList, htried, Except.ok.injEq]
    rw [List.mem_append, ih hothers, hfirst]
    constructor
    · -- places of the rest are one further in the whole
      rintro (hhint | ⟨i, g, hg, hhint⟩)
      · exact ⟨0, f, rfl, hhint⟩
      · exact ⟨i + 1, g, hg, by rwa [← Nat.add_assoc, Nat.add_right_comm]⟩
    · rintro ⟨_ | i, g, hg, hhint⟩
      · cases hg
        exact .inl hhint
      · exact .inr ⟨i, g, hg, by rwa [Nat.add_right_comm, Nat.add_assoc]⟩

/-- A feature has one hint at most. -/
theorem sublist_hintsFrom : ∀ {features : List FeatureWeight} {place : Nat} {hints : List Hint},
    m.hintsFrom values current place features = .ok hints →
      (hints.map (·.feature)).Sublist (features.map (·.name)) := by
  intro features
  induction features with
  | nil =>
    intro place hints h
    cases h
    exact List.Sublist.refl _
  | cons f features ih =>
    intro place hints h
    obtain ⟨tried, others, htried, hothers, rfl⟩ := hintsFrom_cons_eq_ok.mp h
    rcases tried with _ | hint
    · exact (ih hothers).cons _
    · obtain ⟨-, -, -, -, hhint⟩ := hintAt_eq_some_iff.mp htried
      rw [hhint]
      exact (ih hothers).cons_cons _

/-! ## All hints -/

/-- What the hints for a vector have to be. -/
structure ExactHints (m : Model) (v : Feature.Vector) (hints : List Hint) : Prop where
  /-- A feature has a hint if its target alone would raise the score, and not else. -/
  occurs : ∀ place f, m.features[place]? = some f →
    (f.name ∈ hints.map (·.feature) ↔ ∃ goal before after,
      m.Improves v place f goal before after)
  once : (hints.map (·.feature)).Nodup
  /-- The numbers of a hint are those of its feature. -/
  numbers : ∀ hint ∈ hints, ∃ place f, m.features[place]? = some f ∧ f.name = hint.feature ∧
    v.values[place]? = some hint.currentValue ∧
    m.Improves v place f hint.targetValue hint.currentScore hint.improvedScore
  /-- The best score comes first, and by name where scores are the same. -/
  sorted : hints.Pairwise fun a b =>
    (Number.compareTotal b.improvedScore a.improvedScore).then (compare a.feature b.feature) = .lt
  ranks : hints.map (·.rank) = List.range' 1 hints.length

theorem improvements_eq_ok {hints : List Hint} :
    m.improvements v = .ok hints ↔ m.checkVector v = .ok () ∧ ∃ current fresh,
      m.scoreValues v.values = .ok current ∧
        m.hintsFrom v.values current 0 m.features = .ok fresh ∧ ranked fresh = hints := by
  have hunit : ∀ p : Unit → Prop, (∃ u, p u) ↔ p () := fun p => Unique.exists_iff
  simp only [improvements, bind_eq_ok, hunit, pure, Except.pure, Except.ok.injEq,
    exists_and_left, ranked]

section

variable (hm : m.check = .ok ()) (hv : m.checkVector v = .ok ())

include hm hv

/-- What raises the score of a vector is a hint, with the numbers of the vector. -/
theorem hintAt_eq_some_iff_improves (hcurrent : m.scoreValues v.values = .ok current)
    {place : Nat} {f : FeatureWeight} (hf : m.features[place]? = some f) {hint : Hint} :
    m.hintAt v.values current place f = .ok (some hint) ↔
      hint.rank = 0 ∧ f.name = hint.feature ∧ v.values[place]? = some hint.currentValue ∧
        m.Improves v place f hint.targetValue hint.currentScore hint.improvedScore := by
  have hscore : m.score v = .ok current := (score_eq hv).trans hcurrent
  -- targets are finite, so the changed vector is accepted like the old one
  have hchanged : ∀ {goal}, f.target = some goal →
      m.score (v.withValue place goal) = m.scoreValues (v.values.set place goal) := by
    intro goal htarget
    have hfinite := (features_of_check hm).2 f (List.mem_of_getElem? hf) goal htarget
    exact score_eq (checkVector_withValue hv place hfinite)
  rw [hintAt_eq_some_iff]
  constructor
  · rintro ⟨htarget, hvalue, himproved, hgain, hhint⟩
    have hnow : hint.currentScore = current := congrArg Hint.currentScore hhint
    refine ⟨congrArg Hint.rank hhint, (congrArg Hint.feature hhint).symm, hvalue, htarget, ?_, ?_,
      ?_⟩
    · rw [hscore, hnow]
    · rw [hchanged htarget, himproved]
    · rw [hnow]
      exact hgain
  · rintro ⟨hrank, hname, hvalue, himproves⟩
    have hnow : hint.currentScore = current :=
      Except.ok.inj (himproves.current.symm.trans hscore)
    refine ⟨himproves.target, hvalue, ?_, ?_, ?_⟩
    · rw [← hchanged himproves.target, himproves.improved]
    · rw [← hnow]
      exact himproves.gain
    · rw [← hrank, hname, ← hnow]

/-- Before they are ranked, hints are the improvements in the order of the features. -/
theorem mem_fresh_iff {fresh : List Hint} (hcurrent : m.scoreValues v.values = .ok current)
    (hfresh : m.hintsFrom v.values current 0 m.features = .ok fresh) {hint : Hint} :
    hint ∈ fresh ↔ ∃ place f, m.features[place]? = some f ∧ hint.rank = 0 ∧
      f.name = hint.feature ∧ v.values[place]? = some hint.currentValue ∧
      m.Improves v place f hint.targetValue hint.currentScore hint.improvedScore := by
  rw [mem_hintsFrom_iff hfresh]
  refine exists_congr fun place => exists_congr fun f => and_congr_right fun hf => ?_
  rw [Nat.zero_add]
  exact hintAt_eq_some_iff_improves hm hv hcurrent hf

/-- A feature that improves has a value, and so a hint. -/
theorem exists_hint_of_improves {fresh : List Hint}
    (hcurrent : m.scoreValues v.values = .ok current)
    (hfresh : m.hintsFrom v.values current 0 m.features = .ok fresh) {place : Nat}
    {f : FeatureWeight} (hf : m.features[place]? = some f) {goal before after : Float}
    (h : m.Improves v place f goal before after) : f.name ∈ fresh.map (·.feature) := by
  obtain ⟨hplace, -⟩ := List.getElem?_eq_some_iff.mp hf
  have hlength := (checkVector_eq_ok_iff.mp hv).2.2.1
  obtain ⟨value, hvalue⟩ : ∃ value, v.values[place]? = some value :=
    ⟨_, List.getElem?_eq_getElem (hlength ▸ hplace)⟩
  refine List.mem_map.mpr ⟨⟨0, f.name, value, goal, before, after⟩, ?_, rfl⟩
  exact (mem_fresh_iff hm hv hcurrent hfresh).mpr ⟨place, f, hf, rfl, rfl, hvalue, h⟩

end

/-- One name is at one place. -/
theorem place_eq_of_name (hnodup : m.featureNames.Nodup) {i j : Nat} {f g : FeatureWeight}
    (hf : m.features[i]? = some f) (hg : m.features[j]? = some g) (h : f.name = g.name) :
    i = j := by
  have hname : ∀ k, m.featureNames[k]? = (m.features[k]?).map FeatureWeight.name :=
    fun k => List.getElem?_map
  obtain ⟨hi, -⟩ := List.getElem?_eq_some_iff.mp hf
  have hlength : m.featureNames.length = m.features.length := List.length_map _
  refine (List.getElem?_inj (hlength ▸ hi) hnodup).mp ?_
  rw [hname, hname, hf, hg, Option.map_some, Option.map_some, h]

/-- **Hints are the improvements by one feature**, all of them and no others, ranked by
what they come to. -/
theorem improvements_exact {text : String} {hints : List Hint} (hm : Model.ofText text = .ok m)
    (h : m.improvements v = .ok hints) : ExactHints m v hints := by
  have hcheck := check_of_ofText hm
  have hnodup := (features_of_check hcheck).1
  obtain ⟨hv, current, fresh, hcurrent, hfresh, rfl⟩ := improvements_eq_ok.mp h
  have hmem : ∀ {hint}, hint ∈ fresh ↔ _ := mem_fresh_iff hcheck hv hcurrent hfresh
  have honce : (fresh.map (·.feature)).Nodup := hnodup.sublist (sublist_hintsFrom hfresh)
  have hnames : ((ranked fresh).map (·.feature)).Perm (fresh.map (·.feature)) := by
    rw [map_ranked fun _ _ => rfl]
    exact (List.mergeSort_perm _ _).map _
  refine ⟨?_, hnames.nodup_iff.mpr honce, ?_, sorted_ranked honce, ?_⟩
  · intro place f hf
    rw [hnames.mem_iff]
    constructor
    · intro hname
      obtain ⟨hint, hhint, hfeature⟩ := List.mem_map.mp hname
      obtain ⟨place', g, hg, -, hname', -, himproves⟩ := hmem.mp hhint
      have hplace := place_eq_of_name hnodup hg hf (hname'.trans hfeature)
      rw [hplace, hf, Option.some.injEq] at hg
      rw [hplace, ← hg] at himproves
      exact ⟨_, _, _, himproves⟩
    · rintro ⟨goal, before, after, himproves⟩
      exact exists_hint_of_improves hcheck hv hcurrent hfresh hf himproves
  · intro hint hhint
    have hzero : ∀ hint ∈ fresh, hint.rank = 0 := by
      intro hint hhint
      obtain ⟨_, _, -, hzero, -⟩ := hmem.mp hhint
      exact hzero
    obtain ⟨place, f, hf, -, hname, hvalue, himproves⟩ := hmem.mp (mem_ranked hzero hhint)
    exact ⟨place, f, hf, hname, hvalue, himproves⟩
  · have hlength := hnames.length_eq
    rw [List.length_map, List.length_map] at hlength
    rw [rank_ranked, hlength]

deriving instance DecidableEq for Hint

/-- A model two features of which come to the same score when they are brought to their
targets; the third has no target. -/
def evenText : String :=
  "\x7b\"format\":\"readscope-model\",\"version\":1,\"schema\":\"s\",\"link\":\"linear\"," ++
  "\"intercept\":0,\"features\":[\x7b\"name\":\"b\",\"weight\":-1,\"target\":0\x7d," ++
  "\x7b\"name\":\"a\",\"weight\":1,\"target\":1\x7d,\x7b\"name\":\"c\",\"weight\":1\x7d]\x7d"

/-- The model that is read from it. -/
def evenModel : Model :=
  ⟨formatTag, 1, "s", .linear, 0, .unit, .thirds,
    [⟨"b", -1, some 0⟩, ⟨"a", 1, some 1⟩, ⟨"c", 1, none⟩], ""⟩

def evenVector : Feature.Vector :=
  ⟨"s", ["b", "a", "c"], [1, 0, 0.5]⟩

def evenHints : List Hint :=
  [⟨1, "a", 0, 1, 0, 0.5⟩, ⟨2, "b", 1, 0, 0, 0.5⟩]

theorem ofText_evenText : Model.ofText evenText = .ok evenModel := by
  have hread : (Model.ofText evenText).toOption = some evenModel := by decide +kernel
  rcases hm : Model.ofText evenText with _ | m <;> rw [hm] at hread <;> cases hread
  rfl

theorem mergeSort_pair (a b : Hint) :
    [a, b].mergeSort Hint.ranksBefore = if a.ranksBefore b then [a, b] else [b, a] := by
  simp [List.mergeSort, List.merge]

/-- Of two features that come to the same score, the first by name comes first. -/
theorem improvements_evenVector : evenModel.improvements evenVector = .ok evenHints := by
  refine improvements_eq_ok.mpr ⟨rfl, 0, [⟨0, "b", 1, 0, 0, 0.5⟩, ⟨0, "a", 0, 1, 0, 0.5⟩],
    ?_, ?_, ?_⟩
  · decide +kernel
  · decide +kernel
  · have hlater : Hint.ranksBefore ⟨0, "b", 1, 0, 0, 0.5⟩ ⟨0, "a", 0, 1, 0, 0.5⟩ = false := rfl
    rw [ranked, mergeSort_pair, hlater]
    rfl

theorem improvements_exact_evenText :
    (Model.ofText evenText = .ok evenModel ∧ evenModel.improvements evenVector = .ok evenHints) ∧
      ExactHints evenModel evenVector evenHints :=
  ⟨⟨ofText_evenText, improvements_evenVector⟩,
    improvements_exact ofText_evenText improvements_evenVector⟩

end Readability.Model
