import Readability.Proofs.StableSort
import Readability.Report.Summary

/-!
# What a summary says of the scores

The total order of doubles tells any two of them apart that differ in a bit
(`orderKey_injective`): the two zeros, and what is no number from what is one. So
scores have one ascending order, whatever the order of their records
(`sortedScores_perm`), and a summary, which is taken from it, hangs on the order of
the records in its trend alone (`summarize_perm`).

A sorted list can be cut anywhere, and what is cut off below comes before the rest
(`splits_of_pairwise`). The ends of the list are the extremes and its middle is the
median:

> `summarize_describes`: a summary counts the scores, and gives their least, their
> greatest and their middle, and the mean of their ascending order.
-/

namespace Readability.Number

theorem orderKey_injective : Function.Injective orderKey := by
  intro f g h
  have hbits : f.toBits = g.toBits := by
    have hf := f.toBits.toNat_lt
    have hg := g.toBits.toNat_lt
    simp only [orderKey] at h
    rw [← UInt64.toNat_inj]
    split_ifs at h <;> omega
  rcases f with ⟨⟨x, hx⟩⟩
  rcases g with ⟨⟨y, hy⟩⟩
  have hsame : x = y := hbits
  subst hsame
  rfl

theorem leTotal_antisymm {x y : Float} (hxy : leTotal x y = true) (hyx : leTotal y x = true) :
    x = y := by
  rw [leTotal, decide_eq_true_eq] at hxy hyx
  exact orderKey_injective (Int.le_antisymm hxy hyx)

end Readability.Number

namespace Readability.Report

open Readability.Number (leTotal)

/-! ## The ascending order -/

theorem sortedScores_pairwise (records : List Record) :
    (sortedScores records).Pairwise fun x y => leTotal x y = true := by
  have htrans : ∀ x y z : Float, leTotal x y = true → leTotal y z = true → leTotal x z = true :=
    fun _ _ _ => Number.leTotal_trans
  exact List.pairwise_mergeSort htrans Number.leTotal_total _

theorem sortedScores_perm_scores (records : List Record) :
    (sortedScores records).Perm (records.map (·.score)) :=
  List.mergeSort_perm _ _

theorem length_sortedScores (records : List Record) :
    (sortedScores records).length = records.length := by
  rw [(sortedScores_perm_scores records).length_eq, List.length_map]

theorem sortedScores_eq_nil_iff (records : List Record) :
    sortedScores records = [] ↔ records = [] := by
  rw [← List.length_eq_zero_iff, length_sortedScores, List.length_eq_zero_iff]

/-- Scores have one ascending order. -/
theorem eq_sortedScores {records : List Record} {ascending : List Float}
    (hperm : ascending.Perm (records.map (·.score)))
    (hpairwise : ascending.Pairwise fun x y => leTotal x y = true) :
    ascending = sortedScores records :=
  (hperm.trans (sortedScores_perm_scores records).symm).eq_of_pairwise
    (fun _ _ _ _ => Number.leTotal_antisymm) hpairwise (sortedScores_pairwise records)

theorem sortedScores_perm {l₁ l₂ : List Record} (h : l₁.Perm l₂) :
    sortedScores l₁ = sortedScores l₂ :=
  eq_sortedScores ((sortedScores_perm_scores l₁).trans (h.map _)) (sortedScores_pairwise l₁)

/-- A summary hangs on the order of the records in its trend alone. -/
theorem summarize_perm {l₁ l₂ : List Record} (h : l₁.Perm l₂) (failures : Nat) :
    summarize l₁ failures = { summarize l₂ failures with trendPerDay := trend l₁ } := by
  have hbands : bandCounts l₁ = bandCounts l₂ := by
    rw [bandCounts, bandCounts, h.countP_eq, h.countP_eq, h.countP_eq]
  rw [summarize, summarize, sortedScores_perm h, hbands]

/-- Each record lies in one of the three bands. -/
theorem bandCounts_sum (records : List Record) :
    (bandCounts records).low + (bandCounts records).medium + (bandCounts records).high =
      records.length := by
  simp only [bandCounts]
  induction records with
  | nil => rfl
  | cons r records ih =>
    rw [List.countP_cons, List.countP_cons, List.countP_cons, List.length_cons, ← ih]
    cases hband : r.band <;> simp <;> omega

/-! ## Splitting the scores -/

/-- Scores split around some of them: as many come before these as come after
them, ties on either side. -/
structure SplitsAround (scores below middle above : List Float) : Prop where
  perm : scores.Perm (below ++ middle ++ above)
  balanced : below.length = above.length
  below : ∀ x ∈ below, ∀ m ∈ middle, leTotal x m = true
  above : ∀ x ∈ above, ∀ m ∈ middle, leTotal m x = true

/-- Sorted scores split around any stretch in their middle. -/
theorem splits_of_pairwise {scores below middle above : List Float}
    (hperm : (below ++ middle ++ above).Perm scores)
    (hsorted : (below ++ middle ++ above).Pairwise fun x y => leTotal x y = true)
    (hbalanced : below.length = above.length) : SplitsAround scores below middle above := by
  rw [List.append_assoc, List.pairwise_append, List.pairwise_append] at hsorted
  obtain ⟨-, ⟨-, -, hmiddle⟩, hbelow⟩ := hsorted
  refine ⟨hperm.symm, hbalanced, ?_, ?_⟩
  · intro x hx m hm
    exact hbelow x hx m (List.mem_append_left above hm)
  · intro x hx m hm
    exact hmiddle m hm x hx

/-- The middle one of an odd number of scores. -/
theorem median_odd {records : List Record} (hodd : records.length % 2 = 1) :
    ∃ m below above, median? (sortedScores records) = some m ∧
      SplitsAround (records.map (·.score)) below [m] above ∧
      below.length = (records.length - 1) / 2 := by
  have hlen := length_sortedScores records
  have hmid : records.length / 2 < (sortedScores records).length := by omega
  -- the middle one is cut out of the sorted scores
  have hcut : sortedScores records = (sortedScores records).take (records.length / 2) ++
      [(sortedScores records)[records.length / 2]] ++
      (sortedScores records).drop (records.length / 2 + 1) := by
    rw [List.append_assoc, List.singleton_append, ← List.drop_eq_getElem_cons hmid,
      List.take_append_drop]
  refine ⟨_, _, _, ?_, splits_of_pairwise (hcut ▸ sortedScores_perm_scores records)
    (hcut ▸ sortedScores_pairwise records) ?_, ?_⟩
  · rw [median?, hlen, hodd]
    exact List.getElem?_eq_getElem hmid
  · rw [List.length_take, List.length_drop]
    omega
  · rw [List.length_take]
    omega

/-- The middle two of an even number of scores. -/
theorem median_even {records : List Record} (hsome : records ≠ [])
    (heven : records.length % 2 = 0) :
    ∃ x y below above, median? (sortedScores records) = some ((x + y) / 2) ∧
      leTotal x y = true ∧ SplitsAround (records.map (·.score)) below [x, y] above ∧
      below.length = (records.length - 2) / 2 := by
  have hlen := length_sortedScores records
  have hpos := List.length_pos_iff.mpr hsome
  obtain ⟨half, hhalf⟩ : ∃ half, records.length / 2 = half + 1 := ⟨records.length / 2 - 1, by omega⟩
  have hfirst : half < (sortedScores records).length := by omega
  have hsecond : half + 1 < (sortedScores records).length := by omega
  have hcut : sortedScores records = (sortedScores records).take half ++
      [(sortedScores records)[half], (sortedScores records)[half + 1]] ++
      (sortedScores records).drop (half + 1 + 1) := by
    rw [List.append_assoc, List.cons_append, List.singleton_append,
      ← List.drop_eq_getElem_cons hsecond, ← List.drop_eq_getElem_cons hfirst,
      List.take_append_drop]
  refine ⟨_, _, _, _, ?_, ?_, splits_of_pairwise (hcut ▸ sortedScores_perm_scores records)
    (hcut ▸ sortedScores_pairwise records) ?_, ?_⟩
  · rw [median?, hlen, heven, hhalf, Nat.add_sub_cancel, List.getElem?_eq_getElem hfirst,
      List.getElem?_eq_getElem hsecond]
    rfl
  · exact List.pairwise_iff_getElem.mp (sortedScores_pairwise records) _ _ hfirst hsecond
      (Nat.lt_succ_self half)
  · rw [List.length_take, List.length_drop]
    omega
  · rw [List.length_take]
    omega

/-! ## The extremes -/

/-- The first of the ascending scores is the least one. -/
theorem head?_sortedScores_eq_some_iff (records : List Record) (x : Float) :
    (sortedScores records).head? = some x ↔
      x ∈ records.map (·.score) ∧ ∀ y ∈ records.map (·.score), leTotal x y = true := by
  have hperm := sortedScores_perm_scores records
  have hsorted := sortedScores_pairwise records
  simp only [← hperm.mem_iff]
  rcases hlist : sortedScores records with _ | ⟨least, rest⟩
  · simp
  · rw [hlist, List.pairwise_cons] at hsorted
    have hleast : ∀ y ∈ least :: rest, leTotal least y = true :=
      List.forall_mem_cons.mpr ⟨Number.leTotal_refl least, hsorted.1⟩
    rw [List.head?_cons, Option.some.injEq]
    constructor
    · rintro rfl
      exact ⟨List.mem_cons_self .., hleast⟩
    · rintro ⟨hx, hall⟩
      exact Number.leTotal_antisymm (hleast x hx) (hall least (List.mem_cons_self ..))

/-- The last of the ascending scores is the greatest one. -/
theorem getLast?_sortedScores_eq_some_iff (records : List Record) (x : Float) :
    (sortedScores records).getLast? = some x ↔
      x ∈ records.map (·.score) ∧ ∀ y ∈ records.map (·.score), leTotal y x = true := by
  have hperm := sortedScores_perm_scores records
  have hsorted := sortedScores_pairwise records
  simp only [← hperm.mem_iff]
  rcases (sortedScores records).eq_nil_or_concat with hnil | ⟨rest, greatest, hlist⟩
  · simp [hnil]
  · rw [hlist, List.concat_eq_append, List.pairwise_append] at hsorted
    have hgreatest : ∀ y ∈ rest ++ [greatest], leTotal y greatest = true := by
      intro y hy
      rcases List.mem_append.mp hy with hrest | hlast
      · exact hsorted.2.2 y hrest greatest (List.mem_singleton_self _)
      · rw [List.mem_singleton.mp hlast]
        exact Number.leTotal_refl greatest
    rw [hlist, List.concat_eq_append, List.getLast?_concat, Option.some.injEq]
    constructor
    · rintro rfl
      exact ⟨List.mem_append_right _ (List.mem_singleton_self _), hgreatest⟩
    · rintro ⟨hx, hall⟩
      exact Number.leTotal_antisymm (hall _ (List.mem_append_right _ (List.mem_singleton_self _)))
        (hgreatest x hx)

/-! ## The summary -/

/-- What a summary has to say of the scores of some records. -/
structure Describes (records : List Record) (s : Summary) : Prop where
  count : s.count = records.length
  bands : s.bands.low + s.bands.medium + s.bands.high = s.count
  min : ∀ x, s.min = some x ↔
    x ∈ records.map (·.score) ∧ ∀ y ∈ records.map (·.score), leTotal x y = true
  max : ∀ x, s.max = some x ↔
    x ∈ records.map (·.score) ∧ ∀ y ∈ records.map (·.score), leTotal y x = true
  /-- Of an odd number of scores the middle one, with as many before it as after it. -/
  medianOdd : s.count % 2 = 1 → ∃ m below above, s.median = some m ∧
    SplitsAround (records.map (·.score)) below [m] above ∧ below.length = (s.count - 1) / 2
  /-- Of an even number of scores half the sum of the middle two. -/
  medianEven : records ≠ [] → s.count % 2 = 0 → ∃ x y below above, s.median = some ((x + y) / 2) ∧
    leTotal x y = true ∧ SplitsAround (records.map (·.score)) below [x, y] above ∧
    below.length = (s.count - 2) / 2
  /-- The scores are added up in ascending order. -/
  mean : records ≠ [] → ∃ ascending : List Float, ascending.Perm (records.map (·.score)) ∧
    ascending.Pairwise (fun x y => leTotal x y = true) ∧
    s.mean = some (Number.total ascending / s.count.toFloat)
  mean_eq_none : s.mean = none ↔ records = []
  median_eq_none : s.median = none ↔ records = []
  min_eq_none : s.min = none ↔ records = []
  max_eq_none : s.max = none ↔ records = []

theorem mean?_eq_none_iff (scores : List Float) : mean? scores = none ↔ scores.isEmpty = true := by
  rw [mean?]
  split <;> simp_all

theorem median?_eq_none_iff (records : List Record) :
    median? (sortedScores records) = none ↔ records = [] := by
  constructor
  · intro hnone
    by_contra hsome
    rcases Nat.mod_two_eq_zero_or_one records.length with heven | hodd
    · obtain ⟨_, _, _, _, hmedian, -⟩ := median_even hsome heven
      rw [hnone] at hmedian
      cases hmedian
    · obtain ⟨_, _, _, hmedian, -⟩ := median_odd hodd
      rw [hnone] at hmedian
      cases hmedian
  · intro hnone
    rw [(sortedScores_eq_nil_iff records).mpr hnone]
    rfl

/-- **A summary says what it is to say, and the same of the same scores**, in
whatever order their records stand; its trend alone is another matter. -/
theorem summarize_describes {records others : List Record} (h : records.Perm others)
    (failures : Nat) :
    summarize others failures =
        { summarize records failures with trendPerDay := trend others } ∧
      (summarize records failures).failures = failures ∧
      Describes records (summarize records failures) := by
  have hcount : (summarize records failures).count = records.length := length_sortedScores records
  refine ⟨summarize_perm h.symm failures, rfl, hcount, ?_, head?_sortedScores_eq_some_iff records,
    getLast?_sortedScores_eq_some_iff records, ?_, ?_, ?_, ?_, median?_eq_none_iff records, ?_, ?_⟩
  · rw [hcount]
    exact bandCounts_sum records
  · rw [hcount]
    exact median_odd
  · rw [hcount]
    exact median_even
  · intro hsome
    have hne := mt (sortedScores_eq_nil_iff records).mp hsome
    refine ⟨_, sortedScores_perm_scores records, sortedScores_pairwise records, ?_⟩
    exact if_neg (mt List.isEmpty_iff.mp hne)
  · rw [← sortedScores_eq_nil_iff, ← List.isEmpty_iff]
    exact mean?_eq_none_iff _
  · rw [← sortedScores_eq_nil_iff]
    exact List.head?_eq_none_iff
  · rw [← sortedScores_eq_nil_iff]
    exact List.getLast?_eq_none_iff

/-- A record of a score, and nothing else to tell. -/
def scored (score : Float) : Record :=
  ⟨.file "a.py" "r1", .python, default, score, .low, .epoch⟩

/-- Of the two zeros the negative one is the less, wherever it stands. -/
theorem summarize_zeros :
    [scored 0, scored (-0), scored 1].Perm [scored 1, scored 0, scored (-0)] ∧
      (summarize [scored 0, scored (-0), scored 1] 2).min = some (-0) ∧
      (summarize [scored 1, scored 0, scored (-0)] 2).min = some (-0) := by
  have hperm : [scored 0, scored (-0), scored 1].Perm [scored 1, scored 0, scored (-0)] :=
    (List.perm_append_comm : ([scored 0, scored (-0)] ++ [scored 1]).Perm _)
  obtain ⟨hsame, -, hdescribes⟩ := summarize_describes hperm 2
  have hmin : (summarize [scored 0, scored (-0), scored 1] 2).min = some (-0) := by
    refine (hdescribes.min (-0)).mpr ⟨by simp [scored], ?_⟩
    simp only [List.map_cons, List.map_nil, scored]
    decide +kernel
  refine ⟨hperm, hmin, ?_⟩
  rw [hsame]
  exact hmin

end Readability.Report
