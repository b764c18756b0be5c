import Mathlib.Data.List.SplitBy
import Readability.Proofs.Arrival

/-!
# The records of a report over time

A report shows its records revision by revision, in the order of the walk, and the
records of one revision by path and line (`sortedRecords_eq_flatMap`). What is said
of the course of time is taken from the same blocks, the oldest revision first
(`chronological_sortedRecords`). Neither depends on how the outcomes came in:
`walked` and `timeline` are read off the places that were announced, and `block` off
the records.

Blocks of different revisions do not run into each other (`stretches_flatMap`), so
what is gathered from neighbours is gathered from revisions.
-/

namespace Readability.History.WalkOrder

/-- What goes from the oldest to the newest, in the order of a walk; and back. -/
def arrange {α : Type} (order : WalkOrder) (l : List α) : List α :=
  match order with
  | .chronological => l
  | .newestFirst => l.reverse

theorem arrange_perm {α : Type} (order : WalkOrder) (l : List α) : (order.arrange l).Perm l := by
  cases order
  · exact List.reverse_perm l
  · exact List.Perm.refl l

theorem arrange_arrange {α : Type} (order : WalkOrder) (l : List α) :
    order.arrange (order.arrange l) = l := by
  cases order
  · exact List.reverse_reverse l
  · rfl

theorem arrange_map {α β : Type} (order : WalkOrder) (f : α → β) (l : List α) :
    (order.arrange l).map f = order.arrange (l.map f) := by
  cases order
  · exact List.map_reverse ..
  · rfl

theorem arrange_filter {α : Type} (order : WalkOrder) (p : α → Bool) (l : List α) :
    (order.arrange l).filter p = order.arrange (l.filter p) := by
  cases order
  · exact List.filter_reverse ..
  · rfl

end Readability.History.WalkOrder

namespace Readability.Report

open Readability.History (WalkOrder)

/-! ## The records of one revision -/

/-- The order of the records of one revision: by path and line. -/
def Record.compareNames (r s : Record) : Ordering :=
  (compare r.unit.path s.unit.path).then (compare r.scopeLine s.scopeLine)

instance : Std.TransCmp Record.compareNames :=
  inferInstanceAs <| Std.TransCmp <|
    compareLex (compareOn fun r : Record => r.unit.path) (compareOn Record.scopeLine)

/-- Records of one revision in the order of a report. -/
def sortNames (records : List Record) : List Record :=
  records.mergeSort fun r s => (r.compareNames s).isLE

theorem sortNames_perm (records : List Record) : (sortNames records).Perm records :=
  List.mergeSort_perm _ _

theorem mem_sortNames {record : Record} {records : List Record} :
    record ∈ sortNames records ↔ record ∈ records :=
  (sortNames_perm records).mem_iff

/-- The records of one revision. -/
def ofRevision (id : String) (records : List Record) : List Record :=
  records.filter fun r => r.unit.revision == id

theorem mem_ofRevision {record : Record} {id : String} {records : List Record} :
    record ∈ ofRevision id records ↔ record ∈ records ∧ record.unit.revision = id := by
  rw [ofRevision, List.mem_filter, beq_iff_eq]

/-- Records as they follow each other, revision by revision. -/
def stretches (records : List Record) : List (List Record) :=
  records.splitBy fun r s => r.unit.revision == s.unit.revision

/-- Blocks of different revisions are the stretches of their records, but for those
without a record. -/
theorem stretches_flatMap {β : Type} {name : β → String} {f : β → List Record}
    (hf : ∀ b, ∀ r ∈ f b, r.unit.revision = name b) {l : List β} (hnames : (l.map name).Nodup) :
    stretches (l.flatMap f) = (l.map f).filter fun block => !block.isEmpty := by
  rw [List.flatMap_def, ← List.flatten_filter_not_isEmpty]
  refine List.splitBy_flatten ?_ ?_ ?_
  · rw [List.mem_filter]
    rintro ⟨-, hempty⟩
    cases hempty
  · intro block hblock
    obtain ⟨b, -, rfl⟩ := List.mem_map.mp (List.mem_filter.mp hblock).1
    refine List.Pairwise.isChain ?_
    refine List.Pairwise.imp_of_mem ?_ (List.pairwise_of_forall fun _ _ => trivial)
    intro x y hx hy _
    rw [hf b x hx, hf b y hy]
    exact beq_self_eq_true _
  · -- blocks of different revisions are told apart where they meet
    refine List.Pairwise.isChain ?_
    rw [List.pairwise_filter, List.pairwise_map]
    refine (List.pairwise_map.mp hnames).imp ?_
    intro b c hname hb hc
    rw [Bool.not_eq_true', List.isEmpty_eq_false_iff] at hb hc
    refine ⟨hb, hc, ?_⟩
    rw [hf b _ (List.getLast_mem hb), hf c _ (List.head_mem hc)]
    exact beq_false_of_ne hname

namespace Aggregator

/-- Records at one place are compared by name. -/
theorem compareRecords_of_place {a : Aggregator} {r s : Record}
    (h : a.sortPlace r.unit.revision = a.sortPlace s.unit.revision) :
    a.compareRecords r s = r.compareNames s := by
  rw [compareRecords, h, Std.compare_self]
  rfl

/-- Records at different places are in the order of these. -/
theorem compareRecords_of_lt {a : Aggregator} {r s : Record}
    (h : a.sortPlace r.unit.revision < a.sortPlace s.unit.revision) :
    (a.compareRecords r s).isLE = true ∧ (a.compareRecords s r).isLE = false := by
  rw [compareRecords, compareRecords, Nat.compare_eq_lt.mpr h, Nat.compare_eq_gt.mpr h]
  exact ⟨rfl, rfl⟩

/-- Means of what goes from the oldest to the newest, in the order of the walk. -/
theorem walkedSummaries_eq (a : Aggregator) (chronological : List Record) :
    a.walkedSummaries chronological = a.order.arrange (revisionSummaries chronological) := by
  rw [walkedSummaries]
  cases a.order <;> rfl

/-- Names whose places follow each other. -/
def Placed (a : Aggregator) (names : List String) : Prop :=
  names.Pairwise fun r s => ∃ i j, a.place? r = some i ∧ a.place? s = some j ∧ i < j

theorem Placed.nodup {a : Aggregator} {names : List String} (h : a.Placed names) :
    names.Nodup := by
  refine h.imp ?_
  rintro r s ⟨i, j, hi, hj, hij⟩ rfl
  rw [hi, Option.some.injEq] at hj
  omega

/-- Sorting by time turns the blocks round that a newest first walk left. -/
theorem chronological_flatMap {a : Aggregator} {order : WalkOrder} (horder : a.order = order)
    {β : Type} {name : β → String} {f : β → List Record}
    (hf : ∀ b, ∀ r ∈ f b, r.unit.revision = name b) {oldest : List β}
    (hplaced : a.Placed ((order.arrange oldest).map name)) :
    a.chronological ((order.arrange oldest).flatMap f) = oldest.flatMap f := by
  rw [chronological, horder]
  have hnodup := List.Nodup.of_map _ hplaced.nodup
  rw [Placed, List.pairwise_map] at hplaced
  cases order with
  | chronological => rfl
  | newestFirst =>
    dsimp only [WalkOrder.arrange] at hplaced hnodup ⊢
    rw [List.pairwise_reverse] at hplaced
    rw [List.nodup_reverse] at hnodup
    rw [Sorting.mergeSort_flatMap _ _ (List.reverse_perm oldest) hnodup]
    · -- within a block all places are the same
      refine List.flatMap_congr ?_
      intro b _
      refine List.mergeSort_of_pairwise ?_
      refine List.Pairwise.imp_of_mem ?_ (List.pairwise_of_forall fun _ _ => trivial)
      intro x y hx hy _
      rw [hf b x hx, hf b y hy]
      exact decide_eq_true (Nat.le_refl _)
    · refine hplaced.imp ?_
      rintro b c ⟨i, j, hi, hj, hij⟩ x hx y hy
      dsimp only
      rw [hf b x hx, hf c y hy, hi, hj]
      exact ⟨decide_eq_true hij.le, decide_eq_false hij.not_ge⟩
    · intro x y z hxy hyz
      rw [decide_eq_true_eq] at *
      exact hyz.trans hxy
    · intro x y
      rw [Bool.or_eq_true, decide_eq_true_eq, decide_eq_true_eq]
      exact Nat.le_total _ _

end Aggregator

/-! ## Each revision once -/

theorem nodup_eraseDups {α : Type} [BEq α] [LawfulBEq α] : ∀ l : List α, l.eraseDups.Nodup
  | [] => List.nodup_nil
  | a :: l => by
    rw [List.eraseDups_cons, List.nodup_cons, List.mem_eraseDups, List.mem_filter]
    refine ⟨?_, nodup_eraseDups _⟩
    rintro ⟨-, hne⟩
    rw [beq_self_eq_true] at hne
    cases hne
  termination_by l => l.length
  decreasing_by exact Nat.lt_succ_of_le (List.length_filter_le _ l)

/-- Outcomes whose revisions and places belong to each other, one to one, and whose
records are all of announced revisions. -/
structure OneToOne (l : List Outcome) : Prop where
  places : ∀ p ∈ announced l, ∀ q ∈ announced l, p.1 = q.1 ↔ p.2 = q.2
  scored : ∀ record, .scored record ∈ l → record.unit.revision ∈ (announced l).map (·.1)

/-- The announced revisions in the order of the walk, each of them once. -/
def walked (l : List Outcome) : List String :=
  ((announced l).eraseDups.mergeSort fun p q => p.2 ≤ q.2).map (·.1)

/-- The announced revisions, the oldest first, each of them once. -/
def timeline (order : WalkOrder) (l : List Outcome) : List String :=
  order.arrange (walked l)

/-- The records of a revision, by path and line. -/
def block (l : List Outcome) (id : String) : List Record :=
  sortNames (ofRevision id (l.filterMap Outcome.record?))

variable {order : WalkOrder} {l : List Outcome}

theorem mem_walked {id : String} : id ∈ walked l ↔ id ∈ (announced l).map (·.1) := by
  simp only [walked, List.mem_map, List.mem_mergeSort, List.mem_eraseDups]

theorem mem_timeline {id : String} : id ∈ timeline order l ↔ id ∈ (announced l).map (·.1) := by
  rw [timeline, (order.arrange_perm _).mem_iff, mem_walked]

theorem mem_block {record : Record} {id : String} :
    record ∈ block l id ↔ .scored record ∈ l ∧ record.unit.revision = id := by
  rw [block, mem_sortNames, mem_ofRevision, Aggregator.mem_records]

theorem revision_of_mem_block (id : String) : ∀ r ∈ block l id, r.unit.revision = id :=
  fun _ hr => (mem_block.mp hr).2

namespace OneToOne

variable (h : OneToOne l)

include h

theorem place?_of_mem {p : String × Nat} (hp : p ∈ announced l) :
    (Aggregator.collect order l).place? p.1 = some p.2 := by
  rw [Aggregator.place?_eq_some_iff_of_unique]
  · exact hp
  · intro q hq r hr hname
    exact Prod.ext hname ((h.places q hq r hr).mp hname)

/-- The walked revisions stand in the order of their places. -/
theorem placed_walked (order : WalkOrder) :
    (Aggregator.collect order l).Placed (walked l) := by
  have hmem : ∀ p ∈ (announced l).eraseDups.mergeSort fun p q => p.2 ≤ q.2, p ∈ announced l :=
    fun p hp => List.mem_eraseDups.mp (List.mem_mergeSort.mp hp)
  have hsorted : ((announced l).eraseDups.mergeSort fun p q => p.2 ≤ q.2).Pairwise
      fun p q => decide (p.2 ≤ q.2) = true := by
    refine List.pairwise_mergeSort ?_ ?_ _
    · intro p q r hpq hqr
      rw [decide_eq_true_eq] at *
      exact hpq.trans hqr
    · intro p q
      rw [Bool.or_eq_true, decide_eq_true_eq, decide_eq_true_eq]
      exact Nat.le_total _ _
  have hnodup := (List.mergeSort_perm (announced l).eraseDups fun p q => p.2 ≤ q.2).nodup_iff.mpr
    (nodup_eraseDups _)
  rw [Aggregator.Placed, walked, List.pairwise_map]
  refine (hsorted.and hnodup).imp_of_mem ?_
  rintro p q hp hq ⟨hle, hne⟩
  refine ⟨p.2, q.2, h.place?_of_mem (hmem p hp), h.place?_of_mem (hmem q hq), ?_⟩
  -- one place is of one revision only
  refine Nat.lt_of_le_of_ne (of_decide_eq_true hle) fun hplace => hne ?_
  exact Prod.ext ((h.places p (hmem p hp) q (hmem q hq)).mpr hplace) hplace

theorem nodup_walked : (walked l).Nodup :=
  (h.placed_walked .chronological).nodup

theorem nodup_timeline (order : WalkOrder) : (timeline order l).Nodup :=
  (order.arrange_perm _).nodup_iff.mpr h.nodup_walked

/-- **A report shows the blocks of its revisions**, in the order of the walk. -/
theorem sortedRecords_eq_flatMap (order : WalkOrder) :
    (Aggregator.collect order l).sortedRecords = (walked l).flatMap (block l) := by
  rw [Aggregator.sortedRecords, Aggregator.collect_records,
    Sorting.mergeSort_eq_flatMap Sorting.isLE_trans_of_cmp Sorting.isLE_total_of_cmp
      (fun r : Record => r.unit.revision) h.nodup_walked]
  · refine List.flatMap_congr ?_
    intro id _
    refine Sorting.mergeSort_congr_of_mem ?_
    intro r hr s hs
    rw [Aggregator.compareRecords_of_place]
    rw [(mem_ofRevision.mp hr).2, (mem_ofRevision.mp hs).2]
  · intro r hr
    exact mem_walked.mpr (h.scored r (Aggregator.mem_records.mp hr))
  · refine (h.placed_walked order).imp ?_
    rintro id id' ⟨i, j, hi, hj, hij⟩ r hr s hs
    refine Aggregator.compareRecords_of_lt ?_
    rw [(mem_ofRevision.mp hr).2, (mem_ofRevision.mp hs).2, Aggregator.sortPlace,
      Aggregator.sortPlace, hi, hj]
    exact hij

/-- **Over time they stand from the oldest to the newest.** -/
theorem chronological_sortedRecords (order : WalkOrder) :
    (Aggregator.collect order l).chronological (Aggregator.collect order l).sortedRecords =
      (timeline order l).flatMap (block l) := by
  have hwalked : walked l = order.arrange (timeline order l) :=
    (order.arrange_arrange (walked l)).symm
  have hplaced := h.placed_walked order
  rw [hwalked, ← List.map_id (order.arrange _)] at hplaced
  rw [h.sortedRecords_eq_flatMap, hwalked]
  exact Aggregator.chronological_flatMap (Aggregator.collect_order order l) revision_of_mem_block
    hplaced

end OneToOne

end Readability.Report
