import Readability.Proofs.Doubles
import Readability.Proofs.Timeline

/-!
# The means of the revisions

The means of a report are gathered from neighbours among its records over time. These
are the blocks of its revisions, so each revision with a record has one mean and no
other has any (`revisionSummaries_flatMap`). A mean is the sum of the revision's
scores, in the order in which the report shows them, by their number; a single score
is its own mean, because division by one changes no double (`meanFrom_eq`).

Changes are taken along the course of time (`isChain_withDeltas`) and shown in the
order of the walk:

> `finish_ofRevisions`: in both orders of the walk a report says of each revision what
> it is to say (`OfRevisions`), and of no other.
-/

namespace Readability.Report

open Readability.History (WalkOrder)

/-! ## One revision -/

/-- A mean is the sum of the scores by their number. -/
theorem meanFrom_eq (first : Float) (rest : List Float) :
    meanFrom first rest = Number.total (first :: rest) / (rest.length + 1).toFloat := by
  rw [Number.total_cons, meanFrom]
  cases rest with
  | nil =>
    have hone : (([] : List Float).length + 1).toFloat = 1 := rfl
    rw [hone, Number.div_one]
    rfl
  | cons score rest => rfl

theorem revisionSummary?_eq_some {records : List Record} {s : RevisionSummary}
    (h : revisionSummary? records = some s) :
    s.units = records.length ∧
      s.mean = Number.total (records.map (·.score)) / s.units.toFloat ∧ s.delta = none := by
  cases records with
  | nil => cases h
  | cons r rest =>
    cases h
    refine ⟨rfl, ?_, rfl⟩
    dsimp only
    rw [meanFrom_eq, List.length_map]
    rfl

theorem revisionSummary?_eq_none_iff (records : List Record) :
    revisionSummary? records = none ↔ records = [] := by
  cases records with
  | nil => exact iff_of_true rfl rfl
  | cons r rest => exact iff_of_false (Option.some_ne_none _) (List.cons_ne_nil r rest)

/-- A revision is summed up under its own name if it has a record. -/
theorem revision_revisionSummary? {id : String} {records : List Record}
    (h : ∀ r ∈ records, r.unit.revision = id) :
    (revisionSummary? records).map (·.revision) = if records.isEmpty then none else some id := by
  cases records with
  | nil => rfl
  | cons r rest => exact congrArg some (h r (List.mem_cons_self ..))

/-! ## All revisions -/

/-- Each block with a record has its summary. -/
theorem revisionSummaries_flatMap {f : String → List Record}
    (hf : ∀ id, ∀ r ∈ f id, r.unit.revision = id) {ids : List String} (hnodup : ids.Nodup) :
    revisionSummaries (ids.flatMap f) =
      withDeltas (ids.filterMap fun id => revisionSummary? (f id)) := by
  have hnames : (ids.map id).Nodup := by rwa [List.map_id]
  have hstretches := stretches_flatMap hf hnames
  show withDeltas ((stretches (ids.flatMap f)).filterMap revisionSummary?) = _
  rw [hstretches, List.filterMap_filter, List.filterMap_map]
  refine congrArg withDeltas (List.filterMap_congr ?_)
  intro id _
  cases hblock : f id <;> simp [hblock, revisionSummary?]

/-- What is said of a summary without its change. -/
theorem map_withDeltas {β : Type} {f : RevisionSummary → β}
    (hf : ∀ (s : RevisionSummary) delta, f { s with delta } = f s)
    (summaries : List RevisionSummary) :
    (withDeltas summaries).map f = summaries.map f := by
  cases summaries with
  | nil => rfl
  | cons first rest =>
    have hlen : rest.length ≤ (first :: rest).length := Nat.le_succ _
    rw [withDeltas, List.map_cons, List.map_zipWith, List.map_cons]
    simp only [hf]
    rw [← List.map_uncurry_zip_eq_zipWith]
    show f first :: (rest.zip (first :: rest)).map (f ∘ Prod.fst) = f first :: rest.map f
    rw [← List.map_map, List.map_fst_zip hlen]

theorem mem_of_mem_withDeltas {summaries : List RevisionSummary}
    (hplain : ∀ s ∈ summaries, s.delta = none) {s : RevisionSummary}
    (hs : s ∈ withDeltas summaries) : { s with delta := none } ∈ summaries := by
  have hmap := List.mem_map_of_mem (f := fun s : RevisionSummary => { s with delta := none }) hs
  rw [map_withDeltas fun _ _ => rfl] at hmap
  obtain ⟨t, ht, heq⟩ := List.mem_map.mp hmap
  rw [← heq, ← hplain t ht]
  exact ht

/-- Each summary has its change against the one before it. -/
theorem isChain_withDeltas (summaries : List RevisionSummary) :
    (withDeltas summaries).IsChain fun older newer =>
      newer.delta = some (newer.mean - older.mean) := by
  -- the one before may have got its change by then; its mean is the same
  have hrest : ∀ (rest : List RevisionSummary) (first older : RevisionSummary),
      older.mean = first.mean →
      (older :: List.zipWith (fun now before => { now with delta := some (now.mean - before.mean) })
        rest (first :: rest)).IsChain fun older newer =>
          newer.delta = some (newer.mean - older.mean) := by
    intro rest
    induction rest with
    | nil => exact fun _ _ _ => List.isChain_singleton _
    | cons now rest ih =>
      intro first older hmean
      rw [List.zipWith_cons_cons, List.isChain_cons_cons, hmean]
      exact ⟨rfl, ih now _ rfl⟩
  cases summaries with
  | nil => exact List.isChain_nil
  | cons first rest => exact hrest rest first first rfl

theorem head?_withDeltas (summaries : List RevisionSummary) :
    (withDeltas summaries).head? = summaries.head? := by
  cases summaries <;> rfl

/-- One name counts once, if it is there at all. -/
theorem eraseDups_of_forall_eq {id : String} {names : List String} (h : ∀ name ∈ names, name = id) :
    names.eraseDups = if names.isEmpty then [] else [id] := by
  cases names with
  | nil => rfl
  | cons name rest =>
    obtain ⟨rfl, hrest⟩ := List.forall_mem_cons.mp h
    have hnone : (rest.filter fun other => !other == name) = [] := by
      refine List.filter_eq_nil_iff.mpr ?_
      intro other hother
      rw [hrest other hother, beq_self_eq_true]
      exact Bool.false_ne_true
    rw [List.eraseDups_cons, hnone]
    rfl

/-- The names of blocks, in the order of their first records. -/
theorem eraseDups_flatMap {f : String → List Record}
    (hf : ∀ id, ∀ r ∈ f id, r.unit.revision = id) :
    ∀ ids : List String, ids.Nodup →
      ((ids.flatMap f).map (·.unit.revision)).eraseDups = ids.filter fun id => !(f id).isEmpty := by
  intro ids
  induction ids with
  | nil => exact fun _ => rfl
  | cons id ids ih =>
    intro hnodup
    obtain ⟨hid, hnodup⟩ := List.nodup_cons.mp hnodup
    have hblock : ∀ name ∈ (f id).map (·.unit.revision), name = id :=
      List.forall_mem_map.mpr (hf id)
    -- the name of the first block does not come again
    have hrest : ((ids.flatMap f).map (·.unit.revision)).removeAll
        ((f id).map (·.unit.revision)) = (ids.flatMap f).map (·.unit.revision) := by
      refine List.filter_eq_self.mpr (List.forall_mem_map.mpr ?_)
      intro r hr
      obtain ⟨id', hid', hr⟩ := List.mem_flatMap.mp hr
      rw [Bool.not_eq_true', ← Bool.not_eq_true, List.elem_iff, hf id' r hr]
      exact fun hagain => hid (hblock id' hagain ▸ hid')
    rw [List.flatMap_cons, List.map_append, List.eraseDups_append, hrest, ih hnodup,
      eraseDups_of_forall_eq hblock, List.isEmpty_map, List.filter_cons]
    cases (f id).isEmpty <;> rfl

/-! ## The report -/

/-- What a report has to say of the revisions. -/
structure OfRevisions (order : WalkOrder) (l : List Outcome) (report : Report) : Prop where
  /-- Revisions with a record are named, and no others. -/
  named : ∀ id, id ∈ report.revisions.map (·.revision) ↔
    ∃ record, .scored record ∈ l ∧ record.unit.revision = id
  nodup : (report.revisions.map (·.revision)).Nodup
  /-- They stand in the order of their first records. -/
  inOrder : report.revisions.map (·.revision) =
    (report.records.map (·.unit.revision)).eraseDups
  units : ∀ s ∈ report.revisions, s.units = (block l s.revision).length
  mean : ∀ s ∈ report.revisions,
    s.mean = Number.total ((block l s.revision).map (·.score)) / s.units.toFloat
  allUnits : (report.revisions.map (·.units)).sum = report.records.length
  /-- The oldest one has no change. -/
  oldest : ∀ s ∈ (order.arrange report.revisions).head?, s.delta = none
  /-- All others change against the one before them in time. -/
  changes : (order.arrange report.revisions).IsChain fun older newer =>
    newer.delta = some (newer.mean - older.mean)

variable {l : List Outcome}

/-- The summaries of the revisions over time, without their changes. -/
def unchanged (order : WalkOrder) (l : List Outcome) : List RevisionSummary :=
  (timeline order l).filterMap fun id => revisionSummary? (block l id)

theorem mem_unchanged {order : WalkOrder} {s : RevisionSummary} (hs : s ∈ unchanged order l) :
    s.units = (block l s.revision).length ∧
      s.mean = Number.total ((block l s.revision).map (·.score)) / s.units.toFloat ∧
      s.delta = none := by
  obtain ⟨id, -, hsummary⟩ := List.mem_filterMap.mp hs
  have hname : some s.revision = if (block l id).isEmpty then none else some id := by
    rw [← revision_revisionSummary? (revision_of_mem_block id), hsummary]
    rfl
  split_ifs at hname
  cases hname
  exact revisionSummary?_eq_some hsummary

theorem map_revision_unchanged (order : WalkOrder) :
    (unchanged order l).map (·.revision) =
      (timeline order l).filter fun id => !(block l id).isEmpty := by
  rw [unchanged, List.map_filterMap, ← List.filterMap_eq_filter]
  refine List.filterMap_congr ?_
  intro id _
  rw [revision_revisionSummary? (revision_of_mem_block id)]
  cases hempty : (block l id).isEmpty <;> simp [Option.guard, hempty]

theorem sum_units_unchanged (order : WalkOrder) :
    ((unchanged order l).map (·.units)).sum = ((timeline order l).flatMap (block l)).length := by
  rw [unchanged]
  induction timeline order l with
  | nil => rfl
  | cons id ids ih =>
    rw [List.flatMap_cons, List.length_append, ← ih, List.filterMap_cons]
    cases hsummary : revisionSummary? (block l id) with
    | none =>
      rw [(revisionSummary?_eq_none_iff _).mp hsummary]
      exact (Nat.zero_add _).symm
    | some s =>
      rw [← (revisionSummary?_eq_some hsummary).1]
      exact List.sum_cons

section

variable (h : OneToOne l)

include h

/-- The revisions of a report over time. -/
theorem revisions_finish (order : WalkOrder) (about : Meta) (runId : String)
    (now : Time.Instant) :
    ((Aggregator.collect order l).finish about runId now).revisions =
      order.arrange (withDeltas (unchanged order l)) := by
  rw [unchanged, ← revisionSummaries_flatMap revision_of_mem_block (h.nodup_timeline order),
    ← h.chronological_sortedRecords order]
  show (Aggregator.collect order l).walkedSummaries _ = _
  rw [Aggregator.walkedSummaries_eq, Aggregator.collect_order]

/-- **A report says of each revision what it is to say**, in both orders of the walk. -/
theorem finish_ofRevisions (order : WalkOrder) (about : Meta) (runId : String)
    (now : Time.Instant) :
    OfRevisions order l ((Aggregator.collect order l).finish about runId now) := by
  have hrecords : ((Aggregator.collect order l).finish about runId now).records =
      (walked l).flatMap (block l) := h.sortedRecords_eq_flatMap order
  have hrevisions := revisions_finish h order about runId now
  have hnames : (((Aggregator.collect order l).finish about runId now).revisions).map
      (·.revision) = (walked l).filter fun id => !(block l id).isEmpty := by
    rw [hrevisions, WalkOrder.arrange_map, map_withDeltas fun _ _ => rfl, map_revision_unchanged,
      ← WalkOrder.arrange_filter, timeline, WalkOrder.arrange_arrange]
  have hpart : ∀ s ∈ ((Aggregator.collect order l).finish about runId now).revisions,
      { s with delta := none } ∈ unchanged order l := by
    intro s hs
    rw [hrevisions, (order.arrange_perm _).mem_iff] at hs
    exact mem_of_mem_withDeltas (fun t ht => (mem_unchanged ht).2.2) hs
  refine ⟨?_, ?_, ?_, ?_, ?_, ?_, ?_, ?_⟩
  · intro id
    rw [hnames, List.mem_filter, mem_walked, Bool.not_eq_true',
      List.isEmpty_eq_false_iff_exists_mem]
    simp only [mem_block]
    constructor
    · exact fun hid => hid.2
    · rintro ⟨record, hrecord, rfl⟩
      exact ⟨h.scored record hrecord, record, hrecord, rfl⟩
  · rw [hnames]
    exact h.nodup_walked.filter _
  · rw [hnames, hrecords, eraseDups_flatMap revision_of_mem_block _ h.nodup_walked]
  · exact fun s hs => (mem_unchanged (hpart s hs)).1
  · exact fun s hs => (mem_unchanged (hpart s hs)).2.1
  · rw [hrevisions, hrecords, WalkOrder.arrange_map, map_withDeltas fun _ _ => rfl,
      (order.arrange_perm _).sum_nat, sum_units_unchanged]
    exact ((order.arrange_perm (walked l)).flatMap_right _).length_eq
  · rw [hrevisions, WalkOrder.arrange_arrange, head?_withDeltas]
    intro s hs
    exact (mem_unchanged (List.mem_of_mem_head? hs)).2.2
  · rw [hrevisions, WalkOrder.arrange_arrange]
    exact isChain_withDeltas _

end

/-- Three revisions, the newest first; the scores of two of them come in any order, and
the oldest has none. -/
def mixedArrival : List Outcome :=
  let file (path revision : String) (score : Float) : Outcome :=
    .scored ⟨.file path revision, .python, default, score, .low, .epoch⟩
  [.revision 0 ⟨"r2", ["r1"], .epoch, "", "", []⟩, file "b.py" "r1" 0.5, file "b.py" "r2" 1,
    .revision 1 ⟨"r1", ["r0"], .epoch, "", "", []⟩, file "a.py" "r2" 0.25, file "a.py" "r1" 0,
    .revision 2 ⟨"r0", [], .epoch, "", "", []⟩]

theorem finish_ofRevisions_mixedArrival :
    OneToOne mixedArrival ∧
      OfRevisions .newestFirst mixedArrival
        ((Aggregator.collect .newestFirst mixedArrival).finish ⟨"", "", .blank, false⟩ ""
          .epoch) := by
  have hone : OneToOne mixedArrival := by
    refine ⟨by decide, ?_⟩
    simp [mixedArrival, announced, Outcome.announced?, Source.UnitId.file]
  exact ⟨hone, finish_ofRevisions hone .newestFirst _ _ _⟩

end Readability.Report
