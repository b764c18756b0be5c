import Mathlib
import Readability.Proofs.Threads

/-!
# Functions of one unit in a report

A report sorts its records by revision, path and line. The functions of one unit share revision and
path, so if their lines come in order they stay as they are (`filter_sortedRecords`). The two orders
of the walk do not part them either (`filter_chronological`), and records of other units are not
counted with them (`filter_threadsFrom_isOf`).

> `finish_keepsOrder`: namesakes of a unit are numbered as they come in the list of its functions.
-/

namespace Readability.Report

open Readability.History (WalkOrder)
open Readability.Source (ScopeSpan UnitId)

/-- Whether a record is of the unit: of its path at its revision. -/
def Record.isOf (id : UnitId) (r : Record) : Bool :=
  r.unit.revision == id.revision && r.unit.path == id.path

theorem Record.isOf_iff {id : UnitId} {r : Record} :
    r.isOf id = true ↔ r.unit.revision = id.revision ∧ r.unit.path = id.path := by
  rw [isOf, Bool.and_eq_true, beq_iff_eq, beq_iff_eq]

/-- The records are of functions of the unit, one for each. -/
def AreOf (id : UnitId) (functions : List ScopeSpan) (records : List Record) : Prop :=
  records.map (·.unit) = functions.map id.withScope

/-- The threads of the functions of a unit. Each function is numbered by the functions of its name
before it. -/
def sourceThreads (id : UnitId) (functions : List ScopeSpan) : List Thread :=
  functions.mapIdx fun i span =>
    ⟨id.path, some span.name, (functions.take i).countP fun other => other.name == span.name⟩

/-- The entries of a report over records with their threads. -/
def entriesOver (threads : List (Thread × Record)) : List FileTrend :=
  let keyed := threads.map fun t => (t.1.key, t.2.score)
  ((keyed.map (·.1)).eraseDups.mergeSort fun a b => a ≤ b).map (fileTrend keyed)

/-- A report has the records of a unit's functions in the order of these, and so it numbers those of
one name. -/
structure KeepsOrder (report : Report) (id : UnitId) (functions : List ScopeSpan)
    (records : List Record) : Prop where
  order : report.records.filter (·.isOf id) = records
  threads : ∃ threads : List (Thread × Record), report.files = entriesOver threads ∧
    (threads.map (·.2)).Perm report.records ∧
    (threads.filter (·.2.isOf id)).map (·.2) = records ∧
    (threads.filter (·.2.isOf id)).map (·.1) = sourceThreads id functions

namespace Aggregator

variable {a : Aggregator} {id : UnitId}

theorem compareRecords_of_isOf {r s : Record} (hr : r.isOf id = true) (hs : s.isOf id = true) :
    a.compareRecords r s = compare r.scopeLine s.scopeLine := by
  rw [Record.isOf_iff] at hr hs
  rw [compareRecords, hr.1, hs.1, hr.2, hs.2, Std.compare_self, Std.compare_self]
  rfl

/-- **Records of a unit stay as they are** if their lines are in order. -/
theorem filter_sortedRecords
    (h : (a.records.filter (·.isOf id)).Pairwise fun r s => r.scopeLine ≤ s.scopeLine) :
    a.sortedRecords.filter (·.isOf id) = a.records.filter (·.isOf id) := by
  rw [sortedRecords,
    Sorting.filter_mergeSort Sorting.isLE_trans_of_cmp Sorting.isLE_total_of_cmp]
  refine List.mergeSort_of_pairwise (h.imp_of_mem fun hr hs hle => ?_)
  rw [compareRecords_of_isOf (List.mem_filter.mp hr).2 (List.mem_filter.mp hs).2]
  exact Nat.isLE_compare.mpr hle

/-- Records of one revision do not part when the revisions are turned round. -/
theorem filter_chronological (sorted : List Record) :
    (a.chronological sorted).filter (·.isOf id) = sorted.filter (·.isOf id) := by
  rw [chronological]
  cases a.order with
  | chronological => rfl
  | newestFirst =>
    dsimp only
    rw [Sorting.filter_mergeSort]
    · refine List.mergeSort_of_pairwise
        ((List.pairwise_of_forall fun _ _ => trivial).imp_of_mem fun {r s} hr hs _ => ?_)
      have hr := Record.isOf_iff.mp (List.mem_filter.mp hr).2
      have hs := Record.isOf_iff.mp (List.mem_filter.mp hs).2
      rw [hr.1, hs.1]
      exact decide_eq_true le_rfl
    · intro r s t hrs hst
      rw [decide_eq_true_eq] at *
      exact hst.trans hrs
    · intro r s
      rw [Bool.or_eq_true, decide_eq_true_eq, decide_eq_true_eq]
      exact Nat.le_total _ _

theorem chronological_perm (sorted : List Record) : (a.chronological sorted).Perm sorted := by
  rw [chronological]
  cases a.order with
  | chronological => exact List.Perm.refl sorted
  | newestFirst => exact List.mergeSort_perm _ _

end Aggregator

/-- **Records of other units are not counted** among the namesakes of a unit's functions. -/
theorem filter_threadsFrom_isOf (id : UnitId) : ∀ before records : List Record,
    (threadsFrom before records).filter (·.2.isOf id) =
      threadsFrom (before.filter (·.isOf id)) (records.filter (·.isOf id)) := by
  intro before records
  induction records generalizing before with
  | nil => rfl
  | cons r rest ih =>
    rw [threadsFrom, List.filter_cons, List.filter_cons, ih]
    rcases hr : r.isOf id with _ | _
    · rw [if_neg Bool.false_ne_true, if_neg Bool.false_ne_true,
        List.filter_cons_of_neg (by rw [hr]; exact Bool.false_ne_true)]
    · have hcount : before.countP r.isNamesake =
          (before.filter (·.isOf id)).countP r.isNamesake := by
        rw [List.countP_filter]
        refine List.countP_congr fun s _ => ?_
        rw [Record.isOf_iff] at hr
        simp only [Record.isNamesake, Record.isOf, hr.1, hr.2, Bool.and_eq_true, beq_iff_eq]
        constructor
        · rintro ⟨⟨hrevision, hpath⟩, hname⟩
          exact ⟨⟨⟨hrevision, hpath⟩, hname⟩, hrevision.symm, hpath.symm⟩
        · exact And.left
      rw [if_pos rfl, if_pos rfl, List.filter_cons_of_pos hr, threadsFrom, hcount]

/-- A record is numbered by its namesakes in front. -/
theorem getElem?_threadsFrom (before records : List Record) (i : Nat) :
    (threadsFrom before records)[i]? = records[i]?.map fun r =>
      (r.thread ((before.countP r.isNamesake) + (records.take i).countP r.isNamesake), r) := by
  induction records generalizing before i with
  | nil => rfl
  | cons r rest ih =>
    cases i with
    | zero => rfl
    | succ i =>
      rw [threadsFrom, List.getElem?_cons_succ, List.getElem?_cons_succ, ih]
      refine congrArg (Option.map · rest[i]?) (funext fun s => ?_)
      rw [List.take_succ_cons, List.countP_cons, List.countP_cons, Nat.add_assoc,
        Nat.add_comm (ite _ _ _)]

/-- Namesakes among the functions of a unit are those of one name. -/
theorem Record.isNamesake_of_units {id : UnitId} {r s : Record} {span other : ScopeSpan}
    (hr : r.unit = id.withScope span) (hs : s.unit = id.withScope other) :
    r.isNamesake s = (other.name == span.name) := by
  rw [isNamesake, scopeName, scopeName, hr, hs]
  change (id.revision == id.revision && id.path == id.path && span.name == other.name) = _
  rw [beq_self_eq_true, beq_self_eq_true, Bool.true_and, Bool.true_and, Bool.beq_comm]

section Functions

variable {id : UnitId} {functions : List ScopeSpan} {records : List Record}

theorem AreOf.forall₂ (hunits : AreOf id functions records) :
    List.Forall₂ (fun r span => r.unit = id.withScope span) records functions := by
  rw [AreOf, ← List.forall₂_eq_eq_eq, List.forall₂_map_left_iff,
    List.forall₂_map_right_iff] at hunits
  exact hunits

theorem map_scopeLine (hunits : AreOf id functions records) :
    records.map Record.scopeLine = functions.map (·.startLine) := by
  rw [← List.forall₂_eq_eq_eq, List.forall₂_map_left_iff, List.forall₂_map_right_iff]
  refine hunits.forall₂.imp fun r span hr => ?_
  rw [Record.scopeLine, hr]
  rfl

theorem countP_isNamesake (hunits : AreOf id functions records) {r : Record} {span : ScopeSpan}
    (hr : r.unit = id.withScope span) :
    records.countP r.isNamesake = functions.countP fun other => other.name == span.name := by
  have hpairs := hunits.forall₂
  clear hunits
  induction hpairs with
  | nil => rfl
  | cons hs _ ih =>
    rw [List.countP_cons, List.countP_cons, ih, Record.isNamesake_of_units hr hs]

/-- The functions of a unit have the threads that their list gives them. -/
theorem map_fst_threadsFrom (hunits : AreOf id functions records) :
    (threadsFrom [] records).map (·.1) = sourceThreads id functions := by
  rw [AreOf] at hunits
  refine List.ext_getElem? fun i => ?_
  have hunit : records[i]?.map (·.unit) = functions[i]?.map id.withScope := by
    rw [← List.getElem?_map, hunits, List.getElem?_map]
  have htake : AreOf id (functions.take i) (records.take i) := by
    rw [AreOf, List.map_take, hunits, List.map_take]
  rw [List.getElem?_map, getElem?_threadsFrom, sourceThreads, List.getElem?_mapIdx]
  rcases hspan : functions[i]? with _ | span <;> rw [hspan] at hunit
  · rw [Option.map_eq_none_iff.mp hunit]
    rfl
  · obtain ⟨r, hr, hunit⟩ := Option.map_eq_some_iff.mp hunit
    rw [hr, Option.map_some, Option.map_some, Option.map_some, List.countP_nil, Nat.zero_add,
      countP_isNamesake htake hunit, Record.thread, hunit]
    rfl

/-- **A report keeps the functions of a unit in order.** -/
theorem finish_keepsOrder {a : Aggregator}
    (hunits : AreOf id functions (a.records.filter (·.isOf id)))
    (hlines : functions.Pairwise fun span later => span.startLine ≤ later.startLine)
    (about : Meta) (runId : String) (now : Time.Instant) :
    KeepsOrder (a.finish about runId now) id functions (a.records.filter (·.isOf id)) := by
  have hpairwise : (a.records.filter (·.isOf id)).Pairwise
      fun r s => r.scopeLine ≤ s.scopeLine := by
    rw [← List.pairwise_map (f := Record.scopeLine) (R := (· ≤ ·)), map_scopeLine hunits,
      List.pairwise_map]
    exact hlines
  have hsorted := Aggregator.filter_sortedRecords hpairwise
  have hthreads : (threadsFrom [] (a.chronological a.sortedRecords)).filter (·.2.isOf id) =
      threadsFrom [] (a.records.filter (·.isOf id)) := by
    rw [filter_threadsFrom_isOf, List.filter_nil, Aggregator.filter_chronological, hsorted]
  refine ⟨hsorted, threadsFrom [] (a.chronological a.sortedRecords), ?_, ?_, ?_, ?_⟩
  · show fileTrends _ = _
    rw [fileTrends, keyedFrom_eq_map]
    rfl
  · rw [map_snd_threadsFrom]
    exact Aggregator.chronological_perm _
  · rw [hthreads, map_snd_threadsFrom]
  · rw [hthreads, map_fst_threadsFrom hunits]

end Functions

end Readability.Report
