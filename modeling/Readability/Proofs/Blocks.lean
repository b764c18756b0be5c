import Readability.Proofs.Accounting
import Readability.Proofs.Timeline

/-!
# Reports, revision by revision

The report of an undisturbed run shows its records in blocks, one for each revision
of the walk (`Orderly.records_eq`). A block holds the records of the paths that were
chosen (`recordsAt`), sorted by path and line. When digests do not collide it does
not matter whose scores a path was told: the records are those of its own scores,
and a refusal stays a refusal (`records_told`, `refusals_told`).

So what a run comes to is a matter of its revisions and of what is chosen at each:

> `Orderly.run_cases`: the run fails exactly when its model takes none of the
> units (`Mismatched`), and else shows the blocks.

The means and trends of a report are taken over the same blocks, the oldest revision
first (`Orderly.chronological_eq`).
-/

namespace Readability.History.Memory

/-- A walk yields the revisions of the chronological one, in its own order. -/
theorem walk_arrange (h : Memory) (range : RevisionRange) (order : WalkOrder) :
    h.walk range order = (h.walk range .chronological).map order.arrange := by
  rw [walk, walk]
  rcases h.upperIndex range.upper with e | last
  · rfl
  rcases h.lowerCount range.lower with e | first
  · rfl
  cases order
  · exact congrArg Except.ok (List.reverse_reverse _).symm
  · rfl

end Readability.History.Memory

namespace Readability.Run.Job

open Readability.History (Memory Revision WalkOrder)
open Readability.Report (Aggregator Failure Outcome Record sortNames mem_sortNames)
open Readability.Source (SourceUnit UnitError UnitId)

variable {job : Job} {units : List SourceUnit} {revision : Revision} {path : String}

/-! ## What is shown of a path -/

/-- The records of a path at a revision, under its own scores. -/
def recordsOf (job : Job) (revision : Revision) (path : String) : List Record :=
  (job.told job.scores revision path).filterMap Outcome.record?

/-- The records of a revision. -/
def recordsAt (job : Job) (revision : Revision) : List Record :=
  (job.chosen revision).flatMap (job.recordsOf revision)

/-- The records of a revision as a report shows them. -/
def block (job : Job) (revision : Revision) : List Record :=
  sortNames (job.recordsAt revision)

/-- What a failure says apart from its words: the unit, and whether the model was to
blame. -/
def refusal (f : Failure) : UnitId × Bool :=
  (f.unit, f.error.isMismatch)

/-- The refusals of a path at a revision, under its own scores. -/
def refusalsOf (job : Job) (revision : Revision) (path : String) : List (UnitId × Bool) :=
  ((job.told job.scores revision path).filterMap Outcome.failure?).map refusal

/-- The refusals of a revision. -/
def refusalsAt (job : Job) (revision : Revision) : List (UnitId × Bool) :=
  (job.chosen revision).flatMap (job.refusalsOf revision)

/-- The model took none of the units of some revisions, and there was one. -/
def Mismatched (job : Job) (revisions : List Revision) : Prop :=
  revisions.flatMap job.recordsAt = [] ∧ revisions.flatMap job.refusalsAt ≠ [] ∧
    ∀ refusal ∈ revisions.flatMap job.refusalsAt, refusal.2 = true

theorem Mismatched.perm {revisions others : List Revision} (h : job.Mismatched revisions)
    (hperm : revisions.Perm others) : job.Mismatched others := by
  obtain ⟨hrecords, hsome, hall⟩ := h
  have hrefusals := hperm.flatMap_right job.refusalsAt
  refine ⟨?_, ?_, ?_⟩
  · rw [← List.perm_nil, ← hrecords]
    exact (hperm.flatMap_right job.recordsAt).symm
  · intro hnone
    rw [hnone, List.perm_nil] at hrefusals
    exact hsome hrefusals
  · intro refusal hrefusal
    exact hall refusal (hrefusals.mem_iff.mpr hrefusal)

/-- A unit that is told another's scores has the records and refusals of its own. -/
theorem outcomesOf_shared (hdigest : DigestsApart job.tools.digest units) {u : SourceUnit}
    (hu : u ∈ units) (timestamp : Time.Instant) :
    (outcomesOf u timestamp (job.shared units u)).filterMap Outcome.record? =
        (outcomesOf u timestamp (job.scores u)).filterMap Outcome.record? ∧
      ((outcomesOf u timestamp (job.shared units u)).filterMap Outcome.failure?).map refusal =
        ((outcomesOf u timestamp (job.scores u)).filterMap Outcome.failure?).map refusal := by
  by_cases hknown : u.language? = none
  · -- the refusals differ in the path that they name
    rw [shared_of_unknown hknown, scores_of_unknown hknown]
    exact ⟨rfl, rfl⟩
  · rw [shared_of_known hdigest hu hknown]
    exact ⟨rfl, rfl⟩

theorem told_shared (hdigest : DigestsApart job.tools.digest units)
    (hread : ∀ content, job.history.read revision.id path = .ok content →
      ⟨.file path revision.id, content⟩ ∈ units) :
    (job.told (job.shared units) revision path).filterMap Outcome.record? =
        job.recordsOf revision path ∧
      ((job.told (job.shared units) revision path).filterMap Outcome.failure?).map refusal =
        job.refusalsOf revision path := by
  rw [recordsOf, refusalsOf, told, told, readUnit]
  rcases hcontent : job.history.read revision.id path with e | content
  · exact ⟨rfl, rfl⟩
  · exact outcomesOf_shared hdigest (hread content hcontent) revision.timestamp

theorem isAt_of_mem_recordsOf {record : Record} (h : record ∈ job.recordsOf revision path) :
    record.unit.revision = revision.id ∧ record.unit.path = path := by
  have hat := isAt_of_mem_told (Aggregator.mem_records.mp h) revision.id path
  rw [beq_self_eq_true, beq_self_eq_true, Bool.and_true, Outcome.isAt_scored,
    Bool.and_eq_true, beq_iff_eq, beq_iff_eq] at hat
  exact hat

theorem revision_of_mem_recordsAt {record : Record} (h : record ∈ job.recordsAt revision) :
    record.unit.revision = revision.id := by
  obtain ⟨path, -, hrecord⟩ := List.mem_flatMap.mp h
  exact (isAt_of_mem_recordsOf hrecord).1

theorem revision_of_mem_block {record : Record} (h : record ∈ job.block revision) :
    record.unit.revision = revision.id :=
  revision_of_mem_recordsAt (mem_sortNames.mp h)

/-! ## What is told of a revision -/

/-- What is brought by the results of a revision, of whatever kind; failures to read
come first. -/
theorem filterMap_accountItem {β : Type} (brings : Outcome → Option β)
    (hrevision : ∀ index r, brings (.revision index r) = none)
    (scores : SourceUnit → ContentScores) (index : Nat) (revision : Revision) :
    ((job.accountItem scores index (.ok revision)).filterMap brings).Perm
      ((job.results revision).flatMap fun result =>
        (tellResult scores revision.timestamp result).filterMap brings) := by
  rw [accountItem, List.cons_append, List.filterMap_cons_none (hrevision index revision),
    ← List.filterMap_flatMap]
  exact (tell_results_perm scores revision.timestamp _).filterMap brings

/-- Failures to read bring no records, so the records stand as the results do. -/
theorem records_accountItem (scores : SourceUnit → ContentScores) (index : Nat)
    (revision : Revision) :
    (job.accountItem scores index (.ok revision)).filterMap Outcome.record? =
      (job.results revision).flatMap fun result =>
        (tellResult scores revision.timestamp result).filterMap Outcome.record? := by
  have hnone : ((failuresOf (job.results revision)).map Outcome.failed).filterMap
      Outcome.record? = [] := by
    rw [List.filterMap_map]
    exact List.filterMap_eq_nil_iff.mpr fun _ _ => rfl
  rw [accountItem, List.cons_append, List.filterMap_cons_none rfl, List.filterMap_append, hnone,
    List.nil_append]
  induction job.results revision with
  | nil => rfl
  | cons result results ih =>
    rw [List.flatMap_cons, ← ih]
    cases result with
    | error f => rfl
    | ok u =>
      rw [← List.filterMap_append]
      rfl

namespace Orderly

variable {revisions : List Revision} (h : job.Orderly revisions)

include h

/-- A path that is chosen and can be read gives a unit. -/
theorem unit_mem (hr : revision ∈ revisions) (hpath : path ∈ job.chosen revision)
    {content : ByteArray} (hread : job.history.read revision.id path = .ok content) :
    ⟨.file path revision.id, content⟩ ∈ job.unitsIn (revisions.map .ok) := by
  refine mem_unitsIn.mpr ⟨revision, List.mem_map_of_mem hr, ?_⟩
  rw [h.results_eq hr, unitsOf, List.mem_filterMap]
  refine ⟨_, List.mem_map_of_mem hpath, ?_⟩
  rw [readUnit, hread]
  rfl

variable (hdigest : DigestsApart job.tools.digest (job.unitsIn (revisions.map .ok)))

include hdigest

theorem records_item (hr : revision ∈ revisions) (index : Nat) :
    (job.accountItem (job.shared (job.unitsIn (revisions.map .ok))) index
        (.ok revision)).filterMap Outcome.record? = job.recordsAt revision := by
  rw [records_accountItem, h.results_eq hr, List.flatMap_map]
  refine List.flatMap_congr ?_
  intro path hpath
  exact (told_shared hdigest fun content => h.unit_mem hr hpath).1

theorem refusals_item (hr : revision ∈ revisions) (index : Nat) :
    (((job.accountItem (job.shared (job.unitsIn (revisions.map .ok))) index
        (.ok revision)).filterMap Outcome.failure?).map refusal).Perm
      (job.refusalsAt revision) := by
  refine ((filterMap_accountItem Outcome.failure? (fun _ _ => rfl) _ index revision).map
    refusal).trans (List.Perm.of_eq ?_)
  rw [h.results_eq hr, List.flatMap_map, List.map_flatMap]
  refine List.flatMap_congr ?_
  intro path hpath
  exact (told_shared hdigest fun content => h.unit_mem hr hpath).2

/-- The run tells the records of its revisions, one after the other. -/
theorem records_told (hsignal : job.signal = .never)
    (hgap : job.model.schemaGap? Feature.schema Feature.names = none) (runId : String)
    (now : Time.Instant) :
    (job.run runId now).2.outcomes.filterMap Outcome.record? =
      revisions.flatMap job.recordsAt := by
  rw [h.outcomes_eq hsignal hgap, account, List.filterMap_flatMap]
  conv_rhs => rw [← List.zipIdx_map_fst 0 revisions, List.flatMap_map]
  rw [List.zipIdx_map, List.flatMap_map]
  refine List.flatMap_congr ?_
  intro p hp
  exact h.records_item hdigest (List.fst_mem_of_mem_zipIdx hp) p.2

/-- It tells their refusals, in one order or another. -/
theorem refusals_told (hsignal : job.signal = .never)
    (hgap : job.model.schemaGap? Feature.schema Feature.names = none) (runId : String)
    (now : Time.Instant) :
    (((job.run runId now).2.outcomes.filterMap Outcome.failure?).map refusal).Perm
      (revisions.flatMap job.refusalsAt) := by
  rw [h.outcomes_eq hsignal hgap, account, List.filterMap_flatMap, List.map_flatMap]
  conv_rhs => rw [← List.zipIdx_map_fst 0 revisions, List.flatMap_map]
  rw [List.zipIdx_map, List.flatMap_map]
  refine List.Perm.flatMap_left _ ?_
  intro p hp
  exact h.refusals_item hdigest (List.fst_mem_of_mem_zipIdx hp) p.2

/-- Whether the model is blamed is a matter of the units alone. -/
theorem allMismatched_iff (hsignal : job.signal = .never)
    (hgap : job.model.schemaGap? Feature.schema Feature.names = none) (runId : String)
    (now : Time.Instant) :
    (Aggregator.collect job.options.order (job.run runId now).2.outcomes).allMismatched = true ↔
      job.Mismatched revisions := by
  have hrefusals := h.refusals_told hdigest hsignal hgap runId now
  rw [Aggregator.allMismatched, Aggregator.collect_records, Aggregator.collect_failures,
    h.records_told hdigest hsignal hgap, Bool.and_eq_true, Bool.and_eq_true, List.isEmpty_iff,
    Bool.not_eq_true', List.isEmpty_eq_false_iff, List.all_eq_true, and_assoc, Mismatched]
  refine and_congr_right fun _ => and_congr (not_congr ?_) ?_
  · rw [← List.map_eq_nil_iff (f := refusal), ← List.perm_nil, hrefusals.congr_left,
      List.perm_nil]
  · simp only [← hrefusals.mem_iff, List.forall_mem_map, refusal]

/-! ## The order of the records -/

omit hdigest

/-- Each revision has its place in the walk. -/
theorem places (hsignal : job.signal = .never)
    (hgap : job.model.schemaGap? Feature.schema Feature.names = none) (runId : String)
    (now : Time.Instant) :
    let a := Aggregator.collect job.options.order (job.run runId now).2.outcomes
    revisions.Pairwise fun r s =>
      ∃ i j, a.place? r.id = some i ∧ a.place? s.id = some j ∧ i < j := by
  intro a
  have hnames : ((Report.announced (job.run runId now).2.outcomes).map (·.1)).Nodup := by
    rw [h.announced_names hsignal hgap]
    exact h.ids
  have hplace : ∀ (i : Nat) (hi : i < revisions.length), a.place? revisions[i].id = some i := by
    intro i hi
    rw [Aggregator.place?_eq_some_iff hnames, h.announced_eq hsignal hgap]
    exact List.mem_map_of_mem (f := fun r => (r.1.id, r.2))
      (List.mk_mem_zipIdx_iff_getElem?.mpr (List.getElem?_eq_getElem hi))
  rw [List.pairwise_iff_getElem]
  intro i j hi hj hij
  exact ⟨i, j, hplace i hi, hplace j hj, hij⟩

include hdigest

/-- **A report shows its records in blocks**, in the order of the walk. -/
theorem records_eq (hsignal : job.signal = .never) {runId : String} {now : Time.Instant}
    {report : Report} (hreport : (job.run runId now).1 = .ok report) :
    report.records = revisions.flatMap job.block := by
  obtain ⟨hgap, -⟩ := walk_of_report hreport
  obtain ⟨about, hfinish⟩ := report_eq_finish hreport
  have hsorted : report.records =
      (Aggregator.collect job.options.order (job.run runId now).2.outcomes).sortedRecords := by
    rw [hfinish]
    rfl
  have hplaces := h.places hsignal hgap runId now
  rw [hsorted, Aggregator.sortedRecords, Aggregator.collect_records,
    h.records_told hdigest hsignal hgap]
  rw [Sorting.mergeSort_flatMap Sorting.isLE_trans_of_cmp Sorting.isLE_total_of_cmp
    (List.Perm.refl _) (List.Nodup.of_map _ h.ids)]
  · refine List.flatMap_congr ?_
    intro r _
    refine Sorting.mergeSort_congr_of_mem ?_
    intro x hx y hy
    rw [Aggregator.compareRecords_of_place]
    rw [revision_of_mem_recordsAt hx, revision_of_mem_recordsAt hy]
  · refine hplaces.imp ?_
    rintro r s ⟨i, j, hi, hj, hij⟩ x hx y hy
    refine Aggregator.compareRecords_of_lt ?_
    rw [revision_of_mem_recordsAt hx, revision_of_mem_recordsAt hy, Aggregator.sortPlace,
      Aggregator.sortPlace, hi, hj]
    exact hij

end Orderly

/-- Sorting by time turns the blocks round that the newest first walk left. -/
theorem chronological_eq {oldest : List Revision}
    (h : job.Orderly (job.options.order.arrange oldest)) (hsignal : job.signal = .never)
    (hgap : job.model.schemaGap? Feature.schema Feature.names = none) (runId : String)
    (now : Time.Instant) :
    (Aggregator.collect job.options.order (job.run runId now).2.outcomes).chronological
      ((job.options.order.arrange oldest).flatMap job.block) = oldest.flatMap job.block := by
  have hplaces := h.places hsignal hgap runId now
  exact Aggregator.chronological_flatMap (Aggregator.collect_order _ _)
    (fun _ _ => revision_of_mem_block) (List.pairwise_map.mpr hplaces)

/-! ## What a run comes to -/

/-- A report over revisions, the oldest of them first. -/
structure Shows (job : Job) (oldest : List Revision) (report : Report) : Prop where
  records : report.records = (job.options.order.arrange oldest).flatMap job.block
  refusals : (report.failures.map refusal).Perm (oldest.flatMap job.refusalsAt)
  walked : report.revisionsWalked = oldest.length
  summary : report.summary = Report.summarize report.records report.failures.length
  files : report.files = Report.fileTrends (oldest.flatMap job.block)
  revisions : report.revisions =
    job.options.order.arrange (Report.revisionSummaries (oldest.flatMap job.block))

/-- The failure of a run whose model took no unit. -/
def modelRefused (job : Job) : RunFailure :=
  ⟨.aggregating,
    .modelLoad job.model.source "every unit was rejected with a feature mismatch"⟩

/-- A report of a run that no one asked to end shows the revisions of the walk. -/
theorem shows_of_report {oldest : List Revision}
    (h : job.Orderly (job.options.order.arrange oldest)) (hsignal : job.signal = .never)
    (hdigest : DigestsApart job.tools.digest
      (job.unitsIn ((job.options.order.arrange oldest).map .ok))) {runId : String}
    {now : Time.Instant} {report : Report} (hreport : (job.run runId now).1 = .ok report) :
    job.Shows oldest report := by
  obtain ⟨hgap, -⟩ := walk_of_report hreport
  obtain ⟨about, hfinish⟩ := report_eq_finish hreport
  have hrecords := h.records_eq hdigest hsignal hreport
  have hchronological := chronological_eq h hsignal hgap runId now
  rw [← hrecords] at hchronological
  have hperm := WalkOrder.arrange_perm job.options.order oldest
  -- means and trends are taken over the sorted records
  have hsorted : (Aggregator.collect job.options.order
      (job.run runId now).2.outcomes).sortedRecords = report.records := by
    rw [hfinish]
    rfl
  refine ⟨hrecords, ?_, ?_, ?_, ?_, ?_⟩
  · exact ((failures_perm hreport).map refusal).trans
      ((h.refusals_told hdigest hsignal hgap runId now).trans (hperm.flatMap_right _))
  · rw [h.revisionsWalked_eq hsignal hreport, hperm.length_eq]
  · rw [hfinish]
    rfl
  · rw [← hchronological, ← hsorted, hfinish]
    rfl
  · rw [← hchronological, ← hsorted, hfinish]
    dsimp only [Aggregator.finish]
    rw [Aggregator.walkedSummaries_eq, Aggregator.collect_order]
    rfl

/-- **A run that no one asks to end fails when its model takes none of the units**,
and else it comes to a report. -/
theorem run_cases {oldest : List Revision} (h : job.Orderly (job.options.order.arrange oldest))
    (hsignal : job.signal = .never)
    (hgap : job.model.schemaGap? Feature.schema Feature.names = none)
    (hdigest : DigestsApart job.tools.digest
      (job.unitsIn ((job.options.order.arrange oldest).map .ok))) (runId : String)
    (now : Time.Instant) :
    job.Mismatched oldest ∧ (job.run runId now).1 = .error job.modelRefused ∨
      ¬ job.Mismatched oldest ∧ ∃ report, (job.run runId now).1 = .ok report := by
  have hperm := WalkOrder.arrange_perm job.options.order oldest
  have hmismatched : job.Mismatched (job.options.order.arrange oldest) ↔ job.Mismatched oldest :=
    ⟨fun hm => hm.perm hperm, fun hm => hm.perm hperm.symm⟩
  rw [← hmismatched, ← h.allMismatched_iff hdigest hsignal hgap runId now]
  have htells := run_tells_undisturbed job hsignal hgap h.walk runId now
  have hverdict := htells.verdict
  rw [← htells.outcomes, verdict] at hverdict
  rw [hverdict]
  split_ifs with hall
  · exact .inl ⟨hall, rfl⟩
  · exact .inr ⟨hall, _, rfl⟩

/-- The units of a run are those of its revisions, in whatever order it meets them. -/
theorem mem_unitsIn_arrange {order : WalkOrder} {oldest : List Revision} {u : SourceUnit} :
    u ∈ job.unitsIn ((order.arrange oldest).map .ok) ↔ u ∈ job.unitsIn (oldest.map .ok) := by
  have hperm := (order.arrange_perm oldest).map (Except.ok (ε := UnitError))
  simp only [mem_unitsIn, hperm.mem_iff]

/-- A run over a sound history fails for the model alone, or shows the revisions of its
range, the oldest of them first. -/
theorem run_shows {memory : Memory} (hsound : memory.Sound)
    (hhistory : job.history = memory.toHistory) (hsignal : job.signal = .never)
    (hgap : job.model.schemaGap? Feature.schema Feature.names = none) {oldest : List Revision}
    (hwalk : memory.walk job.options.range .chronological = .ok oldest)
    (hdigest : DigestsApart job.tools.digest (job.unitsIn (oldest.map .ok))) (runId : String)
    (now : Time.Instant) :
    job.Mismatched oldest ∧ (job.run runId now).1 = .error job.modelRefused ∨
      ¬ job.Mismatched oldest ∧ ∃ report, (job.run runId now).1 = .ok report ∧
        job.Shows oldest report := by
  have hwalk' : memory.walk job.options.range job.options.order =
      .ok (job.options.order.arrange oldest) := by
    rw [Memory.walk_arrange, hwalk]
    rfl
  have horderly := orderly_of_sound hsound hhistory hwalk'
  have hapart : DigestsApart job.tools.digest
      (job.unitsIn ((job.options.order.arrange oldest).map .ok)) :=
    hdigest.subset fun u => mem_unitsIn_arrange.mp
  rcases run_cases horderly hsignal hgap hapart runId now with hfails | ⟨hmodel, report, hreport⟩
  · exact .inl hfails
  · exact .inr ⟨hmodel, report, hreport, shows_of_report horderly hsignal hapart hreport⟩

/-- A run without a walk fails. -/
theorem run_of_no_walk {memory : Memory} (hhistory : job.history = memory.toHistory)
    (hgap : job.model.schemaGap? Feature.schema Feature.names = none) {e : FatalError}
    (hwalk : memory.walk job.options.range .chronological = .error e) (runId : String)
    (now : Time.Instant) : (job.run runId now).1 = .error ⟨.walking, e⟩ := by
  refine congrArg Prod.fst (runBy_of_no_walk hgap ?_)
  rw [hhistory, Memory.toHistory]
  dsimp only
  rw [Memory.walk_arrange, hwalk]
  rfl

/-- **Two runs of a job that differ in their options fail alike, or both come to a
report**, if they go over the same range and the model takes units of both or of
neither. -/
theorem runs_alike {memory : Memory} (hsound : memory.Sound)
    (hhistory : job.history = memory.toHistory) (hsignal : job.signal = .never)
    {options : Options} (hrange : options.range = job.options.range) (runId : String)
    (now : Time.Instant)
    (halike : job.model.schemaGap? Feature.schema Feature.names = none → ∀ oldest,
      memory.walk job.options.range .chronological = .ok oldest →
      DigestsApart job.tools.digest (job.unitsIn (oldest.map .ok)) ∧
        DigestsApart job.tools.digest ({ job with options }.unitsIn (oldest.map .ok)) ∧
        (job.Mismatched oldest ↔ { job with options }.Mismatched oldest)) :
    (∃ e, (job.run runId now).1 = .error e ∧ ({ job with options }.run runId now).1 = .error e) ∨
      ∃ oldest report other, memory.walk job.options.range .chronological = .ok oldest ∧
        (job.run runId now).1 = .ok report ∧
        ({ job with options }.run runId now).1 = .ok other ∧
        job.Shows oldest report ∧ { job with options }.Shows oldest other := by
  have hhistory' : { job with options }.history = memory.toHistory := hhistory
  have hsignal' : { job with options }.signal = .never := hsignal
  rcases hgap : job.model.schemaGap? Feature.schema Feature.names with _ | gap
  · have hgap' : { job with options }.model.schemaGap? Feature.schema Feature.names = none := hgap
    rcases hwalk : memory.walk job.options.range .chronological with e | oldest
    · have hwalk' : memory.walk { job with options }.options.range .chronological = .error e :=
        hrange ▸ hwalk
      exact .inl ⟨_, run_of_no_walk hhistory hgap hwalk runId now,
        run_of_no_walk hhistory' hgap' hwalk' runId now⟩
    · have hwalk' : memory.walk { job with options }.options.range .chronological = .ok oldest :=
        hrange ▸ hwalk
      obtain ⟨hdigest, hdigest', hmodel⟩ := halike hgap oldest hwalk
      have hcases := run_shows hsound hhistory hsignal hgap hwalk hdigest runId now
      have hcases' := run_shows hsound hhistory' hsignal' hgap' hwalk' hdigest' runId now
      rcases hcases with ⟨htook, hfails⟩ | ⟨htook, report, hreport, hshows⟩
      · rcases hcases' with ⟨-, hfails'⟩ | ⟨htook', -⟩
        · exact .inl ⟨_, hfails, hfails'⟩
        · exact absurd (hmodel.mp htook) htook'
      · rcases hcases' with ⟨htook', -⟩ | ⟨-, other, hother, hshows'⟩
        · exact absurd (hmodel.mpr htook') htook
        · exact .inr ⟨oldest, report, other, rfl, hreport, hother, hshows, hshows'⟩
  · have hgap' : { job with options }.model.schemaGap? Feature.schema Feature.names = some gap :=
      hgap
    exact .inl ⟨_, congrArg Prod.fst (runBy_of_gap hgap), congrArg Prod.fst (runBy_of_gap hgap')⟩

end Readability.Run.Job
