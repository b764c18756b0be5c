import Readability.Proofs.Blocks
import Readability.Proofs.Statistics

/-!
# The two orders of a walk

A history in memory can be walked from its newest revision or from its oldest. Both
walks yield the same revisions, in the order that is asked for (`walk_arrange`), so
both runs read and score the same units, and the blocks of their reports are the
same (`Shows`). Means and trends are taken over time in either case, and whatever a
summary says of the scores is said of their sorted list (`summarize_perm`).

Main statement: `run_mirrored`. The newest first run fails as the chronological one
does, or its report is the other one's mirror image (`Mirrored`). This rests on
digests that do not collide: `run_not_mirrored_twin` has two contents of one digest,
and each order makes the other one the first.
-/

namespace Readability.Run.Job

open Readability.History (Memory Revision WalkOrder)
open Readability.Report (Outcome Record ofRevision stretches)
open Readability.Source (SourceUnit)

variable {job : Job}

/-- The stretches of a report are its blocks, but for those without a record. -/
theorem stretches_blocks {revisions : List Revision} (hids : (revisions.map (·.id)).Nodup) :
    stretches (revisions.flatMap job.block) =
      (revisions.map job.block).filter fun block => !block.isEmpty :=
  Report.stretches_flatMap (fun _ _ => revision_of_mem_block) hids

/-- The records of one revision are its block, in whatever order the walk went. -/
theorem ofRevision_blocks {revisions others : List Revision} (hperm : others.Perm revisions)
    (hids : (revisions.map (·.id)).Nodup) (id : String) :
    ofRevision id (others.flatMap job.block) = ofRevision id (revisions.flatMap job.block) := by
  have hother : ∀ r : Revision, r.id ≠ id → ∀ x ∈ job.block r, (x.unit.revision == id) = false := by
    intro r hr x hx
    rw [revision_of_mem_block hx]
    exact beq_false_of_ne hr
  rw [ofRevision, ofRevision]
  by_cases hknown : ∃ r ∈ revisions, r.id = id
  · obtain ⟨r, hr, rfl⟩ := hknown
    have hunique : ∀ s ∈ revisions, s ≠ r → s.id ≠ r.id := fun s hs hsr hid =>
      hsr (List.inj_on_of_nodup_map hids hs hr hid)
    have hnodup := List.Nodup.of_map _ hids
    rw [Sorting.filter_flatMap_of_unique others (hperm.nodup_iff.mpr hnodup)
        (hperm.mem_iff.mpr hr) fun s hs hsr => hother s (hunique s (hperm.mem_iff.mp hs) hsr),
      Sorting.filter_flatMap_of_unique revisions hnodup hr fun s hs hsr =>
        hother s (hunique s hs hsr)]
  · have hnone : ∀ l : List Revision, (∀ r ∈ l, r ∈ revisions) →
        ((l.flatMap job.block).filter fun x => x.unit.revision == id) = [] := by
      intro l hl
      rw [List.filter_flatMap, List.flatMap_eq_nil_iff]
      intro r hr
      refine List.filter_eq_nil_iff.mpr ?_
      intro x hx
      rw [hother r (fun hid => hknown ⟨r, hl r hr, hid⟩) x hx]
      exact Bool.false_ne_true
    rw [hnone others fun r hr => hperm.mem_iff.mp hr, hnone revisions fun r hr => hr]

/-! ## Two orders -/

/-- The same job with the walk in some order. -/
def inOrder (job : Job) (order : WalkOrder) : Job :=
  { job with options := { job.options with order } }

/-- Two reports of which one shows the revisions of the other in reverse order. -/
structure Mirrored (newest oldest : Report) : Prop where
  /-- The blocks of records are reversed, and each of them is as it was. -/
  stretches : stretches newest.records = (stretches oldest.records).reverse
  ofRevision : ∀ id, ofRevision id newest.records = ofRevision id oldest.records
  /-- The same units failed. -/
  failures : (newest.failures.map (·.unit)).Perm (oldest.failures.map (·.unit))
  walked : newest.revisionsWalked = oldest.revisionsWalked
  summary : newest.summary =
    { oldest.summary with trendPerDay := newest.summary.trendPerDay }
  files : newest.files = oldest.files
  revisions : newest.revisions = oldest.revisions.reverse

/-- Mirrored reports show the same units of a path at a revision. -/
theorem Mirrored.shownAt_units {newest oldest : Report} (h : Mirrored newest oldest)
    (revision path : String) :
    ((Report.shownAt newest revision path).map Outcome.unit?).Perm
      ((Report.shownAt oldest revision path).map Outcome.unit?) := by
  have hrecords : newest.records.Perm oldest.records := by
    rw [← List.flatten_splitBy (fun r s => r.unit.revision == s.unit.revision) newest.records,
      ← List.flatten_splitBy (fun r s => r.unit.revision == s.unit.revision) oldest.records]
    exact (List.Perm.of_eq h.stretches).flatten.trans (List.reverse_perm _).flatten
  have hshown : ((Report.shown newest).map Outcome.unit?).Perm
      ((Report.shown oldest).map Outcome.unit?) := by
    rw [Report.shown, Report.shown, List.map_append, List.map_append, List.map_map, List.map_map,
      List.map_map, List.map_map]
    refine (hrecords.map _).append ?_
    have hfailures := h.failures.map some
    rwa [List.map_map, List.map_map] at hfailures
  -- whether an outcome is about the path can be seen from its unit
  have hat : ∀ l : List Outcome, (l.filter (Outcome.isAt revision path)).map Outcome.unit? =
      (l.map Outcome.unit?).filter fun unit =>
        unit.any fun u => u.revision == revision && u.path == path := by
    intro l
    rw [List.filter_map]
    rfl
  rw [Report.shownAt, Report.shownAt, hat, hat]
  exact hshown.filter _

/-- What is shown of revisions in both orders is mirrored. -/
theorem mirrored_of_shows {revisions : List Revision} (hids : (revisions.map (·.id)).Nodup)
    {newest oldest : Report} (hnewest : (job.inOrder .newestFirst).Shows revisions newest)
    (holdest : (job.inOrder .chronological).Shows revisions oldest) : Mirrored newest oldest := by
  have hblock : ∀ order, (job.inOrder order).block = job.block := fun _ => rfl
  have hn := hnewest.records
  have ho := holdest.records
  have hids' : (revisions.reverse.map (·.id)).Nodup := by
    rw [List.map_reverse]
    exact List.nodup_reverse.mpr hids
  rw [hblock] at hn ho
  have hrefusals : (newest.failures.map refusal).Perm (oldest.failures.map refusal) :=
    hnewest.refusals.trans holdest.refusals.symm
  have hrecords : newest.records.Perm oldest.records := by
    rw [hn, ho]
    exact (List.reverse_perm revisions).flatMap_right _
  have hcount : newest.failures.length = oldest.failures.length := by
    have hlength := hrefusals.length_eq
    rwa [List.length_map, List.length_map] at hlength
  refine ⟨?_, ?_, ?_, ?_, ?_, ?_, ?_⟩
  · rw [hn, ho]
    refine (stretches_blocks hids').trans ?_
    rw [List.map_reverse, List.filter_reverse]
    exact congrArg List.reverse (stretches_blocks hids).symm
  · intro id
    rw [hn, ho]
    exact ofRevision_blocks (List.reverse_perm revisions) hids id
  · have hunits := hrefusals.map Prod.fst
    rwa [List.map_map, List.map_map] at hunits
  · rw [hnewest.walked, holdest.walked]
  · rw [hnewest.summary, holdest.summary, Report.summarize_perm hrecords, hcount]
  · rw [hnewest.files, holdest.files]
    rfl
  · rw [hnewest.revisions, holdest.revisions]
    rfl

/-- **The order of the walk does not change what a run comes to.** It fails in both
orders, or its reports are mirror images. -/
theorem run_mirrored (job : Job) (steps : List Memory.Step) (hplain : Memory.Plain steps)
    (hhistory : job.history = (Memory.replay steps).toHistory) (hsignal : job.signal = .never)
    (runId : String) (now : Time.Instant)
    (hdigest : DigestsApart job.tools.digest
      ((job.inOrder .chronological).scoredUnits runId now)) :
    (∃ e, ((job.inOrder .newestFirst).run runId now).1 = .error e ∧
        ((job.inOrder .chronological).run runId now).1 = .error e) ∨
      ∃ newest oldest, ((job.inOrder .newestFirst).run runId now).1 = .ok newest ∧
        ((job.inOrder .chronological).run runId now).1 = .ok oldest ∧
        Mirrored newest oldest := by
  have hsound := Memory.replay_sound hplain
  have horderly : ∀ oldest, (Memory.replay steps).walk job.options.range .chronological =
      .ok oldest → (job.inOrder .chronological).Orderly oldest :=
    fun oldest hwalk => @orderly_of_sound (job.inOrder .chronological) _ hsound hhistory _ hwalk
  refine (@runs_alike (job.inOrder .chronological) _ hsound hhistory hsignal
    (job.inOrder .newestFirst).options rfl runId now ?_).imp ?_ ?_
  · -- both orders score the same units
    intro hgap revisions hwalk
    rw [(horderly _ hwalk).scoredUnits_eq hsignal hgap] at hdigest
    exact ⟨hdigest, hdigest, Iff.rfl⟩
  · rintro ⟨e, holdest, hnewest⟩
    exact ⟨e, hnewest, holdest⟩
  · rintro ⟨revisions, oldest, newest, hwalk, holdest, hnewest, ho, hn⟩
    exact ⟨newest, oldest, hnewest, holdest, mirrored_of_shows (horderly _ hwalk).ids hn ho⟩

/-- The run over the program that comes back, in both orders. -/
theorem run_mirrored_program :
    DigestsApart .of (((programJob program).inOrder .chronological).scoredUnits "" .epoch) ∧
      ∃ newest oldest, (((programJob program).inOrder .newestFirst).run "" .epoch).1 = .ok newest ∧
        (((programJob program).inOrder .chronological).run "" .epoch).1 = .ok oldest ∧
        Mirrored newest oldest := by
  have hdigest : DigestsApart (programJob program).tools.digest
      (((programJob program).inOrder .chronological).scoredUnits "" .epoch) := by
    show DigestsApart _ ((programJob program).scoredUnits "" .epoch)
    rw [(programJob_orderly program).scoredUnits_eq rfl (programJob_gap program)]
    exact programJob_apart
  refine ⟨hdigest, ?_⟩
  rcases run_mirrored (programJob program) (programSteps program) (programSteps_plain program) rfl
    rfl "" .epoch hdigest with ⟨e, -, hfails⟩ | hmirrored
  · obtain ⟨report, hreport⟩ := programJob_report program
    have hboth : Except.error e = Except.ok report := hfails.symm.trans hreport
    cases hboth
  · exact hmirrored

/-- The run over the program and its twin that begins with the twin. -/
def twinJob : Job :=
  (programJob twin).inOrder .newestFirst

theorem twinJob_orderly : twinJob.Orderly programRevisions.reverse :=
  @orderly_of_sound twinJob _ (Memory.replay_sound (programSteps_plain twin)) rfl _ rfl

theorem twinJob_report : ∃ report, (twinJob.run "" .epoch).1 = .ok report := by
  have hu : (⟨.file "m.txt" "r1", ⟨#[]⟩⟩ : SourceUnit) ∈
      twinJob.unitsIn (programRevisions.reverse.map .ok) :=
    List.mem_cons_of_mem _ (List.mem_cons_of_mem _ (List.mem_singleton_self _))
  have hunknown : (⟨.file "m.txt" "r1", ⟨#[]⟩⟩ : SourceUnit).language? = none := by
    decide
  have hgap : twinJob.model.schemaGap? Feature.schema Feature.names = none := programJob_gap twin
  exact exists_report rfl hgap twinJob_orderly.walk hu hunknown "" .epoch

/-- The twin is refused when it comes first. -/
theorem told_twinJob :
    (twinJob.told (twinJob.shared (twinJob.unitsIn (programRevisions.reverse.map .ok)))
      ⟨"r2", ["r1"], .epoch, "memory", "r2", [⟨"b.rs", .added⟩]⟩ "b.rs").map Outcome.unit? =
      [some (.file "b.rs" "r2")] := by
  have hread : twinJob.history.read "r2" "b.rs" = .ok twin := rfl
  have hunits : twinJob.unitsIn (programRevisions.reverse.map .ok) =
      [⟨.file "b.rs" "r2", twin⟩, ⟨.file "a.rs" "r1", program⟩, ⟨.file "m.txt" "r1", ⟨#[]⟩⟩] := rfl
  have hscores : twinJob.scores ⟨.file "b.rs" "r2", twin⟩ = .error (.parse
      "content is not valid UTF-8: invalid utf-8 sequence of 1 bytes from index 0") := rfl
  rw [told, readUnit, hread]
  dsimp only [tellResult]
  rw [hunits, shared_of_head (beq_self_eq_true _), hscores]
  rfl

/-- In one order the twin is told the scores of the program, in the other one it is
refused: what is shown of it is not the same. -/
theorem run_not_mirrored_twin :
    ∃ newest oldest, (((programJob twin).inOrder .newestFirst).run "" .epoch).1 = .ok newest ∧
      (((programJob twin).inOrder .chronological).run "" .epoch).1 = .ok oldest ∧
      (Report.shownAt newest "r2" "b.rs").map Outcome.unit? = [some (.file "b.rs" "r2")] ∧
      (Report.shownAt oldest "r2" "b.rs").map Outcome.unit? =
        [some ⟨"b.rs", "r2", some ⟨"a", "function_item", 1, 1⟩⟩] ∧
      ¬ Mirrored newest oldest := by
  obtain ⟨newest, hnewest⟩ := twinJob_report
  obtain ⟨oldest, holdest⟩ := programJob_report twin
  have hlast : (⟨"r2", ["r1"], .epoch, "memory", "r2", [⟨"b.rs", .added⟩]⟩ : Revision) ∈
      programRevisions :=
    List.mem_cons_of_mem _ (List.mem_singleton_self _)
  have hrefused := (twinJob_orderly.shownAt_perm rfl hnewest (List.mem_reverse.mpr hlast)
    ⟨⟨["b.rs"], rfl, List.mem_singleton_self _⟩, rfl, .inl rfl⟩).map Outcome.unit?
  have hscored := ((programJob_orderly twin).shownAt_perm rfl holdest hlast
    ⟨⟨["b.rs"], rfl, List.mem_singleton_self _⟩, rfl, .inl rfl⟩).map Outcome.unit?
  rw [told_twinJob] at hrefused
  rw [told_twin] at hscored
  refine ⟨newest, oldest, hnewest, holdest, hrefused.eq_singleton, hscored.eq_singleton, ?_⟩
  intro hmirrored
  have hunits := hmirrored.shownAt_units "r2" "b.rs"
  rw [hrefused.eq_singleton, hscored.eq_singleton, List.singleton_perm_singleton] at hunits
  exact absurd hunits (by decide)

end Readability.Run.Job
