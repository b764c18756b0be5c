import Readability.Proofs.Blocks
import Readability.Proofs.Provenance
import Readability.Proofs.Snapshots

/-!
# All files are the changed files, carried forward

A run may look at all files of each revision, or at those that the revision changed.
What it shows of a path at a revision are the sorted records of that path
(`recordsOn_blocks`), and these follow from the path and its content, but for the
name of the revision and its date (`recordsOf_moved`). A path that is there at a
revision has the content that the latest commit gave it that set it, so the run over
all files shows what the run over changed files shows at that commit, moved
(`FilledForward`).

Main statement: `run_filledForward`. Digests must not collide:
`run_not_filledForward_twin` has a program and its twin, and the run over all files
meets the twin first.
-/

namespace Readability.Report

/-- The records of a path at a revision, as they follow each other. -/
def recordsOn (revision path : String) (records : List Record) : List Record :=
  records.filter fun r => r.unit.revision == revision && r.unit.path == path

/-- A record of another revision with the same content. -/
def Record.movedTo (r : Record) (revision : String) (timestamp : Time.Instant) : Record :=
  { r with unit := { r.unit with revision }, timestamp }

/-- Records of a path are sorted alike at every revision. -/
theorem sortNames_moved (revision : String) (timestamp : Time.Instant) (records : List Record) :
    sortNames (records.map fun r => r.movedTo revision timestamp) =
      (sortNames records).map fun r => r.movedTo revision timestamp := by
  rw [sortNames, sortNames, List.map_mergeSort]
  exact fun _ _ _ _ => rfl

end Readability.Report

namespace Readability.Run.Job

open Readability.History (Commit Memory Revision WalkOrder contentAfter)
open Readability.Report (Aggregator Outcome Record mem_sortNames recordsOn sortNames)
open Readability.Source (Language SourceUnit)

variable {job : Job} {revision : Revision} {path : String}

/-! ## Records of one path -/

/-- What the blocks of a run hold of a path at a revision are its sorted records. -/
theorem Orderly.recordsOn_blocks {revisions : List Revision} (h : job.Orderly revisions)
    (hr : revision ∈ revisions) (path : String) :
    recordsOn revision.id path (revisions.flatMap job.block) =
      if path ∈ job.chosen revision then sortNames (job.recordsOf revision path) else [] := by
  have hat : ∀ p, p ≠ path → ∀ r ∈ job.recordsOf revision p,
      (r.unit.revision == revision.id && r.unit.path == path) = false := by
    intro p hp r hr
    rw [(isAt_of_mem_recordsOf hr).2, beq_false_of_ne hp, Bool.and_false]
  -- only the block of the revision is left, and sorting it comes after the choice of the path
  have hblock := Sorting.filter_flatMap_of_unique (f := job.block)
    (p := fun r : Record => r.unit.revision == revision.id && r.unit.path == path) revisions
    (List.Nodup.of_map _ h.ids) hr (by
      intro s hs hsr r hr'
      rw [revision_of_mem_block hr', beq_false_of_ne fun hid =>
        hsr (List.inj_on_of_nodup_map h.ids hs hr hid), Bool.false_and])
  rw [recordsOn, hblock, block, sortNames, recordsAt,
    Sorting.filter_mergeSort Sorting.isLE_trans_of_cmp Sorting.isLE_total_of_cmp]
  split_ifs with hpath
  · rw [Sorting.filter_flatMap_of_unique _ (h.chosen_nodup hr) hpath fun p _ => hat p,
      List.filter_eq_self.mpr]
    · rfl
    · intro r hr'
      obtain ⟨hrevision, hpath'⟩ := isAt_of_mem_recordsOf hr'
      rw [hrevision, hpath', beq_self_eq_true, beq_self_eq_true]
      rfl
  · have hnone : ((job.chosen revision).flatMap (job.recordsOf revision)).filter
        (fun r => r.unit.revision == revision.id && r.unit.path == path) = [] := by
      rw [List.filter_flatMap, List.flatMap_eq_nil_iff]
      intro p hp
      refine List.filter_eq_nil_iff.mpr ?_
      intro r hr'
      rw [hat p (fun h => hpath (h ▸ hp)) r hr']
      exact Bool.false_ne_true
    rw [hnone, List.mergeSort_nil]

/-- What a report shows of a path at a revision. -/
theorem Shows.recordsOn_eq {oldest : List Revision} {report : Report}
    (h : job.Shows oldest report) (horderly : job.Orderly (job.options.order.arrange oldest))
    (hr : revision ∈ oldest) (path : String) :
    recordsOn revision.id path report.records =
      if path ∈ job.chosen revision then sortNames (job.recordsOf revision path) else [] := by
  rw [h.records]
  exact horderly.recordsOn_blocks ((WalkOrder.arrange_perm _ oldest).mem_iff.mpr hr) path

theorem Shows.mem_records {oldest : List Revision} {report : Report}
    (h : job.Shows oldest report) {record : Record} :
    record ∈ report.records ↔
      ∃ r ∈ oldest, ∃ path ∈ job.chosen r, record ∈ job.recordsOf r path := by
  simp only [h.records, List.mem_flatMap, (WalkOrder.arrange_perm _ oldest).mem_iff, block,
    mem_sortNames, recordsAt]

/-- Scores follow from the path and the content of a unit. -/
theorem scores_eq_of_path {u v : SourceUnit} (hpath : u.id.path = v.id.path)
    (hcontent : u.content = v.content) : job.scores u = job.scores v := by
  have hlanguage : u.language? = v.language? := by
    rw [SourceUnit.language?, SourceUnit.language?, hpath]
  by_cases hknown : u.language? = none
  · rw [scores_of_unknown hknown, scores_of_unknown (hlanguage.symm.trans hknown), hpath]
  · exact scores_eq_of_content hlanguage hcontent hknown

/-- **What is told of a content at one revision is told of it at another**, under that
revision's name and date. -/
theorem recordsOf_moved {s : Revision} {content : ByteArray}
    (hrevision : job.history.read revision.id path = .ok content)
    (hs : job.history.read s.id path = .ok content) :
    job.recordsOf revision path =
        (job.recordsOf s path).map (fun r => r.movedTo revision.id revision.timestamp) ∧
      (job.refusalsOf revision path).map Prod.snd = (job.refusalsOf s path).map Prod.snd := by
  have hsame : job.scores ⟨.file path s.id, content⟩ =
      job.scores ⟨.file path revision.id, content⟩ := scores_eq_of_path rfl rfl
  have hlanguage : ∀ id, (⟨.file path id, content⟩ : SourceUnit).language? =
      Language.ofPath? path := fun _ => rfl
  rw [recordsOf, recordsOf, refusalsOf, refusalsOf, told, told, readUnit, readUnit, hrevision, hs]
  dsimp only [tellResult]
  rw [hsame]
  -- name and date of the revision are put to scores that are the same
  rcases job.scores ⟨.file path revision.id, content⟩ with e | parts
  · exact ⟨rfl, rfl⟩
  rw [outcomesOf, outcomesOf]
  dsimp only
  rw [hlanguage, hlanguage]
  rcases Language.ofPath? path with _ | language
  · exact ⟨rfl, rfl⟩
  · constructor
    · rw [List.filterMap_map, List.filterMap_map, List.map_filterMap]
      refine List.filterMap_congr ?_
      rintro (f | s) -
      · rfl
      · rcases s with ⟨_ | span, _, _, _⟩ <;> rfl
    · rw [List.filterMap_map, List.filterMap_map, List.map_filterMap, List.map_filterMap,
        List.map_filterMap, List.map_filterMap]
      refine List.filterMap_congr ?_
      rintro (f | s) - <;> rfl

/-! ## All files and changed files -/

/-- The same job over all files of each revision, or over those it changed. -/
def withFiles (job : Job) (allFiles : Bool) : Job :=
  { job with options := { job.options with allFiles } }

/-- A path that a run reads wherever it comes to it. -/
def Wants (job : Job) (path : String) : Prop :=
  job.keeps path = true ∧
    (job.options.keepUnsupported = true ∨ (Language.ofPath? path).isSome = true)

/-- A path that is there at a revision. -/
def Listed (job : Job) (id path : String) : Prop :=
  ∃ paths, job.history.list id = .ok paths ∧ path ∈ paths

theorem mem_chosen_all : path ∈ (job.withFiles true).chosen revision ↔
    job.Listed revision.id path ∧ job.Wants path :=
  mem_chosen

theorem mem_chosen_changed : path ∈ (job.withFiles false).chosen revision ↔
    path ∈ revision.changedPaths ∧ job.Wants path := by
  refine mem_chosen.trans (and_congr_left fun _ => ?_)
  constructor
  · rintro ⟨paths, hpaths, hpath⟩
    cases hpaths
    exact hpath
  · exact fun hpath => ⟨_, rfl, hpath⟩

/-- Whether the model took none of the units, path by path. -/
theorem mismatched_iff {revisions : List Revision} :
    job.Mismatched revisions ↔
      (∀ r ∈ revisions, ∀ p ∈ job.chosen r, job.recordsOf r p = []) ∧
        (∃ r ∈ revisions, ∃ p ∈ job.chosen r, (job.refusalsOf r p).map Prod.snd ≠ []) ∧
        ∀ r ∈ revisions, ∀ p ∈ job.chosen r, ∀ blamed ∈ (job.refusalsOf r p).map Prod.snd,
          blamed = true := by
  simp only [Mismatched, recordsAt, refusalsAt, ne_eq, List.flatMap_eq_nil_iff, not_forall,
    exists_prop, List.mem_flatMap, List.map_eq_nil_iff, List.forall_mem_map]
  refine and_congr_right fun _ => and_congr_right fun _ => ?_
  constructor
  · exact fun h r hr p hp blamed hblamed => h blamed ⟨r, hr, p, hp, hblamed⟩
  · rintro h blamed ⟨r, hr, p, hp, hblamed⟩
    exact h r hr p hp blamed hblamed

/-- **The run over all files shows what the run over changed files shows, carried
forward** from the commits that set the files. -/
structure FilledForward (job : Job) (commits : List Commit) (all changed : List Record) :
    Prop where
  /-- All records are of commits. -/
  known : ∀ record ∈ all, ∃ c : Commit, c ∈ commits ∧ record.unit.revision = c.id
  /-- There are none of a path that is absent. -/
  absent : ∀ c : Commit, c ∈ commits → ∀ path, ¬ job.Listed c.id path →
    recordsOn c.id path all = []
  /-- Of a path that is there, they are those of the latest commit that set it. -/
  filled : ∀ (i : Nat) (c : Commit) (path : String), commits[i]? = some c →
    job.Listed c.id path →
    ∃ (j : Nat) (d : Commit), j ≤ i ∧ commits[j]? = some d ∧ d.Sets path ∧
      (∀ (k : Nat) (e : Commit), j < k → k ≤ i → commits[k]? = some e → ¬ e.Sets path) ∧
      recordsOn c.id path all =
        (recordsOn d.id path changed).map fun r => r.movedTo c.id c.timestamp
  /-- No record of a changed file is missing. -/
  kept : ∀ record ∈ changed, record ∈ all

/-- Both runs fail in the same way, or one is the forward fill of the other. -/
def FillsForward (job : Job) (commits : List Commit) (runId : String) (now : Time.Instant) :
    Prop :=
  (∃ e, ((job.withFiles true).run runId now).1 = .error e ∧
      ((job.withFiles false).run runId now).1 = .error e) ∨
    ∃ all changed, ((job.withFiles true).run runId now).1 = .ok all ∧
      ((job.withFiles false).run runId now).1 = .ok changed ∧
      job.FilledForward commits all.records changed.records

section Filling

variable {commits : List Commit} (hplain : Memory.Plain (commits.map Commit.step))
  (hhistory : job.history = (Memory.ofCommits commits).toHistory)

include hplain hhistory

theorem read_commit {i : Nat} {c : Commit} (hc : commits[i]? = some c) (path : String) :
    job.history.read c.id path = match contentAfter (commits.take (i + 1)) path with
      | some content => .ok content
      | none => .error (.notFound path c.id) := by
  rw [hhistory]
  exact Memory.read_commit hplain hc path

theorem listed_iff {i : Nat} {c : Commit} (hc : commits[i]? = some c) (path : String) :
    job.Listed c.id path ↔ (contentAfter (commits.take (i + 1)) path).isSome = true := by
  rw [Listed, hhistory]
  exact Memory.listed_commit hplain hc path

/-- A path that is there has the content of the latest commit that set it. -/
theorem exists_source {i : Nat} {c : Commit} (hc : commits[i]? = some c)
    (hlisted : job.Listed c.id path) :
    ∃ j d, j ≤ i ∧ commits[j]? = some d ∧ d.Sets path ∧
      (∀ k e, j < k → k ≤ i → commits[k]? = some e → ¬ e.Sets path) ∧
      ∃ content, job.history.read c.id path = .ok content ∧
        job.history.read d.id path = .ok content := by
  obtain ⟨content, hcontent⟩ :=
    Option.isSome_iff_exists.mp ((listed_iff hplain hhistory hc path).mp hlisted)
  obtain ⟨hi, -⟩ := List.getElem?_eq_some_iff.mp hc
  obtain ⟨j, d, hji, hd, hsets, hset, hlater⟩ := History.exists_latest_upTo hi hcontent
  refine ⟨j, d, hji, hd, hsets, hlater, content, ?_, ?_⟩
  · rw [read_commit hplain hhistory hc, hcontent]
  · rw [read_commit hplain hhistory hd, hset]

/-- A path that a commit sets is there. -/
theorem listed_of_sets {i : Nat} {c : Commit} (hc : commits[i]? = some c) (hsets : c.Sets path) :
    job.Listed c.id path := by
  obtain ⟨content, hafter⟩ := Commit.after_of_sets
    (hplain.edits_nodup (List.mem_of_getElem? hc)) hsets
  have htake : commits.take (i + 1) = commits.take i ++ [c] := by
    rw [List.take_add_one, hc]
    rfl
  rw [listed_iff hplain hhistory hc, htake, History.contentAfter_concat, hafter]
  rfl

/-! ## The run over all files shows the other one's records -/

/-- A changed file that is chosen is chosen among all files. -/
theorem chosen_of_changed (hr : revision ∈ (Memory.ofCommits commits).revisions)
    (hpath : path ∈ (job.withFiles false).chosen revision) :
    path ∈ (job.withFiles true).chosen revision := by
  obtain ⟨i, c, hc, hmakes⟩ := Memory.commit_of_revision hplain hr
  obtain ⟨hchanged, hwants⟩ := mem_chosen_changed.mp hpath
  have hlisted := listed_of_sets hplain hhistory hc ((hmakes.changed path).mp hchanged)
  rw [← hmakes.id] at hlisted
  exact mem_chosen_all.mpr ⟨hlisted, hwants⟩

/-- A file that is chosen among all files is a changed file of the revision that set it,
and what is told of it is told there. -/
theorem exists_changed (hr : revision ∈ (Memory.ofCommits commits).revisions)
    (hpath : path ∈ (job.withFiles true).chosen revision) :
    ∃ s ∈ (Memory.ofCommits commits).revisions,
      path ∈ (job.withFiles false).chosen s ∧
      job.recordsOf revision path =
        (job.recordsOf s path).map (fun r => r.movedTo revision.id revision.timestamp) ∧
      (job.refusalsOf revision path).map Prod.snd = (job.refusalsOf s path).map Prod.snd := by
  obtain ⟨i, c, hc, hmakes⟩ := Memory.commit_of_revision hplain hr
  obtain ⟨hlisted, hwants⟩ := mem_chosen_all.mp hpath
  rw [hmakes.id] at hlisted
  obtain ⟨j, d, -, hd, hsets, -, content, hread, hsource⟩ :=
    exists_source hplain hhistory hc hlisted
  obtain ⟨s, hs, hmade⟩ := Memory.revision_of_commit hplain hd
  rw [← hmakes.id] at hread
  rw [← hmade.id] at hsource
  exact ⟨s, hs, mem_chosen_changed.mpr ⟨(hmade.changed path).mpr hsets, hwants⟩,
    recordsOf_moved hread hsource⟩

/-- The model takes none of all files when it takes none of the changed ones. -/
theorem mismatched_withFiles :
    (job.withFiles true).Mismatched (Memory.ofCommits commits).revisions ↔
      (job.withFiles false).Mismatched (Memory.ofCommits commits).revisions := by
  rw [mismatched_iff, mismatched_iff]
  constructor
  · -- a refusal among all files was met where the file was set
    rintro ⟨hrecords, ⟨r, hr, p, hp, hsome⟩, hall⟩
    refine ⟨?_, ?_, ?_⟩
    · intro r hr p hp
      exact hrecords r hr p (chosen_of_changed hplain hhistory hr hp)
    · obtain ⟨s, hs, hps, -, hrefusals⟩ := exists_changed hplain hhistory hr hp
      refine ⟨s, hs, p, hps, ?_⟩
      exact fun hnone => hsome (hrefusals.trans hnone)
    · intro r hr p hp
      exact hall r hr p (chosen_of_changed hplain hhistory hr hp)
  · -- and what is told of any file was told there
    rintro ⟨hrecords, ⟨r, hr, p, hp, hsome⟩, hall⟩
    refine ⟨?_, ⟨r, hr, p, chosen_of_changed hplain hhistory hr hp, hsome⟩, ?_⟩
    · intro r hr p hp
      obtain ⟨s, hs, hps, hrecord, -⟩ := exists_changed hplain hhistory hr hp
      have hnone : job.recordsOf s p = [] := hrecords s hs p hps
      rw [hnone, List.map_nil] at hrecord
      exact hrecord
    · intro r hr p hp blamed hblamed
      obtain ⟨s, hs, hps, -, hrefusals⟩ := exists_changed hplain hhistory hr hp
      refine hall s hs p hps blamed ?_
      exact hrefusals ▸ hblamed

/-- What both runs show over the whole history. -/
theorem filledForward_of_shows {all changed : Report}
    (hall : (job.withFiles true).Shows (Memory.ofCommits commits).revisions all)
    (hchanged : (job.withFiles false).Shows (Memory.ofCommits commits).revisions changed)
    (horderly : ∀ allFiles, (job.withFiles allFiles).Orderly
      (job.options.order.arrange (Memory.ofCommits commits).revisions)) :
    job.FilledForward commits all.records changed.records := by
  refine { known := ?known, absent := ?absent, filled := ?filled, kept := ?kept }
  case known =>
    intro record hrecord
    obtain ⟨r, hr, path, -, hat⟩ := hall.mem_records.mp hrecord
    obtain ⟨i, c, hc, hmakes⟩ := Memory.commit_of_revision hplain hr
    exact ⟨c, List.mem_of_getElem? hc, (isAt_of_mem_recordsOf hat).1.trans hmakes.id⟩
  case absent =>
    intro c hc path habsent
    obtain ⟨i, hi⟩ := List.mem_iff_getElem?.mp hc
    obtain ⟨r, hr, hmakes⟩ := Memory.revision_of_commit hplain hi
    rw [← hmakes.id] at habsent ⊢
    rw [hall.recordsOn_eq (horderly true) hr, if_neg]
    exact fun hpath => habsent (mem_chosen_all.mp hpath).1
  case filled =>
    intro i c path hc hlisted
    obtain ⟨j, d, hji, hd, hsets, hlater, content, hread, hsource⟩ :=
      exists_source hplain hhistory hc hlisted
    refine ⟨j, d, hji, hd, hsets, hlater, ?_⟩
    obtain ⟨r, hr, hmakes⟩ := Memory.revision_of_commit hplain hc
    obtain ⟨s, hs, hmade⟩ := Memory.revision_of_commit hplain hd
    rw [← hmakes.id] at hlisted hread ⊢
    rw [← hmade.id] at hsource ⊢
    -- a path that the filter drops has no records on either side
    rw [← hmakes.timestamp, hall.recordsOn_eq (horderly true) hr,
      hchanged.recordsOn_eq (horderly false) hs]
    by_cases hwants : job.Wants path
    · rw [if_pos (mem_chosen_all.mpr ⟨hlisted, hwants⟩),
        if_pos (mem_chosen_changed.mpr ⟨(hmade.changed path).mpr hsets, hwants⟩),
        ← Report.sortNames_moved]
      exact congrArg sortNames (recordsOf_moved hread hsource).1
    · rw [if_neg fun hpath => hwants (mem_chosen_all.mp hpath).2,
        if_neg fun hpath => hwants (mem_chosen_changed.mp hpath).2, List.map_nil]
  case kept =>
    intro record hrecord
    obtain ⟨r, hr, path, hpath, hat⟩ := hchanged.mem_records.mp hrecord
    exact hall.mem_records.mpr ⟨r, hr, path, chosen_of_changed hplain hhistory hr hpath, hat⟩

/-- Contents that are scored as changed files are scored among all files. -/
theorem units_of_changed
    (horderly : (job.withFiles true).Orderly
      (job.options.order.arrange (Memory.ofCommits commits).revisions)) :
    (job.withFiles false).unitsIn ((Memory.ofCommits commits).revisions.map .ok) ⊆
      (job.withFiles true).unitsIn ((Memory.ofCommits commits).revisions.map .ok) := by
  intro u hu
  obtain ⟨r, hr, hunit⟩ := mem_unitsIn.mp hu
  obtain ⟨s, hs, hsame⟩ := List.mem_map.mp hr
  cases hsame
  obtain ⟨path, hpath, content, hread, rfl⟩ := read_of_mem_unitsOf hunit
  have hs' := (job.options.order.arrange_perm _).mem_iff.mpr hs
  exact mem_unitsIn_arrange.mp
    (horderly.unit_mem hs' (chosen_of_changed hplain hhistory hs hpath) hread)

end Filling

/-- **Scoring all files is scoring the changed ones and carrying them forward.** Both
runs fail alike, or the run over all files is the forward fill of the other one. -/
theorem run_filledForward (job : Job) (commits : List Commit)
    (hplain : Memory.Plain (commits.map Commit.step))
    (hhistory : job.history = (Memory.ofCommits commits).toHistory)
    (hwhole : (Memory.ofCommits commits).CoversAll job.options.range)
    (hsignal : job.signal = .never) (runId : String) (now : Time.Instant)
    (hdigest : DigestsApart job.tools.digest ((job.withFiles true).scoredUnits runId now)) :
    job.FillsForward commits runId now := by
  have horderly : ∀ oldest, (Memory.ofCommits commits).walk job.options.range .chronological =
      .ok oldest → ∀ allFiles, (job.withFiles allFiles).Orderly
        (job.options.order.arrange (Memory.ofCommits commits).revisions) := by
    intro oldest hwalk allFiles
    refine @orderly_of_sound (job.withFiles allFiles) _ hplain.sound hhistory _ ?_
    show (Memory.ofCommits commits).walk job.options.range job.options.order = _
    rw [Memory.walk_arrange, hwalk, hwhole oldest hwalk]
    rfl
  refine (@runs_alike (job.withFiles true) _ hplain.sound hhistory hsignal
    (job.withFiles false).options rfl runId now ?_).imp ?_ ?_
  · -- the run over changed files scores some of the units
    intro hgap oldest hwalk
    have hall := horderly oldest hwalk true
    rw [hall.scoredUnits_eq hsignal hgap] at hdigest
    have hapart := hdigest.subset fun u => mem_unitsIn_arrange.mpr
    rw [hwhole oldest hwalk]
    exact ⟨hapart, hapart.subset (units_of_changed hplain hhistory hall),
      mismatched_withFiles hplain hhistory⟩
  · exact id
  · rintro ⟨oldest, all, changed, hwalk, hall, hchanged, ha, hc⟩
    rw [hwhole oldest hwalk] at ha hc
    exact ⟨all, changed, hall, hchanged,
      filledForward_of_shows hplain hhistory ha hc (horderly oldest hwalk)⟩

/-- The commits of the program that comes back at another path. -/
def programCommits : List Commit :=
  [⟨"r1", .epoch, [⟨"a.rs", some program⟩, ⟨"m.txt", some ⟨#[]⟩⟩]⟩,
    ⟨"r2", .epoch, [⟨"b.rs", some program⟩]⟩]

/-- The run over the program that comes back, with all files and with changed ones. -/
theorem run_filledForward_program :
    DigestsApart .of (((programJob program).withFiles true).scoredUnits "" .epoch) ∧
      ∃ all changed, (((programJob program).withFiles true).run "" .epoch).1 = .ok all ∧
        (((programJob program).withFiles false).run "" .epoch).1 = .ok changed ∧
        (programJob program).FilledForward programCommits all.records changed.records := by
  have horderly : ((programJob program).withFiles true).Orderly programRevisions :=
    @orderly_of_sound ((programJob program).withFiles true) _
      (Memory.replay_sound (programSteps_plain program)) rfl _ (programJob_walk program)
  have hdigest : DigestsApart .of
      (((programJob program).withFiles true).scoredUnits "" .epoch) := by
    rw [horderly.scoredUnits_eq rfl (programJob_gap program)]
    unfold DigestsApart
    decide
  refine ⟨hdigest, ?_⟩
  rcases run_filledForward (programJob program) programCommits (programSteps_plain program) rfl
    (Memory.coversAll_whole _) rfl "" .epoch hdigest with ⟨e, -, hfails⟩ | hfilled
  · obtain ⟨report, hreport⟩ := programJob_report program
    have hboth : Except.error e = Except.ok report := hfails.symm.trans hreport
    cases hboth
  · exact hfilled

/-- The twin stays, and the program comes and goes. -/
def passingCommits : List Commit :=
  [⟨"r1", .epoch, [⟨"b.rs", some twin⟩]⟩, ⟨"r2", .epoch, [⟨"z.rs", some program⟩]⟩,
    ⟨"r3", .epoch, [⟨"z.rs", none⟩]⟩]

/-- A run over these commits that begins with the newest. -/
def passingJob : Job :=
  { programJob twin with
    history := (Memory.ofCommits passingCommits).toHistory
    options := ⟨.whole, .newestFirst, .function, false, false⟩ }

/-- The revisions of that run. -/
def passingRevisions : List Revision :=
  [⟨"r3", ["r2"], .epoch, "memory", "r3", [⟨"z.rs", .deleted⟩]⟩,
    ⟨"r2", ["r1"], .epoch, "memory", "r2", [⟨"z.rs", .added⟩]⟩,
    ⟨"r1", [], .epoch, "memory", "r1", [⟨"b.rs", .added⟩]⟩]

theorem passingCommits_plain : Memory.Plain (passingCommits.map Commit.step) := by
  constructor
  · show ["r1", "r2", "r3"].Nodup
    decide
  · intro step hstep
    obtain ⟨c, hc, rfl⟩ := List.mem_map.mp hstep
    simp only [passingCommits, List.mem_cons, List.not_mem_nil, or_false] at hc
    rcases hc with rfl | rfl | rfl <;> exact List.nodup_singleton _

theorem passingJob_orderly (allFiles : Bool) :
    (passingJob.withFiles allFiles).Orderly passingRevisions :=
  @orderly_of_sound (passingJob.withFiles allFiles) _ passingCommits_plain.sound rfl _ rfl

theorem passingJob_gap (allFiles : Bool) :
    (passingJob.withFiles allFiles).model.schemaGap? Feature.schema Feature.names = none :=
  programJob_gap twin

/-- Over all files the twin comes first, and everything is refused. -/
theorem shared_passingJob_all :
    ∀ u ∈ (passingJob.withFiles true).unitsIn (passingRevisions.map .ok),
      (passingJob.withFiles true).shared
        ((passingJob.withFiles true).unitsIn (passingRevisions.map .ok)) u = .error (.parse
          "content is not valid UTF-8: invalid utf-8 sequence of 1 bytes from index 0") := by
  have hunits : (passingJob.withFiles true).unitsIn (passingRevisions.map .ok) =
      [⟨.file "b.rs" "r3", twin⟩, ⟨.file "b.rs" "r2", twin⟩, ⟨.file "z.rs" "r2", program⟩,
        ⟨.file "b.rs" "r1", twin⟩] := rfl
  have hkeys : ∀ u ∈ (passingJob.withFiles true).unitsIn (passingRevisions.map .ok),
      ((passingJob.withFiles true).key ⟨.file "b.rs" "r3", twin⟩ ==
        (passingJob.withFiles true).key u) = true := by
    rw [hunits]
    decide
  intro u hu
  rw [hunits, shared_of_head (hkeys u hu)]
  rfl

/-- Two paths are changed and not deleted. -/
theorem told_passingJob_changed (scores : SourceUnit → ContentScores) :
    (passingRevisions.flatMap fun revision =>
      ((passingJob.withFiles false).chosen revision).flatMap
        ((passingJob.withFiles false).told scores revision)) =
      outcomesOf ⟨.file "z.rs" "r2", program⟩ .epoch
          (scores ⟨.file "z.rs" "r2", program⟩) ++
        outcomesOf ⟨.file "b.rs" "r1", twin⟩ .epoch (scores ⟨.file "b.rs" "r1", twin⟩) := by
  have hchosen : passingRevisions.map (passingJob.withFiles false).chosen =
      [[], ["z.rs"], ["b.rs"]] := rfl
  simp only [passingRevisions, List.map_cons, List.cons.injEq] at hchosen
  obtain ⟨hlast, hsecond, hfirst, -⟩ := hchosen
  simp only [passingRevisions, List.flatMap_cons, hlast, hsecond, hfirst, List.flatMap_nil,
    List.append_nil, List.nil_append]
  rfl

/-- Over changed files the program comes first, and its scores are told of the twin. -/
theorem shared_passingJob_changed : ∃ parts, parts ≠ [] ∧
    (passingJob.withFiles false).scores ⟨.file "z.rs" "r2", program⟩ = .ok parts ∧
    ∀ u ∈ (passingJob.withFiles false).unitsIn (passingRevisions.map .ok),
      (passingJob.withFiles false).shared
        ((passingJob.withFiles false).unitsIn (passingRevisions.map .ok)) u = .ok parts := by
  obtain ⟨parts, hparts, hscopes⟩ := scores_program
  have hscores : (passingJob.withFiles false).scores ⟨.file "z.rs" "r2", program⟩ = .ok parts := by
    rw [← hparts]
    exact @scores_eq_of_content (passingJob.withFiles false) ⟨.file "z.rs" "r2", program⟩
      ⟨.file "a.rs" "r1", program⟩ (by decide) rfl (by decide)
  have hunits : (passingJob.withFiles false).unitsIn (passingRevisions.map .ok) =
      [⟨.file "z.rs" "r2", program⟩, ⟨.file "b.rs" "r1", twin⟩] := rfl
  have hkeys : ∀ u ∈ (passingJob.withFiles false).unitsIn (passingRevisions.map .ok),
      ((passingJob.withFiles false).key ⟨.file "z.rs" "r2", program⟩ ==
        (passingJob.withFiles false).key u) = true := by
    rw [hunits]
    decide
  refine ⟨parts, ?_, hscores, ?_⟩
  · rintro rfl
    cases hscopes
  · intro u hu
    rw [hunits, shared_of_head (hkeys u hu), hscores]

/-- So a report over changed files has a record. -/
theorem records_passingJob_changed {changed : Report}
    (hreport : ((passingJob.withFiles false).run "" .epoch).1 = .ok changed) :
    changed.records ≠ [] := by
  obtain ⟨parts, hsome, hscores, hshared⟩ := shared_passingJob_changed
  have hshown := (passingJob_orderly false).shown_perm rfl hreport
  rw [told_passingJob_changed, hshared _ (List.mem_cons_self ..),
    hshared _ (List.mem_cons_of_mem _ (List.mem_singleton_self _))] at hshown
  intro hnone
  rw [Report.shown, hnone, List.map_nil, List.nil_append] at hshown
  refine records_ne_nil_of_report hreport ?_ ?_ hnone
  · intro hfailures
    rw [hfailures, List.map_nil, List.nil_perm, List.append_eq_nil_iff] at hshown
    have hunits := @unit?_outcomesOf ⟨.file "z.rs" "r2", program⟩ .rust (by decide) .epoch parts
    rw [hshown.1, List.map_nil, eq_comm, List.map_eq_nil_iff, List.map_eq_nil_iff] at hunits
    exact hsome hunits
  · intro f hf
    rcases List.mem_append.mp (hshown.mem_iff.mp (List.mem_map_of_mem hf)) with hprogram | htwin
    · exact isMismatch_of_failed_mem hscores hprogram
    · exact isMismatch_of_failed_mem hscores htwin

/-- The run over all files meets the twin first and shows no record, while the run over
changed files shows the program's. -/
theorem run_not_filledForward_twin :
    ∃ all, ((passingJob.withFiles true).run "" .epoch).1 = .ok all ∧ all.records = [] ∧
      (∀ changed, ((passingJob.withFiles false).run "" .epoch).1 = .ok changed →
        changed.records ≠ []) ∧
      ¬ passingJob.FillsForward passingCommits "" .epoch := by
  have hunit : (⟨.file "b.rs" "r3", twin⟩ : SourceUnit) ∈
      (passingJob.withFiles true).unitsIn (passingRevisions.map .ok) := List.mem_cons_self ..
  have hrefused : (passingJob.withFiles true).sharedOn .empty
      ((passingJob.withFiles true).unitsIn (passingRevisions.map .ok)) _ = .error _ :=
    shared_passingJob_all _ hunit
  obtain ⟨all, hall⟩ : ∃ all, ((passingJob.withFiles true).run "" .epoch).1 = .ok all :=
    exists_report_of_refused rfl (passingJob_gap true) (passingJob_orderly true).walk hunit hrefused
      rfl "" .epoch
  have hnone : all.records = [] := by
    rw [List.eq_nil_iff_forall_not_mem]
    intro record hrecord
    have htold := Aggregator.mem_records.mp ((records_perm hall).mem_iff.mp hrecord)
    have houtcomes := (passingJob_orderly true).outcomes_eq rfl (passingJob_gap true) "" .epoch
    rw [← runOn, ← run, houtcomes] at htold
    obtain ⟨revision, hr, u, hu, htold'⟩ := exists_unit_of_scored_mem_account htold
    rw [shared_passingJob_all u (mem_unitsIn.mpr ⟨revision, hr, hu⟩)] at htold'
    cases List.mem_singleton.mp htold'
  refine ⟨all, hall, hnone, fun changed => records_passingJob_changed, ?_⟩
  rintro (⟨e, hfails, -⟩ | ⟨all', changed, hall', hchanged, hfilled⟩)
  · rw [hall] at hfails
    cases hfails
  · rw [hall] at hall'
    cases hall'
    obtain ⟨record, hrecord⟩ :=
      List.exists_mem_of_ne_nil _ (records_passingJob_changed hchanged)
    have hkept := hfilled.kept record hrecord
    rw [hnone] at hkept
    cases hkept

end Readability.Run.Job
