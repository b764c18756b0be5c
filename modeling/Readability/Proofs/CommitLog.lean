import Readability.Proofs.Snapshots

/-!
# Snapshots and the log of commits

A history in memory keeps a full snapshot for each commit. What a snapshot holds can be told from
the log alone: of a path it holds what the latest commit says that names it (`Latest`), and a path
that this commit deletes, or that none names, is not there. `contentAfter` replays the log commit by
commit; that it finds the latest edit is `contentAfter_of_latest`.

Commits that come later, and files that are made unreadable, leave the snapshots before them alone:
the one of a commit is what taking that commit puts on top of the commits before it
(`snapshots_eq`).

Main statement: `replay_tells`. Reads, listings, parents and changes at a commit of any history are
those that the log tells.
-/

namespace Readability.History

/-! ## The latest edit of a path -/

/-- A commit names a path. -/
def Commit.Names (c : Commit) (path : String) : Prop :=
  ∃ edit ∈ c.edits, edit.path = path

/-- Of some commits, the latest one that names the path of an edit has this edit. -/
def Latest (commits : List Commit) (edit : Edit) : Prop :=
  ∃ older c newer, commits = older ++ c :: newer ∧ edit ∈ c.edits ∧
    ∀ d ∈ newer, ¬ d.Names edit.path

/-- A path is there after some commits: the latest one that names it sets it. -/
def Present (commits : List Commit) (path : String) : Prop :=
  ∃ content, Latest commits ⟨path, some content⟩

/-- A commit leaves a path alone that it does not name. -/
theorem Commit.after_of_not_names {c : Commit} {path : String} (h : ¬ c.Names path)
    (before : Option ByteArray) : c.after path before = before := by
  have hnone : c.edits.find? (fun edit => edit.path == path) = none := by
    rw [List.find?_eq_none]
    intro edit hedit hsame
    exact h ⟨edit, hedit, beq_iff_eq.mp hsame⟩
  rw [Commit.after, hnone]

theorem contentAfter_append_of_not_names {older newer : List Commit} {path : String}
    (h : ∀ d ∈ newer, ¬ d.Names path) :
    contentAfter (older ++ newer) path = contentAfter older path := by
  induction newer using List.reverseRecOn with
  | nil => rw [List.append_nil]
  | append_singleton newer d ih =>
    obtain ⟨hnewer, hd⟩ := List.forall_mem_append.mp h
    rw [← List.append_assoc, contentAfter_concat,
      Commit.after_of_not_names (hd d (List.mem_singleton_self d)), ih hnewer]

/-- **A path holds what the latest edit says that names it.** -/
theorem contentAfter_of_latest {commits : List Commit}
    (hpaths : ∀ c ∈ commits, (c.edits.map (·.path)).Nodup) {edit : Edit}
    (h : Latest commits edit) : contentAfter commits edit.path = edit.content := by
  obtain ⟨older, c, newer, rfl, hedit, hnewer⟩ := h
  have hc := hpaths c (List.mem_append_right _ List.mem_cons_self)
  rw [← List.singleton_append, ← List.append_assoc, contentAfter_append_of_not_names hnewer,
    contentAfter_concat, c.after_of_mem hc hedit]

/-- A path that no commit names holds nothing. -/
theorem contentAfter_of_not_names {commits : List Commit} {path : String}
    (h : ∀ c ∈ commits, ¬ c.Names path) : contentAfter commits path = none :=
  @contentAfter_append_of_not_names [] commits path h

/-- A path that is named has its latest edit. -/
theorem latest_or_not_names (commits : List Commit) (path : String) :
    (∃ content, Latest commits ⟨path, content⟩) ∨ ∀ c ∈ commits, ¬ c.Names path := by
  induction commits using List.reverseRecOn with
  | nil => exact .inr fun c hc => absurd hc List.not_mem_nil
  | append_singleton commits d ih =>
    by_cases hnames : d.Names path
    · obtain ⟨⟨_, content⟩, hedit, rfl⟩ := hnames
      exact .inl ⟨content, commits, d, [], rfl, hedit, fun c hc => absurd hc List.not_mem_nil⟩
    · rcases ih with ⟨content, older, c, newer, rfl, hedit, hnewer⟩ | hnone
      · refine .inl ⟨content, older, c, newer ++ [d], by simp, hedit, ?_⟩
        exact List.forall_mem_append.mpr ⟨hnewer, List.forall_mem_singleton.mpr hnames⟩
      · exact .inr (List.forall_mem_append.mpr ⟨hnone, List.forall_mem_singleton.mpr hnames⟩)

/-- A path is there when it holds something. -/
theorem present_iff {commits : List Commit} (hpaths : ∀ c ∈ commits, (c.edits.map (·.path)).Nodup)
    (path : String) : Present commits path ↔ (contentAfter commits path).isSome = true := by
  constructor
  · rintro ⟨content, hlatest⟩
    rw [contentAfter_of_latest hpaths hlatest]
    rfl
  · intro hsome
    rcases latest_or_not_names commits path with ⟨content, hlatest⟩ | hnone
    · rw [contentAfter_of_latest hpaths hlatest] at hsome
      obtain ⟨bytes, rfl⟩ := Option.isSome_iff_exists.mp hsome
      exact ⟨bytes, hlatest⟩
    · rw [contentAfter_of_not_names hnone] at hsome
      cases hsome

/-! ## What is recorded of a commit -/

/-- What is recorded of the edits of a commit that comes after some others, edit by edit. -/
inductive Records (before : List Commit) : List Edit → List FileChange → Prop
  | nil : Records before [] []
  | added {path : String} {content : ByteArray} {edits : List Edit} {changes : List FileChange}
      (absent : ¬ Present before path) (rest : Records before edits changes) :
      Records before (⟨path, some content⟩ :: edits) (⟨path, .added⟩ :: changes)
  | modified {path : String} {content : ByteArray} {edits : List Edit} {changes : List FileChange}
      (present : Present before path) (rest : Records before edits changes) :
      Records before (⟨path, some content⟩ :: edits) (⟨path, .modified⟩ :: changes)
  | deleted {path : String} {edits : List Edit} {changes : List FileChange}
      (present : Present before path) (rest : Records before edits changes) :
      Records before (⟨path, none⟩ :: edits) (⟨path, .deleted⟩ :: changes)
  /-- Deleting what is not there is no change. -/
  | idle {path : String} {edits : List Edit} {changes : List FileChange}
      (absent : ¬ Present before path) (rest : Records before edits changes) :
      Records before (⟨path, none⟩ :: edits) changes

/-- Edits are recorded by what their paths held before. It is what they hold when the edit is taken,
since no edit before it in the commit names the same path. -/
theorem records_foldl_applyEdit {before : List Commit} {edits : List Edit}
    (hpaths : (edits.map (·.path)).Nodup) {state : FileTable × List FileChange}
    (hstate : ∀ edit ∈ edits,
      Present before edit.path ↔ (state.1.find? edit.path).isSome = true) :
    ∃ changes, (edits.foldl applyEdit state).2 = state.2 ++ changes ∧
      Records before edits changes := by
  induction edits generalizing state with
  | nil => exact ⟨[], (List.append_nil _).symm, .nil⟩
  | cons edit edits ih =>
    obtain ⟨hfirst, hrest⟩ := List.nodup_cons.mp hpaths
    obtain ⟨hedit, hedits⟩ := List.forall_mem_cons.mp hstate
    have hafter : ∀ other ∈ edits,
        Present before other.path ↔ ((applyEdit state edit).1.find? other.path).isSome = true := by
      intro other hother
      have hne : edit.path ≠ other.path := fun hsame =>
        hfirst (List.mem_map.mpr ⟨other, hother, hsame.symm⟩)
      rw [find?_applyEdit, if_neg hne]
      exact hedits other hother
    obtain ⟨changes, hchanges, hrecords⟩ := ih hrest hafter
    obtain ⟨files, recorded⟩ := state
    obtain ⟨path, _ | content⟩ := edit
    · -- the edit deletes its path
      by_cases hthere : (files.find? path).isSome = true
      · refine ⟨⟨path, .deleted⟩ :: changes, ?_, .deleted (hedit.mpr hthere) hrecords⟩
        rw [List.foldl_cons, hchanges, applyEdit]
        dsimp only
        rw [if_pos hthere, List.append_assoc, List.singleton_append]
      · refine ⟨changes, ?_, .idle (mt hedit.mp hthere) hrecords⟩
        rw [List.foldl_cons, hchanges, applyEdit]
        dsimp only
        rw [if_neg hthere]
    · -- the edit sets its path
      by_cases hthere : (files.find? path).isSome = true
      · refine ⟨⟨path, .modified⟩ :: changes, ?_, .modified (hedit.mpr hthere) hrecords⟩
        rw [List.foldl_cons, hchanges, applyEdit]
        dsimp only
        rw [if_pos hthere, List.append_assoc, List.singleton_append]
      · refine ⟨⟨path, .added⟩ :: changes, ?_, .added (mt hedit.mp hthere) hrecords⟩
        rw [List.foldl_cons, hchanges, applyEdit]
        dsimp only
        rw [if_neg hthere, List.append_assoc, List.singleton_append]

/-- What the revision of a commit that comes after some others tells. -/
structure Commit.IsToldBy (c : Commit) (before : List Commit) (r : Revision) : Prop where
  id : r.id = c.id
  timestamp : r.timestamp = c.timestamp
  /-- The latest commit before is the only parent. -/
  parents : r.parents = (before.getLast?.map (·.id)).toList
  changes : Records before c.edits r.changes
  /-- What a revision changed, deletions aside, is there. -/
  present : ∀ path ∈ r.changedPaths, Present (before ++ [c]) path

namespace Memory

/-! ## Snapshots stay -/

/-- A commit puts one snapshot on top. -/
theorem exists_snapshots_apply (h : Memory) (c : Commit) :
    ∃ s, (h.apply c.step).snapshots = h.snapshots ++ [s] :=
  ⟨_, rfl⟩

/-- Steps leave the snapshots before them alone. -/
theorem exists_snapshots_foldl_apply (steps : List Step) (h : Memory) :
    ∃ more, (steps.foldl apply h).snapshots = h.snapshots ++ more := by
  induction steps generalizing h with
  | nil => exact ⟨[], (List.append_nil _).symm⟩
  | cons step steps ih =>
    obtain ⟨more, hmore⟩ := ih (h.apply step)
    cases step with
    | commit id timestamp edits =>
      obtain ⟨s, hs⟩ := exists_snapshots_apply h ⟨id, timestamp, edits⟩
      refine ⟨s :: more, ?_⟩
      rw [List.append_cons, ← hs]
      exact hmore
    | breakFile revision path => exact ⟨more, hmore⟩

theorem length_snapshots_ofCommits (commits : List Commit) :
    (ofCommits commits).snapshots.length = commits.length := by
  have hids := congrArg List.length (ids_ofCommits commits)
  rwa [ids, List.length_map, List.length_map] at hids

/-- **The snapshot of a commit is what the commit puts on top of those before it.** -/
theorem snapshots_eq {commits : List Commit} {i : Nat} {c : Commit} (hc : commits[i]? = some c) :
    (ofCommits commits).snapshots[i]? = ((ofCommits (commits.take i)).apply c.step).latest? := by
  obtain ⟨hi, -⟩ := List.getElem?_eq_some_iff.mp hc
  have hsplit : commits = commits.take i ++ [c] ++ commits.drop (i + 1) := by
    have hjoin := List.take_append_drop (i + 1) commits
    rw [List.take_add_one, hc] at hjoin
    exact hjoin.symm
  have hcount : (ofCommits (commits.take i)).snapshots.length = i := by
    rw [length_snapshots_ofCommits, List.length_take, Nat.min_eq_left hi.le]
  obtain ⟨s, hs⟩ := exists_snapshots_apply (ofCommits (commits.take i)) c
  obtain ⟨more, hmore⟩ := exists_snapshots_foldl_apply ((commits.drop (i + 1)).map Commit.step)
    (ofCommits (commits.take i ++ [c]))
  have hall : (ofCommits commits).snapshots =
      (ofCommits (commits.take i)).snapshots ++ s :: more := by
    rw [ofCommits_concat, hs, List.append_assoc, List.singleton_append] at hmore
    rw [← hmore, ← ofCommits_concat, ofCommits, ofCommits, replay, replay, ← List.foldl_append,
      ← List.map_append, ← hsplit]
  rw [hall, List.getElem?_append_right hcount.le, hcount, Nat.sub_self, latest?, hs,
    List.getLast?_concat]
  rfl

/-- What the revision of a commit tells. -/
theorem isToldBy_of_place {commits : List Commit}
    (hpaths : ∀ c ∈ commits, (c.edits.map (·.path)).Nodup) {i : Nat} {c : Commit}
    (hc : commits[i]? = some c) {s : Snapshot}
    (hs : (ofCommits commits).snapshots[i]? = some s) :
    c.IsToldBy (commits.take i) s.revision := by
  have hbefore : ∀ d ∈ commits.take i, (d.edits.map (·.path)).Nodup := fun d hd =>
    hpaths d (List.mem_of_mem_take hd)
  obtain ⟨-, hfiles, -, -⟩ := recorded _ hbefore
  obtain ⟨-, -, -, hrecorded⟩ := recorded commits hpaths
  have hs' := hrecorded i c s hc hs
  refine ⟨hs'.revision.id, hs'.revision.timestamp, ?_, ?_, ?_⟩
  · have hids := ids_ofCommits (commits.take i)
    rw [snapshots_eq hc] at hs
    cases Option.some.inj ((List.getLast?_concat ..).symm.trans hs)
    show ((ofCommits (commits.take i)).latest?).toList.map (·.revision.id) = _
    rw [← List.getLast?_map, ← hids, ids, List.getLast?_map, latest?, Option.toList_map]
  · obtain ⟨changes, hchanges, hrecords⟩ :=
      @records_foldl_applyEdit (commits.take i) c.edits (hpaths c (List.mem_of_getElem? hc))
        ((ofCommits (commits.take i)).latestFiles, [])
        fun edit _ => by rw [present_iff hbefore, hfiles]
    rw [snapshots_eq hc] at hs
    cases Option.some.inj ((List.getLast?_concat ..).symm.trans hs)
    show Records _ _ (c.edits.foldl applyEdit ((ofCommits (commits.take i)).latestFiles, [])).2
    rw [hchanges]
    exact hrecords
  · intro path hpath
    have hpathsC := hpaths c (List.mem_of_getElem? hc)
    obtain ⟨content, hedit⟩ := (hs'.revision.changed path).mp hpath
    exact ⟨content, commits.take i, c, [], rfl, hedit, fun d hd => absurd hd List.not_mem_nil⟩

/-! ## Any history -/

/-- The commit of a step. -/
def Step.commit? : Step → Option Commit
  | .commit id timestamp edits => some ⟨id, timestamp, edits⟩
  | .breakFile .. => none

/-- The commits among some steps. -/
def commitsOf (steps : List Step) : List Commit :=
  steps.filterMap Step.commit?

theorem replay_concat (steps : List Step) (step : Step) :
    replay (steps ++ [step]) = (replay steps).apply step := by
  rw [replay, List.foldl_append]
  rfl

/-- What a commit puts on top hangs on the snapshots below it alone. -/
theorem snapshots_commit_congr {g h : Memory} (hsame : g.snapshots = h.snapshots) (c : Commit) :
    (g.apply c.step).snapshots = (h.apply c.step).snapshots := by
  show (g.commit c.id c.timestamp c.edits).snapshots = (h.commit c.id c.timestamp c.edits).snapshots
  simp only [commit, latestFiles, latest?, hsame]

/-- Steps that break files change no snapshot. -/
theorem snapshots_replay (steps : List Step) :
    (replay steps).snapshots = (ofCommits (commitsOf steps)).snapshots := by
  induction steps using List.reverseRecOn with
  | nil => rfl
  | append_singleton steps step ih =>
    rw [replay_concat, commitsOf, List.filterMap_append]
    cases step with
    | commit id timestamp edits =>
      show _ = (ofCommits (commitsOf steps ++ [⟨id, timestamp, edits⟩])).snapshots
      rw [ofCommits_concat]
      exact snapshots_commit_congr ih ⟨id, timestamp, edits⟩
    | breakFile revision path =>
      show (replay steps).snapshots = (ofCommits (commitsOf steps ++ [])).snapshots
      rw [List.append_nil, ih]

theorem mem_broken_replay {steps : List Step} {revision path : String} :
    (revision, path) ∈ (replay steps).broken ↔ .breakFile revision path ∈ steps := by
  induction steps using List.reverseRecOn with
  | nil => exact iff_of_false List.not_mem_nil List.not_mem_nil
  | append_singleton steps step ih =>
    rw [replay_concat, List.mem_append, List.mem_singleton, ← ih]
    cases step with
    | commit id timestamp edits => exact (or_iff_left nofun).symm
    | breakFile other file =>
      show _ ∈ (other, file) :: (replay steps).broken ↔ _
      rw [List.mem_cons, Prod.mk.injEq, Step.breakFile.injEq, or_comm]

variable {steps : List Step}

theorem Plain.commits_nodup (hplain : Plain steps) :
    ∀ c ∈ commitsOf steps, (c.edits.map (·.path)).Nodup := by
  intro c hc
  obtain ⟨step, hstep, hcommit⟩ := List.mem_filterMap.mp hc
  cases step with
  | commit id timestamp edits =>
    cases hcommit
    exact hplain.paths _ hstep
  | breakFile revision path => cases hcommit

/-- A commit has its snapshot, and it is as the log tells. -/
theorem exists_snapshot_of_place (hplain : Plain steps) {i : Nat} {c : Commit}
    (hc : (commitsOf steps)[i]? = some c) :
    ∃ s, (replay steps).snapshots[i]? = some s ∧ Recorded ((commitsOf steps).take i) c s ∧
      c.IsToldBy ((commitsOf steps).take i) s.revision := by
  obtain ⟨-, -, hlength, hrecorded⟩ := recorded _ hplain.commits_nodup
  obtain ⟨hi, -⟩ := List.getElem?_eq_some_iff.mp hc
  rw [← hlength] at hi
  have hs := List.getElem?_eq_getElem hi
  exact ⟨_, by rw [snapshots_replay, hs], hrecorded i c _ hc hs,
    isToldBy_of_place hplain.commits_nodup hc hs⟩

/-- What a path that is not broken holds decides what is read there. -/
theorem read_of_place (hplain : Plain steps) {i : Nat} {c : Commit}
    (hc : (commitsOf steps)[i]? = some c) {path : String}
    (hfree : Step.breakFile c.id path ∉ steps) :
    (replay steps).read c.id path =
      (contentAfter ((commitsOf steps).take (i + 1)) path).elim
        (.error (.notFound path c.id)) .ok := by
  obtain ⟨s, hs, hrecorded, -⟩ := exists_snapshot_of_place hplain hc
  rw [← hrecorded.revision.id, ← mem_broken_replay] at hfree
  rw [← hrecorded.revision.id, ← hrecorded.content hc,
    read_of_unbroken (replay_sound hplain) (List.mem_of_getElem? hs) hfree]
  cases s.files.find? path with
  | none => rfl
  | some content => rfl

/-- The revisions of a history, as the log of its commits tells them. -/
structure TellsLog (steps : List Step) : Prop where
  /-- There is one revision for each commit. -/
  length : (replay steps).revisions.length = (commitsOf steps).length
  /-- The walk over all of the history yields them. -/
  walk : commitsOf steps ≠ [] →
    (replay steps).walk .whole .chronological = .ok (replay steps).revisions
  revision : ∀ i (c : Commit), (commitsOf steps)[i]? = some c →
    ∃ r, (replay steps).revisions[i]? = some r ∧ c.IsToldBy ((commitsOf steps).take i) r
  /-- A path reads as the bytes that the latest commit sets that names it. -/
  reads : ∀ i (c : Commit) path content, (commitsOf steps)[i]? = some c →
    Step.breakFile c.id path ∉ steps →
    Latest ((commitsOf steps).take (i + 1)) ⟨path, some content⟩ →
      (replay steps).read c.id path = .ok content
  /-- It is not found if that commit deletes it, or none names it. -/
  misses : ∀ i (c : Commit) path, (commitsOf steps)[i]? = some c →
    Step.breakFile c.id path ∉ steps →
    (Latest ((commitsOf steps).take (i + 1)) ⟨path, none⟩ ∨
      ∀ d ∈ (commitsOf steps).take (i + 1), ¬ d.Names path) →
      (replay steps).read c.id path = .error (.notFound path c.id)
  /-- The paths that are there are listed in their order, each once. -/
  lists : ∀ i (c : Commit), (commitsOf steps)[i]? = some c →
    ∃ paths, (replay steps).list c.id = .ok paths ∧ paths.Pairwise (· < ·) ∧
      ∀ path, path ∈ paths ↔ Present ((commitsOf steps).take (i + 1)) path

/-- **Snapshots replay the log of commits.** -/
theorem replay_tells (hplain : Plain steps) : TellsLog steps := by
  have hsound := replay_sound hplain
  have hupTo : ∀ i, ∀ d ∈ (commitsOf steps).take i, (d.edits.map (·.path)).Nodup := fun i d hd =>
    hplain.commits_nodup d (List.mem_of_mem_take hd)
  refine ⟨?_, ?_, ?_, ?_, ?_, ?_⟩
  · rw [revisions, List.length_map, snapshots_replay, length_snapshots_ofCommits]
  · intro hsome
    refine walk_whole ?_
    rw [snapshots_replay]
    intro hnone
    have hlength := length_snapshots_ofCommits (commitsOf steps)
    rw [hnone] at hlength
    exact hsome (List.length_eq_zero_iff.mp hlength.symm)
  · intro i c hc
    obtain ⟨s, hs, -, htold⟩ := exists_snapshot_of_place hplain hc
    exact ⟨s.revision, by rw [revisions, List.getElem?_map, hs, Option.map_some], htold⟩
  · intro i c path content hc hfree hlatest
    have hcontent := contentAfter_of_latest (hupTo (i + 1)) hlatest
    rw [read_of_place hplain hc hfree, hcontent, Option.elim_some]
  · intro i c path hc hfree hgone
    have hnone : contentAfter ((commitsOf steps).take (i + 1)) path = none := by
      rcases hgone with hlatest | hnone
      · exact contentAfter_of_latest (hupTo (i + 1)) hlatest
      · exact contentAfter_of_not_names hnone
    rw [read_of_place hplain hc hfree, hnone, Option.elim_none]
  · intro i c hc
    obtain ⟨s, hs, hrecorded, -⟩ := exists_snapshot_of_place hplain hc
    have hmem := List.mem_of_getElem? hs
    refine ⟨s.files.paths, ?_, (hsound.snapshots s hmem).files, fun path => ?_⟩
    · rw [← hrecorded.revision.id, list_of_mem hsound hmem]
    · rw [FileTable.mem_paths_iff, hrecorded.content hc, present_iff (hupTo (i + 1))]

/-- A file is deleted and set again, one that is not there is deleted, and one cannot be read. -/
def revivedSteps : List Step :=
  [.commit "r1" .epoch [⟨"b.rs", some ⟨#[109]⟩⟩, ⟨"a.rs", some ⟨#[104, 105]⟩⟩],
    .breakFile "r3" "b.rs",
    .commit "r2" .epoch [⟨"c.rs", none⟩, ⟨"a.rs", none⟩],
    .commit "r3" .epoch [⟨"a.rs", some ⟨#[102]⟩⟩, ⟨"b.rs", some ⟨#[110]⟩⟩]]

theorem replay_tells_revivedSteps :
    Plain revivedSteps ∧ TellsLog revivedSteps ∧
      (replay revivedSteps).read "r2" "b.rs" = .ok ⟨#[109]⟩ ∧
      (replay revivedSteps).read "r2" "a.rs" = .error (.notFound "a.rs" "r2") ∧
      (replay revivedSteps).list "r3" = .ok ["a.rs", "b.rs"] := by
  have hplain : Plain revivedSteps := ⟨by decide, by decide⟩
  exact ⟨hplain, replay_tells hplain, rfl, rfl, rfl⟩

end Memory

end Readability.History
