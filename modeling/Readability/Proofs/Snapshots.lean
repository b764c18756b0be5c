import Mathlib.Data.List.Induction
import Readability.Proofs.Replay

/-!
# What a path holds at a revision

In a history of commits alone no file is broken, and there is a snapshot for each
commit (`recorded`). It holds of each path what the commits up to it leave there
(`contentAfter`), and the paths that its revision changed and did not delete are
those that its commit sets.

What is found at a path is what the latest commit left that set it
(`exists_latest`): commits that come after it neither set the path nor take it away.
-/

namespace Readability.History

/-! ## Files -/

namespace FileTable

theorem find?_cons (file : String × ByteArray) (rest : FileTable) (path : String) :
    find? (file :: rest) path = if file.1 = path then some file.2 else find? rest path := by
  rw [find?, List.find?_cons]
  by_cases h : file.1 = path
  · rw [if_pos h, beq_iff_eq.mpr h]
    rfl
  · rw [if_neg h, beq_false_of_ne h]
    rfl

theorem find?_set (files : FileTable) (path : String) (content : ByteArray) (other : String) :
    (files.set path content).find? other =
      if path = other then some content else files.find? other := by
  induction files with
  | nil => exact find?_cons _ _ _
  | cons file rest ih =>
    rw [set]
    split
    · -- the path keeps its place
      rename_i hsame
      rw [beq_iff_eq] at hsame
      rw [find?_cons, find?_cons, hsame]
      split_ifs <;> rfl
    · rename_i hdiffers
      rw [beq_iff_eq] at hdiffers
      split
      · rw [find?_cons]
      · rw [find?_cons, find?_cons, ih]
        split_ifs with hfile hpath
        · exact absurd (hfile.trans hpath.symm) hdiffers
        · rfl
        · rfl
        · rfl

theorem find?_erase (files : FileTable) (path other : String) :
    (files.erase path).find? other = if path = other then none else files.find? other := by
  induction files with
  | nil => exact (ite_self _).symm
  | cons file rest ih =>
    rw [erase] at ih ⊢
    by_cases hfile : file.1 = path
    · rw [List.filter_cons_of_neg (by simp [hfile]), ih, find?_cons]
      split_ifs with hpath hother
      · rfl
      · exact absurd (hfile.symm.trans hother) hpath
      · rfl
    · rw [List.filter_cons_of_pos (by simp [hfile]), find?_cons, find?_cons, ih]
      split_ifs with hother hpath
      · exact absurd (hother.trans hpath.symm) hfile
      · rfl
      · rfl
      · rfl

/-- A path is listed when it has a content. -/
theorem mem_paths_iff {files : FileTable} {path : String} :
    path ∈ files.paths ↔ (files.find? path).isSome = true := by
  rw [paths, find?, Option.isSome_map, List.find?_isSome, List.mem_map]
  simp only [beq_iff_eq]

end FileTable

/-- What an edit leaves at a path. -/
theorem find?_applyEdit (state : FileTable × List FileChange) (edit : Edit) (path : String) :
    (applyEdit state edit).1.find? path =
      if edit.path = path then edit.content else state.1.find? path := by
  rw [applyEdit]
  rcases hcontent : edit.content with _ | content
  · dsimp only
    split_ifs with hthere hpath hpath
    · rw [FileTable.find?_erase, if_pos hpath]
    · rw [FileTable.find?_erase, if_neg hpath]
    · rw [Bool.not_eq_true, Option.isSome_eq_false_iff, Option.isNone_iff_eq_none] at hthere
      rw [← hpath]
      exact hthere
    · rfl
  · exact FileTable.find?_set _ _ _ _

/-- The paths that changes leave with a content. -/
def keptPaths (changes : List FileChange) : List String :=
  (changes.filter fun change => change.kind != .deleted).map (·.path)

theorem keptPaths_applyEdit (state : FileTable × List FileChange) (edit : Edit) :
    keptPaths (applyEdit state edit).2 =
      keptPaths state.2 ++ (edit.content.map fun _ => edit.path).toList := by
  have hadd : ∀ change, keptPaths (state.2 ++ [change]) =
      keptPaths state.2 ++ keptPaths [change] := by
    intro change
    rw [keptPaths, List.filter_append, List.map_append]
    rfl
  rw [applyEdit]
  rcases edit.content with _ | content
  · dsimp only
    split
    · exact hadd _
    · exact (List.append_nil _).symm
  · dsimp only
    rw [hadd]
    split <;> rfl

/-! ## Commits -/

/-- A commit of a history in which no file is broken. -/
structure Commit where
  id : String
  timestamp : Time.Instant
  edits : List Edit

namespace Commit

/-- The step that takes the commit. -/
def step (c : Commit) : Memory.Step :=
  .commit c.id c.timestamp c.edits

/-- A commit gives a path a content. -/
def Sets (c : Commit) (path : String) : Prop :=
  ∃ content, ⟨path, some content⟩ ∈ c.edits

/-- The content of a path after a commit. -/
def after (c : Commit) (path : String) (before : Option ByteArray) : Option ByteArray :=
  match c.edits.find? fun edit => edit.path == path with
  | some edit => edit.content
  | none => before

end Commit

/-- The content of a path after some commits. -/
def contentAfter (commits : List Commit) (path : String) : Option ByteArray :=
  commits.foldl (fun before c => c.after path before) none

theorem contentAfter_concat (commits : List Commit) (c : Commit) (path : String) :
    contentAfter (commits ++ [c]) path = c.after path (contentAfter commits path) := by
  rw [contentAfter, List.foldl_append]
  rfl

/-- The edits of a commit leave what the one of the path says. -/
theorem find?_foldl_applyEdit (edits : List Edit) (path : String) :
    ∀ (state : FileTable × List FileChange), (edits.map (·.path)).Nodup →
      (edits.foldl applyEdit state).1.find? path =
        match edits.find? fun edit => edit.path == path with
        | some edit => edit.content
        | none => state.1.find? path := by
  induction edits with
  | nil => exact fun _ _ => rfl
  | cons edit edits ih =>
    intro state hpaths
    obtain ⟨hfirst, hrest⟩ := List.nodup_cons.mp hpaths
    rw [List.foldl_cons, ih _ hrest, List.find?_cons, find?_applyEdit]
    by_cases hpath : edit.path = path
    · -- no later edit names the path again
      have hnone : edits.find? (fun edit => edit.path == path) = none := by
        rw [List.find?_eq_none]
        intro other hother hsame
        rw [beq_iff_eq] at hsame
        exact hfirst (List.mem_map.mpr ⟨other, hother, hsame.trans hpath.symm⟩)
      rw [hnone, if_pos hpath, beq_iff_eq.mpr hpath]
    · rw [if_neg hpath, beq_false_of_ne hpath]

theorem keptPaths_foldl_applyEdit (edits : List Edit) :
    ∀ (state : FileTable × List FileChange),
      keptPaths (edits.foldl applyEdit state).2 = keptPaths state.2 ++
        edits.flatMap fun edit => (edit.content.map fun _ => edit.path).toList := by
  induction edits with
  | nil => exact fun state => (List.append_nil _).symm
  | cons edit edits ih =>
    intro state
    rw [List.foldl_cons, ih, keptPaths_applyEdit, List.flatMap_cons, List.append_assoc]

/-- A commit with distinct paths leaves to each what its edit says. -/
theorem Commit.after_of_mem {c : Commit} (hpaths : (c.edits.map (·.path)).Nodup) {edit : Edit}
    (hedit : edit ∈ c.edits) (before : Option ByteArray) :
    c.after edit.path before = edit.content := by
  have hsome : (c.edits.find? fun other => other.path == edit.path).isSome = true :=
    List.find?_isSome.mpr ⟨_, hedit, beq_self_eq_true edit.path⟩
  obtain ⟨other, hfind⟩ := Option.isSome_iff_exists.mp hsome
  have hpath := List.find?_some hfind
  rw [beq_iff_eq] at hpath
  have hsame : other = edit :=
    List.inj_on_of_nodup_map hpaths (List.mem_of_find?_eq_some hfind) hedit hpath
  rw [Commit.after, hfind, hsame]

/-- Among them is the content of each path that it sets. -/
theorem Commit.after_of_sets {c : Commit} (hpaths : (c.edits.map (·.path)).Nodup) {path : String}
    (h : c.Sets path) : ∃ content, ∀ before, c.after path before = some content := by
  obtain ⟨content, hedit⟩ := h
  exact ⟨content, c.after_of_mem hpaths hedit⟩

/-- A commit that leaves a content to a path has set it, or has left it alone. -/
theorem Commit.sets_or_after_eq {c : Commit} {path : String} {before : Option ByteArray}
    {content : ByteArray} (h : c.after path before = some content) :
    c.Sets path ∨ before = some content := by
  rw [Commit.after] at h
  rcases hfind : c.edits.find? fun edit => edit.path == path with _ | edit <;> rw [hfind] at h
  · exact .inr h
  · have hpath := List.find?_some hfind
    rw [beq_iff_eq] at hpath
    have hcontent : edit.content = some content := h
    refine .inl ⟨content, ?_⟩
    rw [← hpath, ← hcontent]
    exact List.mem_of_find?_eq_some hfind

/-- **A path with a content holds what the latest commit gave it that set it.** -/
theorem exists_latest {path : String} {content : ByteArray} (commits : List Commit)
    (h : contentAfter commits path = some content) :
    ∃ j d, commits[j]? = some d ∧ d.Sets path ∧
      contentAfter (commits.take (j + 1)) path = some content ∧
      ∀ k e, j < k → commits[k]? = some e → ¬ e.Sets path := by
  induction commits using List.reverseRecOn with
  | nil => cases h
  | append_singleton commits c ih =>
    rw [contentAfter_concat] at h
    -- either the last commit is the one, or it left the content where it was
    by_cases hset : c.Sets path
    · refine ⟨commits.length, c, List.getElem?_concat_length, hset, ?_, ?_⟩
      · rw [List.take_of_length_le (by rw [List.length_append]; exact Nat.le_refl _),
          contentAfter_concat, h]
      · intro k e hk he
        rw [List.getElem?_eq_none (by rw [List.length_append]; exact hk)] at he
        cases he
    · obtain ⟨j, d, hd, hsets, hcontent, hlater⟩ :=
        ih ((Commit.sets_or_after_eq h).resolve_left hset)
      obtain ⟨hj, -⟩ := List.getElem?_eq_some_iff.mp hd
      refine ⟨j, d, ?_, hsets, ?_, ?_⟩
      · rw [List.getElem?_append_left hj, hd]
      · rw [List.take_append_of_le_length hj, hcontent]
      · intro k e hk he
        rcases Nat.lt_or_ge k commits.length with hlt | hge
        · rw [List.getElem?_append_left hlt] at he
          exact hlater k e hk he
        · rw [List.getElem?_append_right hge, List.getElem?_singleton] at he
          split_ifs at he
          cases he
          exact hset

/-- It holds that of the latest one among the commits that it comes after. -/
theorem exists_latest_upTo {path : String} {content : ByteArray} {commits : List Commit} {i : Nat}
    (hi : i < commits.length) (h : contentAfter (commits.take (i + 1)) path = some content) :
    ∃ j d, j ≤ i ∧ commits[j]? = some d ∧ d.Sets path ∧
      contentAfter (commits.take (j + 1)) path = some content ∧
      ∀ k e, j < k → k ≤ i → commits[k]? = some e → ¬ e.Sets path := by
  obtain ⟨j, d, hd, hsets, hcontent, hlater⟩ := exists_latest _ h
  obtain ⟨hj, -⟩ := List.getElem?_eq_some_iff.mp hd
  rw [List.length_take] at hj
  have hji : j ≤ i := by omega
  rw [List.take_take, Nat.min_eq_left (by omega)] at hcontent
  rw [List.getElem?_take_of_lt (by omega)] at hd
  refine ⟨j, d, hji, hd, hsets, hcontent, ?_⟩
  intro k e hjk hki he
  refine hlater k e hjk ?_
  rwa [List.getElem?_take_of_lt (by omega)]

/-! ## Snapshots -/

/-- A commit makes a revision of its own name and date that changes what it sets. -/
structure Commit.Makes (c : Commit) (r : Revision) : Prop where
  id : r.id = c.id
  timestamp : r.timestamp = c.timestamp
  changed : ∀ path, path ∈ r.changedPaths ↔ c.Sets path

/-- What is recorded of a commit that comes after some others. -/
structure Recorded (before : List Commit) (c : Commit) (s : Snapshot) : Prop where
  revision : c.Makes s.revision
  files : ∀ path, s.files.find? path = contentAfter (before ++ [c]) path

/-- A snapshot holds what the commits up to its own leave. -/
theorem Recorded.content {commits : List Commit} {i : Nat} {c : Commit} {s : Snapshot}
    (h : Recorded (commits.take i) c s) (hc : commits[i]? = some c) (path : String) :
    s.files.find? path = contentAfter (commits.take (i + 1)) path := by
  rw [h.files, List.take_add_one, hc]
  rfl

namespace Memory

/-- The history of some commits. -/
def ofCommits (commits : List Commit) : Memory :=
  replay (commits.map Commit.step)

theorem ofCommits_concat (commits : List Commit) (c : Commit) :
    ofCommits (commits ++ [c]) = (ofCommits commits).apply c.step := by
  rw [ofCommits, ofCommits, replay, List.map_append, List.foldl_append]
  rfl

/-- The ids of the revisions are those of the commits. -/
theorem ids_ofCommits (commits : List Commit) : (ofCommits commits).ids = commits.map (·.id) := by
  induction commits using List.reverseRecOn with
  | nil => rfl
  | append_singleton commits c ih =>
    have hsnapshots : ((ofCommits commits).apply c.step).snapshots =
        (ofCommits commits).snapshots ++ _ := rfl
    rw [ofCommits_concat, ids, hsnapshots, List.map_append, List.map_append, ← ih]
    rfl

/-- A commit on top of others is recorded as such. -/
theorem recorded_commit {h : Memory} {commits : List Commit} {c : Commit}
    (hfiles : ∀ path, h.latestFiles.find? path = contentAfter commits path)
    (hpaths : (c.edits.map (·.path)).Nodup) :
    ∃ s, (h.apply c.step).snapshots = h.snapshots ++ [s] ∧ Recorded commits c s := by
  refine ⟨_, rfl, ⟨rfl, rfl, ?_⟩, ?_⟩
  · intro path
    show path ∈ keptPaths (c.edits.foldl applyEdit (h.latestFiles, [])).2 ↔ _
    rw [keptPaths_foldl_applyEdit, keptPaths, List.filter_nil, List.map_nil, List.nil_append,
      List.mem_flatMap]
    constructor
    · rintro ⟨⟨other, _ | content⟩, hedit, hpath⟩
      · cases hpath
      · rw [List.mem_singleton.mp hpath]
        exact ⟨content, hedit⟩
    · rintro ⟨content, hedit⟩
      exact ⟨_, hedit, List.mem_singleton_self path⟩
  · intro path
    show (c.edits.foldl applyEdit (h.latestFiles, [])).1.find? path = _
    rw [find?_foldl_applyEdit _ _ _ hpaths, contentAfter_concat, ← hfiles]
    rfl

/-- **Each commit has its snapshot.** -/
theorem recorded (commits : List Commit) (hpaths : ∀ c ∈ commits, (c.edits.map (·.path)).Nodup) :
    let h := ofCommits commits
    h.broken = [] ∧ (∀ path, h.latestFiles.find? path = contentAfter commits path) ∧
      h.snapshots.length = commits.length ∧
      ∀ i c s, commits[i]? = some c → h.snapshots[i]? = some s →
        Recorded (commits.take i) c s := by
  induction commits using List.reverseRecOn with
  | nil =>
    refine ⟨rfl, fun _ => rfl, rfl, ?_⟩
    intro i c s hc
    cases hc
  | append_singleton commits c ih =>
    -- the last commit is taken on the files that the others leave
    obtain ⟨hbroken, hfiles, hlength, hrecorded⟩ :=
      ih fun d hd => hpaths d (List.mem_append_left _ hd)
    obtain ⟨s, hsnapshots, hs⟩ :=
      recorded_commit hfiles (hpaths c (List.mem_append_right _ (List.mem_singleton_self c)))
    intro h
    have hh : h.snapshots = (ofCommits commits).snapshots ++ [s] := by
      rw [← hsnapshots, ← ofCommits_concat]
    refine ⟨?_, ?_, ?_, ?_⟩
    · show (ofCommits (commits ++ [c])).broken = []
      rw [ofCommits_concat]
      exact hbroken
    · intro path
      rw [latestFiles, latest?, hh, List.getLast?_concat]
      exact hs.files path
    · rw [hh, List.length_append, List.length_append, hlength]
      rfl
    · intro i d t hd ht
      rw [hh] at ht
      rcases Nat.lt_or_ge i commits.length with hlt | hge
      · rw [List.getElem?_append_left hlt] at hd
        rw [List.getElem?_append_left (by rw [hlength]; exact hlt)] at ht
        rw [List.take_append_of_le_length hlt.le]
        exact hrecorded i d t hd ht
      · rw [List.getElem?_append_right hge, List.getElem?_singleton] at hd
        rw [List.getElem?_append_right (by rw [hlength]; exact hge), List.getElem?_singleton,
          hlength] at ht
        split_ifs at hd ht with hi
        cases hd
        cases ht
        have hi' : i = commits.length := by omega
        rw [hi', List.take_left]
        exact hs

variable {h : Memory}

/-- A path of a snapshot that is not broken there can be read when it is there. -/
theorem read_of_unbroken (hsound : h.Sound) {s : Snapshot} (hs : s ∈ h.snapshots) {path : String}
    (hbroken : (s.revision.id, path) ∉ h.broken) :
    h.read s.revision.id path = match s.files.find? path with
      | some content => .ok content
      | none => .error (.notFound path s.revision.id) := by
  have hfree : h.broken.contains (s.revision.id, path) = false := by
    rw [← Bool.not_eq_true, List.contains_iff_mem]
    exact hbroken
  rw [read, hfree, snapshot_of_mem hsound hs]
  rfl

/-- Where no file is broken, every path of a snapshot can be read when it is there. -/
theorem read_of_mem (hsound : h.Sound) (hbroken : h.broken = []) {s : Snapshot}
    (hs : s ∈ h.snapshots) (path : String) :
    h.read s.revision.id path = match s.files.find? path with
      | some content => .ok content
      | none => .error (.notFound path s.revision.id) :=
  read_of_unbroken hsound hs (by rw [hbroken]; exact List.not_mem_nil)

/-- The revisions of a history, the oldest of them first. -/
def revisions (h : Memory) : List Revision :=
  h.snapshots.map (·.revision)

/-- The walk over a whole history yields all of its revisions. -/
theorem walk_whole (hsome : h.snapshots ≠ []) :
    h.walk .whole .chronological = .ok h.revisions := by
  have hupper : h.upperIndex RevisionRange.whole.upper = .ok (h.snapshots.length - 1) := by
    have hhead : (RevisionRange.whole.upper.getD "HEAD" == "HEAD") = true := rfl
    rw [upperIndex, if_pos hhead, if_neg (by rw [List.isEmpty_iff]; exact hsome)]
  have hall : h.snapshots.take (h.snapshots.length - 1 + 1) = h.snapshots :=
    List.take_of_length_le (by omega)
  rw [walk, hupper]
  show Except.ok (((h.snapshots.take (h.snapshots.length - 1 + 1)).drop 0).reverse.map
    (·.revision)).reverse = _
  rw [hall, List.drop_zero, List.map_reverse, List.reverse_reverse, revisions]

theorem walk_nothing (hnone : h.snapshots = []) (order : WalkOrder) :
    h.walk .whole order = .error (.invalidRange "history is empty") := by
  have hupper : h.upperIndex RevisionRange.whole.upper =
      .error (.invalidRange "history is empty") := by
    have hhead : (RevisionRange.whole.upper.getD "HEAD" == "HEAD") = true := rfl
    rw [upperIndex, if_pos hhead, if_pos (by rw [hnone]; rfl)]
  rw [walk, hupper]
  rfl

/-- A range leaves no revision out. -/
def CoversAll (h : Memory) (range : RevisionRange) : Prop :=
  ∀ revisions, h.walk range .chronological = .ok revisions → revisions = h.revisions

theorem coversAll_whole (h : Memory) : h.CoversAll .whole := by
  intro revisions hwalk
  by_cases hnone : h.snapshots = []
  · rw [walk_nothing hnone] at hwalk
    cases hwalk
  · rw [walk_whole hnone] at hwalk
    cases hwalk
    rfl

variable {commits : List Commit}

/-- The paths of a commit are distinct in a plain history. -/
theorem Plain.edits_nodup (hplain : Plain (commits.map Commit.step)) {c : Commit}
    (hc : c ∈ commits) : (c.edits.map (·.path)).Nodup :=
  hplain.paths c.step (List.mem_map_of_mem hc)

theorem Plain.sound (hplain : Plain (commits.map Commit.step)) : (ofCommits commits).Sound :=
  replay_sound hplain

/-- A commit has its snapshot. -/
theorem snapshot_of_commit (hplain : Plain (commits.map Commit.step)) {i : Nat} {c : Commit}
    (hc : commits[i]? = some c) :
    ∃ s ∈ (ofCommits commits).snapshots, Recorded (commits.take i) c s := by
  obtain ⟨-, -, hlength, hrecorded⟩ := recorded commits fun d => hplain.edits_nodup
  obtain ⟨hi, -⟩ := List.getElem?_eq_some_iff.mp hc
  rw [← hlength] at hi
  exact ⟨_, List.getElem_mem hi, hrecorded i c _ hc (List.getElem?_eq_getElem hi)⟩

/-- It has its revision, and there are no others. -/
theorem revision_of_commit (hplain : Plain (commits.map Commit.step)) {i : Nat} {c : Commit}
    (hc : commits[i]? = some c) :
    ∃ r ∈ (ofCommits commits).revisions, c.Makes r := by
  obtain ⟨s, hs, hrecorded⟩ := snapshot_of_commit hplain hc
  exact ⟨s.revision, List.mem_map_of_mem hs, hrecorded.revision⟩

theorem commit_of_revision (hplain : Plain (commits.map Commit.step)) {r : Revision}
    (hr : r ∈ (ofCommits commits).revisions) :
    ∃ (i : Nat) (c : Commit), commits[i]? = some c ∧ c.Makes r := by
  obtain ⟨s, hs, rfl⟩ := List.mem_map.mp hr
  obtain ⟨-, -, hlength, hrecorded⟩ := recorded commits fun d => hplain.edits_nodup
  obtain ⟨i, hi, rfl⟩ := List.getElem_of_mem hs
  have hi' : i < commits.length := by rwa [← hlength]
  exact ⟨i, commits[i], List.getElem?_eq_getElem hi',
    (hrecorded i _ _ (List.getElem?_eq_getElem hi') (List.getElem?_eq_getElem hi)).revision⟩

/-- What can be read at a commit is what the commits up to it leave. -/
theorem read_commit (hplain : Plain (commits.map Commit.step)) {i : Nat} {c : Commit}
    (hc : commits[i]? = some c) (path : String) :
    (ofCommits commits).read c.id path =
      match contentAfter (commits.take (i + 1)) path with
      | some content => .ok content
      | none => .error (.notFound path c.id) := by
  obtain ⟨s, hs, hrecorded⟩ := snapshot_of_commit hplain hc
  obtain ⟨hbroken, -, -, -⟩ := recorded commits fun d => hplain.edits_nodup
  rw [← hrecorded.revision.id, read_of_mem hplain.sound hbroken hs, hrecorded.content hc]

/-- The paths that are listed at a commit are those that have a content. -/
theorem listed_commit (hplain : Plain (commits.map Commit.step)) {i : Nat} {c : Commit}
    (hc : commits[i]? = some c) (path : String) :
    (∃ paths, (ofCommits commits).list c.id = .ok paths ∧ path ∈ paths) ↔
      (contentAfter (commits.take (i + 1)) path).isSome = true := by
  obtain ⟨s, hs, hrecorded⟩ := snapshot_of_commit hplain hc
  rw [← hrecorded.revision.id, list_of_mem hplain.sound hs, ← hrecorded.content hc,
    ← FileTable.mem_paths_iff]
  constructor
  · rintro ⟨paths, hpaths, hpath⟩
    cases hpaths
    exact hpath
  · exact fun hpath => ⟨_, rfl, hpath⟩

end Memory

end Readability.History
