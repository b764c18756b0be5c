import Mathlib.Data.List.Nodup
import Mathlib.Data.String.Basic
import Readability.History.Memory

/-!
# Histories in memory

A history in memory is given step by step (`Step`, `replay`). When no id is
committed twice and no commit names a path twice (`Plain`), each of its
snapshots is in order (`Sound`): ids are distinct, files are listed by their
paths and each path once, and no path is changed twice.

What follows for a walk: the revisions it yields are those of some snapshots, no
id twice (`walk_spec`), and each of them can be listed (`list_of_mem`).
-/

namespace Readability.History

/-! ## Files -/

namespace FileTable

/-- Files in the order of their paths, each path once. -/
def Sorted (files : FileTable) : Prop :=
  files.paths.Pairwise (· < ·)

theorem sorted_nil : Sorted [] :=
  List.Pairwise.nil

theorem Sorted.nodup {files : FileTable} (h : files.Sorted) : files.paths.Nodup :=
  List.Pairwise.imp (fun hlt => ne_of_lt hlt) h

/-- Setting a path brings no other one. -/
theorem mem_paths_set {files : FileTable} {path other : String} {content : ByteArray}
    (h : other ∈ (files.set path content).paths) : other = path ∨ other ∈ files.paths := by
  induction files with
  | nil =>
    rw [set, paths, List.map_singleton, List.mem_singleton] at h
    exact .inl h
  | cons file rest ih =>
    rw [set] at h
    rw [paths, List.map_cons, List.mem_cons]
    split at h
    · rw [paths, List.map_cons, List.mem_cons] at h
      exact h.imp_right .inr
    · split at h
      · rw [paths, List.map_cons, List.map_cons, List.mem_cons, List.mem_cons] at h
        exact h
      · rw [paths, List.map_cons, List.mem_cons] at h
        rcases h with h | h
        · exact .inr (.inl h)
        · exact (ih h).imp_right .inr

theorem Sorted.set {files : FileTable} (h : files.Sorted) (path : String) (content : ByteArray) :
    (files.set path content).Sorted := by
  induction files with
  | nil => exact List.pairwise_singleton _ _
  | cons file rest ih =>
    obtain ⟨hfile, hrest⟩ := List.pairwise_cons.mp h
    rw [FileTable.set]
    split
    · -- the path is there and keeps its place
      rename_i hsame
      rw [beq_iff_eq] at hsame
      rw [← hsame]
      exact List.pairwise_cons.mpr ⟨hfile, hrest⟩
    · rename_i hother
      rw [beq_iff_eq] at hother
      split
      · -- it comes before all that is left
        rename_i hlt
        refine List.pairwise_cons.mpr ⟨?_, h⟩
        intro p hp
        rcases List.mem_cons.mp hp with rfl | hp
        · exact hlt
        · exact lt_trans hlt (hfile p hp)
      · rename_i hge
        refine List.pairwise_cons.mpr ⟨?_, ih hrest⟩
        intro p hp
        rcases mem_paths_set hp with rfl | hp
        · exact lt_of_le_of_ne (not_lt.mp hge) hother
        · exact hfile p hp

theorem Sorted.erase {files : FileTable} (h : files.Sorted) (path : String) :
    (files.erase path).Sorted :=
  List.Pairwise.sublist (List.filter_sublist.map _) h

end FileTable

/-! ## Edits -/

/-- An edit leaves files in order, and records its path or nothing. -/
theorem applyEdit_spec (files : FileTable) (changes : List FileChange) (edit : Edit)
    (h : files.Sorted) :
    (applyEdit (files, changes) edit).1.Sorted ∧
      ∃ added, (applyEdit (files, changes) edit).2 = changes ++ added ∧
        (added.map (·.path)).Sublist [edit.path] := by
  rw [applyEdit]
  rcases edit.content with _ | content
  · dsimp only
    split
    · exact ⟨h.erase _, _, rfl, List.Sublist.refl _⟩
    · exact ⟨h, [], (List.append_nil _).symm, List.nil_sublist _⟩
  · exact ⟨h.set _ _, _, rfl, List.Sublist.refl _⟩

/-- The edits of a commit leave files in order, and record some of their paths. -/
theorem applyEdits_spec (edits : List Edit) :
    ∀ (files : FileTable) (changes : List FileChange), files.Sorted →
      (edits.foldl applyEdit (files, changes)).1.Sorted ∧
        ∃ added, (edits.foldl applyEdit (files, changes)).2 = changes ++ added ∧
          (added.map (·.path)).Sublist (edits.map (·.path)) := by
  induction edits with
  | nil => exact fun files changes h => ⟨h, [], (List.append_nil _).symm, List.Sublist.refl _⟩
  | cons edit edits ih =>
    intro files changes h
    obtain ⟨hsorted, first, hfirst, hsub⟩ := applyEdit_spec files changes edit h
    obtain ⟨hsorted', more, hmore, hsub'⟩ := ih _ (applyEdit (files, changes) edit).2 hsorted
    refine ⟨hsorted', first ++ more, ?_, ?_⟩
    · rw [List.foldl_cons, ← List.append_assoc, ← hfirst]
      exact hmore
    · rw [List.map_append, List.map_cons, ← List.singleton_append]
      exact hsub.append hsub'

/-- A snapshot with files in order and no path changed twice. -/
structure Snapshot.Sound (s : Snapshot) : Prop where
  files : s.files.Sorted
  changes : (s.revision.changes.map (·.path)).Nodup

namespace Memory

/-! ## Replaying steps -/

/-- A step in which a history is given. -/
inductive Step where
  | commit (id : String) (timestamp : Time.Instant) (edits : List Edit)
  | breakFile (revision path : String)

/-- Takes a step. -/
def apply (h : Memory) : Step → Memory
  | .commit id timestamp edits => h.commit id timestamp edits
  | .breakFile revision path => h.breakFile revision path

/-- The history that some steps give. -/
def replay (steps : List Step) : Memory :=
  steps.foldl apply .empty

/-- The id that is committed. -/
def Step.id? : Step → Option String
  | .commit id _ _ => some id
  | .breakFile _ _ => none

/-- The paths that are named, in the order in which they are. -/
def Step.paths : Step → List String
  | .commit _ _ edits => edits.map (·.path)
  | .breakFile _ _ => []

/-- No id is committed twice, and no commit names a path twice. -/
structure Plain (steps : List Step) : Prop where
  ids : (steps.filterMap Step.id?).Nodup
  paths : ∀ step ∈ steps, step.paths.Nodup

/-- The ids of the revisions, the oldest first. -/
def ids (h : Memory) : List String :=
  h.snapshots.map fun s => s.revision.id

/-- A history of distinct ids, with every snapshot in order. -/
structure Sound (h : Memory) : Prop where
  ids : h.ids.Nodup
  snapshots : ∀ s ∈ h.snapshots, s.Sound

/-- A commit puts one sound snapshot on top. -/
theorem commit_spec {h : Memory} (hsound : ∀ s ∈ h.snapshots, s.Sound) (id : String)
    (timestamp : Time.Instant) {edits : List Edit} (hpaths : (edits.map (·.path)).Nodup) :
    ∃ s, (h.commit id timestamp edits).snapshots = h.snapshots ++ [s] ∧ s.revision.id = id ∧
      s.Sound := by
  refine ⟨_, rfl, rfl, ?_⟩
  have hbefore : h.latestFiles.Sorted := by
    rw [latestFiles, latest?]
    rcases hlast : h.snapshots.getLast? with _ | last
    · exact FileTable.sorted_nil
    · exact (hsound last (List.mem_of_getLast? hlast)).files
  obtain ⟨hfiles, added, hadded, hsub⟩ := applyEdits_spec edits _ [] hbefore
  rw [List.nil_append] at hadded
  rw [← hadded] at hsub
  exact ⟨hfiles, hsub.nodup hpaths⟩

/-- Steps add the ids that they commit, and leave snapshots sound. -/
theorem foldl_apply_spec (steps : List Step) :
    ∀ (h : Memory), (∀ s ∈ h.snapshots, s.Sound) → (∀ step ∈ steps, step.paths.Nodup) →
      (steps.foldl apply h).ids = h.ids ++ steps.filterMap Step.id? ∧
        ∀ s ∈ (steps.foldl apply h).snapshots, Snapshot.Sound s := by
  induction steps with
  | nil => exact fun h hsound _ => ⟨(List.append_nil _).symm, hsound⟩
  | cons step steps ih =>
    intro h hsound hpaths
    obtain ⟨hstep, hsteps⟩ := List.forall_mem_cons.mp hpaths
    rw [List.foldl_cons]
    cases step with
    | commit id timestamp edits =>
      obtain ⟨s, hsnapshots, hid, hs⟩ := commit_spec hsound id timestamp hstep
      have hsound' : ∀ t ∈ (h.commit id timestamp edits).snapshots, t.Sound := by
        rw [hsnapshots]
        exact List.forall_mem_append.mpr ⟨hsound, List.forall_mem_singleton.mpr hs⟩
      obtain ⟨hids, hall⟩ := ih _ hsound' hsteps
      refine ⟨?_, hall⟩
      rw [apply, hids, ids, hsnapshots, List.map_append, List.map_singleton, hid,
        List.append_assoc]
      rfl
    | breakFile revision path => exact ih (h.breakFile revision path) hsound hsteps

/-- **Steps that commit no id and name no path twice give a sound history.** -/
theorem replay_sound {steps : List Step} (h : Plain steps) : (replay steps).Sound := by
  obtain ⟨hids, hall⟩ := foldl_apply_spec steps .empty
    (fun s hs => absurd hs List.not_mem_nil) h.paths
  refine ⟨?_, hall⟩
  rw [replay, hids]
  exact h.ids

/-! ## What a walk yields -/

variable {h : Memory}

/-- A snapshot is found by its id. -/
theorem snapshot_of_mem (hsound : h.Sound) {s : Snapshot} (hs : s ∈ h.snapshots) :
    h.snapshot s.revision.id = .ok s := by
  have hsome : (h.snapshots.find? fun t => t.revision.id == s.revision.id).isSome = true :=
    List.find?_isSome.mpr ⟨s, hs, beq_self_eq_true _⟩
  obtain ⟨t, hfind⟩ := Option.isSome_iff_exists.mp hsome
  have hid := List.find?_some hfind
  rw [beq_iff_eq] at hid
  have hsame : t = s :=
    List.inj_on_of_nodup_map hsound.ids (List.mem_of_find?_eq_some hfind) hs hid
  rw [snapshot, hfind, hsame]

/-- All files of a snapshot are listed. -/
theorem list_of_mem (hsound : h.Sound) {s : Snapshot} (hs : s ∈ h.snapshots) :
    h.list s.revision.id = .ok s.files.paths := by
  rw [list, snapshot_of_mem hsound hs]
  rfl

/-- The revisions between two places, the newest first, and no more of them than
the limit allows. -/
def newest (h : Memory) (first last : Nat) (limit : Option Nat) : List Revision :=
  let all := ((h.snapshots.take (last + 1)).drop first).reverse.map (·.revision)
  match limit with
  | some limit => all.take limit
  | none => all

/-- A walk yields the newest revisions of its range, in one order or the other. -/
theorem walk_eq_ok {range : RevisionRange} {order : WalkOrder} {revisions : List Revision}
    (hwalk : h.walk range order = .ok revisions) :
    ∃ first last, revisions = match order with
      | .newestFirst => h.newest first last range.limit
      | .chronological => (h.newest first last range.limit).reverse := by
  rw [walk] at hwalk
  rcases hlast : h.upperIndex range.upper with e | last
  · rw [hlast] at hwalk
    cases hwalk
  rcases hfirst : h.lowerCount range.lower with e | first
  · rw [hlast, hfirst] at hwalk
    cases hwalk
  rw [hlast, hfirst] at hwalk
  injection hwalk with hrevisions
  exact ⟨first, last, hrevisions.symm⟩

/-- Turned round, they stand as they do in the history. -/
theorem newest_sublist (first last : Nat) (limit : Option Nat) :
    (h.newest first last limit).reverse.Sublist (h.snapshots.map (·.revision)) := by
  have hrange : ((h.snapshots.take (last + 1)).drop first).Sublist h.snapshots :=
    (List.drop_sublist _ _).trans (List.take_sublist _ _)
  have hall : (((h.snapshots.take (last + 1)).drop first).reverse.map (·.revision)).reverse.Sublist
      (h.snapshots.map (·.revision)) := by
    rw [List.map_reverse, List.reverse_reverse]
    exact hrange.map _
  unfold newest
  cases limit with
  | none => exact hall
  | some limit => exact (List.take_sublist _ _).reverse.trans hall

/-- The revisions of a walk are those of snapshots, no id twice. -/
theorem walk_spec (hsound : h.Sound) {range : RevisionRange} {order : WalkOrder}
    {revisions : List Revision} (hwalk : h.walk range order = .ok revisions) :
    (revisions.map (·.id)).Nodup ∧ ∀ r ∈ revisions, ∃ s ∈ h.snapshots, s.revision = r := by
  obtain ⟨first, last, hrevisions⟩ := walk_eq_ok hwalk
  have hsub := newest_sublist (h := h) first last range.limit
  have hids : (((h.newest first last range.limit).reverse).map (·.id)).Nodup := by
    refine (hsub.map _).nodup ?_
    rw [List.map_map]
    exact hsound.ids
  have hmem : ∀ r ∈ (h.newest first last range.limit).reverse, ∃ s ∈ h.snapshots,
      s.revision = r := fun r hr => List.mem_map.mp (hsub.subset hr)
  cases order with
  | chronological =>
    rw [hrevisions]
    exact ⟨hids, hmem⟩
  | newestFirst =>
    rw [List.map_reverse, List.nodup_reverse] at hids
    rw [hrevisions]
    exact ⟨hids, fun r hr => hmem r (List.mem_reverse.mpr hr)⟩

end Memory

end Readability.History
