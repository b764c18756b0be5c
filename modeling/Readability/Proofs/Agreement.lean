import Readability.Proofs.Answers
import Readability.Proofs.TwoStores

/-!
# Two readers of one history

Whoever reads a history asks four questions, and does not know which store answers. On a straight
history of plain files the repository and the history in memory give the same answers: the walks
over any range fail alike or yield the same revisions in the same order (`walks_eq`), and at each of
them the same files are listed, the same contents are read and the same paths are changed
(`revision_agrees`). This is so whatever library the repository is read through, as long as it
answers as it should (`Answers`).

Paths that cannot be looked up are the one question that they answer differently: a repository
refuses them, in memory they are paths like any other that are not there.
-/

namespace Readability.History.WalkOrder

theorem pick_map {α β : Type} (order : WalkOrder) (limit : Option Nat) (f : α → β)
    (newest : List α) : order.pick limit (newest.map f) = (order.pick limit newest).map f := by
  cases order <;> cases limit <;>
    simp only [pick, List.map_take, List.map_reverse]

theorem forall₂_pick {α β : Type} {R : α → β → Prop} (order : WalkOrder) (limit : Option Nat)
    {l : List α} {m : List β} (h : List.Forall₂ R l m) :
    List.Forall₂ R (order.pick limit l) (order.pick limit m) := by
  have hkept : ∀ n, List.Forall₂ R (l.take n) (m.take n) := fun n => List.forall₂_take n h
  cases order <;> cases limit
  · exact h
  · exact hkept _
  · exact List.forall₂_reverse_iff.mpr h
  · exact List.forall₂_reverse_iff.mpr (hkept _)

end Readability.History.WalkOrder

namespace Readability.Git

open Readability.History (IsPath Memory Revision RevisionRange WalkOrder Snapshot
  contentAfter keptPaths)

namespace Mirrors

variable {r : Repository} {h : Memory} (hm : Mirrors r h)
include hm

theorem there (id : String) : r.isLost id = false :=
  Repository.isLost_of_nil hm.lost id

theorem twins_line : List.Forall₂ Twin r.log.reverse h.snapshots := by
  have htwins := List.forall₂_reverse_iff.mpr hm.twins
  rwa [List.reverse_reverse] at htwins

theorem line_reverse : Straight [] r.log.reverse.reverse := by
  rw [List.reverse_reverse]
  exact hm.line

/-- At the place of a snapshot stands its commit. -/
theorem twin_of_place {place : Nat} {s : Snapshot} (hs : h.snapshots[place]? = some s) :
    ∃ g, r.log.reverse[place]? = some g ∧ Twin g s := by
  obtain ⟨hlength, htwins⟩ := List.forall₂_iff_get.mp hm.twins_line
  obtain ⟨hplace, rfl⟩ := List.getElem?_eq_some_iff.mp hs
  exact ⟨_, List.getElem?_eq_getElem (by rw [hlength]; exact hplace), htwins place _ hplace⟩

/-- A commit of the log is found by its id. -/
theorem commit?_of_place {place : Nat} {g : Commit} (hg : r.log.reverse[place]? = some g) :
    r.commit? g.id = some g := by
  have hmem : g ∈ r.log := List.mem_reverse.mp (List.mem_of_getElem? hg)
  have hsome : (r.log.find? fun c => c.id == g.id).isSome = true :=
    List.find?_isSome.mpr ⟨g, hmem, beq_self_eq_true g.id⟩
  obtain ⟨c, hfind⟩ := Option.isSome_iff_exists.mp hsome
  have hid := List.find?_some hfind
  rw [beq_iff_eq] at hid
  have hsame := List.inj_on_of_nodup_map hm.line.nodup (List.mem_of_find?_eq_some hfind) hmem hid
  rw [Repository.commit?, hfind, hsame]

/-! ## Walks -/

section Ends

variable {lib : Library} (names : lib.Names r)
include names

/-- Both stores find the commit of an id at the same place. -/
theorem end_of_id {id : String} (hid : IsId id) (hmem : id ∈ h.ids) :
    ∃ place g, r.log.reverse[place]? = some g ∧ lib.resolve r id = .ok g ∧
      h.indexOf id = .ok place := by
  rcases hfind : h.snapshots.findIdx? fun s => s.revision.id == id with _ | place
  · obtain ⟨s, hs, hsame⟩ := List.mem_map.mp hmem
    have hnone := List.findIdx?_eq_none_iff.mp hfind s hs
    rw [beq_eq_false_iff_ne] at hnone
    exact absurd hsame hnone
  · obtain ⟨hplace, hsame, -⟩ := List.findIdx?_eq_some_iff_getElem.mp hfind
    rw [beq_iff_eq] at hsame
    obtain ⟨g, hg, htwin⟩ := hm.twin_of_place (List.getElem?_eq_getElem hplace)
    have hcommit := hm.commit?_of_place hg
    rw [htwin.id, hsame] at hcommit
    refine ⟨place, g, hg, names.resolve_id hid (hm.there id) hcommit, ?_⟩
    rw [Memory.indexOf, hfind]

/-- The upper end of a range is at the same place in both stores. -/
theorem upper_end (hsome : h.snapshots ≠ []) {upper : Option String}
    (hupper : ∀ id ∈ upper, IsId id ∧ id ∈ h.ids) :
    ∃ last g, r.log.reverse[last]? = some g ∧ lib.resolve r (upper.getD "HEAD") = .ok g ∧
      h.upperIndex upper = .ok last := by
  cases upper with
  | none =>
    rcases hm.top_cases with ⟨-, hlatest⟩ | ⟨c, older, s, hlog, -, -⟩
    · exact absurd (List.getLast?_eq_none_iff.mp hlatest) hsome
    · have hlast : r.log.reverse[h.snapshots.length - 1]? = some c := by
        rw [← hm.twins_line.length_eq, ← List.getLast?_eq_getElem?, List.getLast?_reverse, hlog]
        rfl
      have hpoints := hm.points c (by rw [hlog]; rfl)
      refine ⟨_, c, hlast,
        names.resolve_head hpoints (hm.there c.id) (hm.commit?_of_place hlast), ?_⟩
      have hhead : ((none : Option String).getD "HEAD" == "HEAD") = true := rfl
      rw [Memory.upperIndex, if_pos hhead, if_neg (by rwa [List.isEmpty_iff])]
  | some id =>
    obtain ⟨hid, hmem⟩ := hupper id rfl
    obtain ⟨last, g, hg, hresolve, hindex⟩ := hm.end_of_id names hid hmem
    refine ⟨last, g, hg, hresolve, ?_⟩
    have hname : ¬ ((some id).getD "HEAD" == "HEAD") = true := by
      rw [beq_iff_eq]
      rintro rfl
      exact absurd hid.length (by decide)
    rw [Memory.upperIndex, if_neg hname]
    exact hindex

/-- The lower end of a range leaves out the same places in both stores. -/
theorem lower_end {lower : Option String} (hlower : ∀ id ∈ lower, IsId id ∧ id ∈ h.ids) :
    ∃ first c?, lower.mapM (lib.resolve r) = .ok c? ∧ StartsAt r.log.reverse c? first ∧
      h.lowerCount lower = .ok first := by
  cases lower with
  | none => exact ⟨0, none, rfl, .whole, rfl⟩
  | some id =>
    obtain ⟨hid, hmem⟩ := hlower id rfl
    obtain ⟨place, g, hg, hresolve, hindex⟩ := hm.end_of_id names hid hmem
    refine ⟨place + 1, some g, ?_, .behind hg, ?_⟩
    · rw [Option.mapM_some, hresolve]
      rfl
    · rw [Memory.lowerCount, hindex]
      rfl

/-- **Both walks yield what stands between the same places.** -/
theorem walks_eq (walks : lib.Walks r) (hsome : h.snapshots ≠ []) {range : RevisionRange}
    (hlower : ∀ id ∈ range.lower, IsId id ∧ id ∈ h.ids)
    (hupper : ∀ id ∈ range.upper, IsId id ∧ id ∈ h.ids) (order : WalkOrder) :
    ∃ first last,
      lib.walk r range order = .ok (order.pick range.limit
        ((r.log.reverse.take (last + 1)).drop first).reverse) ∧
      h.walk range order = .ok ((order.pick range.limit
        ((h.snapshots.take (last + 1)).drop first).reverse).map (·.revision)) := by
  obtain ⟨last, g, hlast, hresolve, hindex⟩ := hm.upper_end names hsome hupper
  obtain ⟨first, c?, hresolves, hfirst, hcount⟩ := hm.lower_end names hlower
  refine ⟨first, last, ?_, ?_⟩
  · exact walks.walk_eq hm.lost (List.reverse_reverse _).symm hm.line_reverse hresolve hlast
      hresolves hfirst order
  · rw [Memory.walk, hindex, hcount, ← WalkOrder.pick_map]
    rfl

/-- Without commits both walks have nowhere to start. -/
theorem walks_unborn (hnone : h.snapshots = []) {range : RevisionRange}
    (hupper : range.upper = none) (order : WalkOrder) :
    (∃ reason, lib.walk r range order = .error (.invalidRange reason)) ∧
      ∃ reason, h.walk range order = .error (.invalidRange reason) := by
  have hlog : r.log = [] := by
    have htwins := hm.twins
    rwa [hnone, List.reverse_nil, List.forall₂_nil_right_iff] at htwins
  constructor
  · obtain ⟨reason, hfails⟩ := names.resolve_unborn (hm.unborn hlog)
    refine ⟨reason, ?_⟩
    rw [Library.walk, hupper, Option.getD_none, hfails]
    rfl
  · have hfails : h.upperIndex none = .error (.invalidRange "history is empty") := by
      have hhead : ((none : Option String).getD "HEAD" == "HEAD") = true := rfl
      rw [Memory.upperIndex, if_pos hhead, if_pos (by rw [hnone]; rfl)]
    refine ⟨"history is empty", ?_⟩
    rw [Memory.walk, hupper, hfails]
    rfl

end Ends

/-! ## Revisions -/

/-- A commit's parent is the one before it. -/
theorem parents_of_place {place : Nat} {g : Commit} (hg : r.log.reverse[place]? = some g) :
    g.parents = ((r.log.reverse.take place).reverse.head?.map (·.id)).toList := by
  obtain ⟨hplace, hget⟩ := List.getElem?_eq_some_iff.mp hg
  have hsplit : r.log.reverse.reverse = (r.log.reverse.drop (place + 1)).reverse ++
      g :: (r.log.reverse.take place).reverse := by
    rw [List.append_cons, ← List.reverse_cons, ← List.reverse_append, ← hget,
      ← List.drop_eq_getElem_cons, List.take_append_drop]
  have hline := hm.line_reverse
  rw [hsplit] at hline
  obtain ⟨hparents, -, -⟩ := hline.of_append.2
  rwa [List.append_nil, List.head?_map] at hparents

end Mirrors

section Storable

variable {commits : List History.Commit} (hstorable : Storable commits) {r : Repository}
  (hm : Mirrors r (.ofCommits commits))
include hstorable hm

/-- What the stores hold of a commit. -/
theorem twin_of_commit {place : Nat} {c : History.Commit} (hc : commits[place]? = some c) :
    ∃ g s, r.log.reverse[place]? = some g ∧ (Memory.ofCommits commits).snapshots[place]? = some s ∧
      Twin g s ∧ c.Makes s.revision ∧
      ∀ path, s.files.find? path = contentAfter (commits.take (place + 1)) path := by
  obtain ⟨-, -, hlength, hrecorded⟩ := Memory.recorded commits hstorable.paths
  obtain ⟨hplace, -⟩ := List.getElem?_eq_some_iff.mp hc
  rw [← hlength] at hplace
  have hs := List.getElem?_eq_getElem hplace
  obtain ⟨g, hg, htwin⟩ := hm.twin_of_place hs
  have hrecord := hrecorded place c _ hc hs
  exact ⟨g, _, hg, hs, htwin, hrecord.revision, hrecord.content hc⟩

theorem commit_of_place {place : Nat} {g : Commit} (hg : r.log.reverse[place]? = some g) :
    ∃ c, commits[place]? = some c := by
  obtain ⟨-, -, hlength, -⟩ := Memory.recorded commits hstorable.paths
  obtain ⟨hplace, -⟩ := List.getElem?_eq_some_iff.mp hg
  rw [hm.twins_line.length_eq, hlength] at hplace
  exact ⟨_, List.getElem?_eq_getElem hplace⟩

/-- The tree that a commit is compared with holds what the commits before it left. -/
theorem treeBefore_eq {place : Nat} {g : Commit} (hg : r.log.reverse[place]? = some g) :
    (r.treeBefore g).Sound ∧ ∀ path,
      (r.treeBefore g).pathAt path = (contentAfter (commits.take place) path).map plainFile := by
  have hparents := hm.parents_of_place hg
  cases place with
  | zero =>
    have hnone : r.treeBefore g = [] := by
      rw [Repository.treeBefore, hparents]
      rfl
    rw [hnone]
    exact ⟨Tree.sound_nil, fun path => Node.fileAt_empty _⟩
  | succ place =>
    obtain ⟨c, hc⟩ : ∃ c, commits[place]? = some c := by
      obtain ⟨d, hd⟩ := commit_of_place hstorable hm hg
      obtain ⟨hplace, -⟩ := List.getElem?_eq_some_iff.mp hd
      exact ⟨_, List.getElem?_eq_getElem (Nat.lt_of_succ_lt hplace)⟩
    obtain ⟨parent, s, hparent, -, htwin, -, hfiles⟩ := twin_of_commit hstorable hm hc
    have hfound : r.findCommit parent.id = .ok parent := by
      rw [Repository.findCommit,
        Repository.object?_of_there (hm.there parent.id) (hm.commit?_of_place hparent)]
    have hfirst : g.parents.head? = some parent.id := by
      rw [hparents, List.take_add_one, hparent, Option.toList_some, List.reverse_concat]
      rfl
    have htree : r.treeBefore g = parent.tree := by
      rw [Repository.treeBefore, hfirst, Option.bind_some, hfound]
      rfl
    rw [htree]
    refine ⟨htwin.sound, fun path => ?_⟩
    rw [htwin.files, hfiles]

/-- **A commit changes the paths that it sets.** -/
theorem changes_eq {lib : Library} (compares : lib.Compares r) {place : Nat}
    {c : History.Commit} {g : Commit} {s : Snapshot}
    (hc : commits[place]? = some c) (hg : r.log.reverse[place]? = some g) (htwin : Twin g s)
    (hfiles : ∀ path, s.files.find? path = contentAfter (commits.take (place + 1)) path) :
    ∃ changes, lib.changes r g = .ok changes ∧
      ∀ path, path ∈ keptPaths changes ↔ c.Sets path := by
  obtain ⟨hbefore, hold⟩ := treeBefore_eq hstorable hm hg
  obtain ⟨changes, hchanges, hkept⟩ := compares.changes_spec hm.lost htwin.sound hbefore
  have hpaths := hstorable.paths c (List.mem_of_getElem? hc)
  have hnew : ∀ path,
      s.files.find? path = c.after path (contentAfter (commits.take place) path) := by
    intro path
    rw [hfiles, List.take_add_one, hc, ← History.contentAfter_concat]
    rfl
  refine ⟨changes, hchanges, fun path => ?_⟩
  rw [hkept, htwin.files, hold, hnew]
  constructor
  · rintro ⟨file, hfile, hother⟩
    obtain ⟨content, hcontent, rfl⟩ := Option.map_eq_some_iff.mp hfile
    refine (History.Commit.sets_or_after_eq hcontent).resolve_right fun hsame => hother ?_
    rw [hsame]
    rfl
  · rintro ⟨content, hedit⟩
    refine ⟨plainFile content, ?_, ?_⟩
    · rw [c.after_of_mem hpaths hedit]
      rfl
    · intro hsame
      obtain ⟨old, hold, heq⟩ := Option.map_eq_some_iff.mp hsame
      cases heq
      exact hstorable.fresh place c hc path content hedit hold

end Storable

/-- Two revisions of which two histories tell the same. -/
structure Agrees (first second : History) (r s : Revision) : Prop where
  id : r.id = s.id
  parents : r.parents = s.parents
  changed : ∀ path, path ∈ r.changedPaths ↔ path ∈ s.changedPaths
  listed : ∃ paths others, first.list r.id = .ok paths ∧ second.list s.id = .ok others ∧
    ∀ path, path ∈ paths ↔ path ∈ others
  read : ∀ path, LooksUp path → first.read r.id path = second.read s.id path ∧
    ((∃ content, second.read s.id path = .ok content) ∨
      second.read s.id path = .error (.notFound path s.id))
  /-- Other paths are refused by the first history, whatever the second one tells. -/
  refused : ∀ path, ¬ LooksUp path →
    ∃ reason, first.read r.id path = .error (.repository reason)

/-- **Both stores tell the same of a revision.** -/
theorem revision_agrees {commits : List History.Commit} (hstorable : Storable commits)
    {r : Repository} (hm : Mirrors r (.ofCommits commits)) {lib : Library}
    (compares : lib.Compares r) (reads : lib.Reads r) (location : String) {place : Nat}
    {g : Commit} {s : Snapshot} (hg : r.log.reverse[place]? = some g)
    (hs : (Memory.ofCommits commits).snapshots[place]? = some s) :
    ∃ revision, lib.toRevision r g = .ok revision ∧
      Agrees (lib.history r location) (Memory.ofCommits commits).toHistory revision s.revision := by
  obtain ⟨c, hc⟩ := commit_of_place hstorable hm hg
  obtain ⟨g', s', hg', hs', htwin, hmakes, hfiles⟩ := twin_of_commit hstorable hm hc
  cases hg.symm.trans hg'
  cases hs.symm.trans hs'
  obtain ⟨changes, hchanges, hkept⟩ := changes_eq hstorable hm compares hc hg htwin hfiles
  obtain ⟨hbroken, -, -, -⟩ := Memory.recorded commits hstorable.paths
  have hsound := hstorable.plain.sound
  have hmem := List.mem_of_getElem? hs
  have hid : IsId g.id := by
    rw [htwin.id, hmakes.id]
    exact hstorable.full c (List.mem_of_getElem? hc)
  have hcommit : r.commitOf g.id = .ok g :=
    Repository.commitOf_of_there hid (hm.there g.id) (hm.commit?_of_place hg)
  have hroot := Repository.open?_eq hm.lost (.directory g.tree)
  have hheld := Repository.holds_of_nil hm.lost g.tree
  refine ⟨_, by rw [Library.toRevision, hchanges]; rfl, htwin.id, htwin.parents, ?_, ?_, ?_,
    fun path => reads.refuse_of_commitOf hroot htwin.sound hheld hcommit⟩
  · intro path
    rw [hmakes.changed]
    exact hkept path
  · obtain ⟨paths, hlist, -, hpaths⟩ := reads.list_of_commitOf hroot htwin.sound hheld hcommit
    refine ⟨paths, _, hlist, Memory.list_of_mem hsound hmem, fun path => ?_⟩
    rw [hpaths, History.FileTable.mem_paths_iff, htwin.files, Option.isSome_map]
  · intro path hpath
    have hfirst := reads.read_of_commitOf hroot htwin.sound hheld hcommit hpath
    have hsecond := Memory.read_of_mem hsound hbroken hmem path
    show lib.read r g.id path = (Memory.ofCommits commits).read s.revision.id path ∧
      ((∃ content, (Memory.ofCommits commits).read s.revision.id path = .ok content) ∨
        (Memory.ofCommits commits).read s.revision.id path =
          .error (.notFound path s.revision.id))
    rw [hfirst, hsecond, htwin.files, htwin.id]
    rcases s.files.find? path with _ | content
    · exact ⟨rfl, .inr rfl⟩
    · exact ⟨rfl, .inl ⟨content, rfl⟩⟩

/-- Revisions that a repository loads, beside those of another history. -/
theorem forall₂_toRevision {lib : Library} {r : Repository} {R : Revision → Revision → Prop}
    {commits : List Commit} {snapshots : List Snapshot}
    (h : List.Forall₂
      (fun g s => ∃ revision, lib.toRevision r g = .ok revision ∧ R revision s.revision)
      commits snapshots) :
    ∃ revisions, commits.map (fun c => (lib.toRevision r c).mapError GitError.toUnitError) =
        revisions.map .ok ∧
      List.Forall₂ R revisions (snapshots.map (·.revision)) := by
  induction h with
  | nil => exact ⟨[], rfl, List.Forall₂.nil⟩
  | cons hfirst _ ih =>
    obtain ⟨revision, hrevision, hrelated⟩ := hfirst
    obtain ⟨revisions, hrevisions, hrest⟩ := ih
    refine ⟨revision :: revisions, ?_, List.Forall₂.cons hrelated hrest⟩
    rw [List.map_cons, hrevisions, hrevision]
    rfl

/-- **The walks yield revisions of which both stores tell the same.** -/
theorem walks_agree {entries : List Entry} (hstorable : Storable (entries.map (·.commit)))
    {lib : Library} (answers : lib.Answers (.ofEntries entries)) (location : String)
    (range : RevisionRange) (hsome : entries ≠ [])
    (hlower : ∀ id ∈ range.lower, id ∈ entries.map (·.commit.id))
    (hupper : ∀ id ∈ range.upper, id ∈ entries.map (·.commit.id)) (order : WalkOrder) :
    let first := lib.history (.ofEntries entries) location
    let second := (Memory.ofCommits (entries.map (·.commit))).toHistory
    ∃ revisions others, first.walk range order = .ok (revisions.map .ok) ∧
      second.walk range order = .ok (others.map .ok) ∧
      List.Forall₂ (Agrees first second) revisions others := by
  intro first second
  have hm := mirrors_ofEntries entries hstorable
  have hids : (Memory.ofCommits (entries.map (·.commit))).ids = entries.map (·.commit.id) := by
    rw [Memory.ids_ofCommits, List.map_map]
    rfl
  have hend : ∀ end? : Option String, (∀ id ∈ end?, id ∈ entries.map (·.commit.id)) →
      ∀ id ∈ end?, IsId id ∧ id ∈ (Memory.ofCommits (entries.map (·.commit))).ids := by
    intro end? hknown id hid
    obtain ⟨e, he, hsame⟩ := List.mem_map.mp (hknown id hid)
    rw [hids, ← hsame]
    exact ⟨hstorable.full _ (List.mem_map_of_mem he), List.mem_map_of_mem he⟩
  have hsnapshots : (Memory.ofCommits (entries.map (·.commit))).snapshots ≠ [] := by
    intro hnone
    rw [Memory.ids, hnone] at hids
    exact hsome (List.map_eq_nil_iff.mp hids.symm)
  obtain ⟨start, last, hwalk, hwalk'⟩ :=
    hm.walks_eq answers.names answers.walks hsnapshots (hend _ hlower) (hend _ hupper) order
  have hpairs : List.Forall₂ (fun g s => ∃ revision,
      lib.toRevision (.ofEntries entries) g = .ok revision ∧
        Agrees first second revision s.revision) (Repository.ofEntries entries).log.reverse
      (Memory.ofCommits (entries.map (·.commit))).snapshots := by
    rw [List.forall₂_iff_get]
    refine ⟨hm.twins_line.length_eq, fun place hg hs => ?_⟩
    exact revision_agrees hstorable hm answers.compares answers.reads location
      (List.getElem?_eq_getElem hg) (List.getElem?_eq_getElem hs)
  obtain ⟨revisions, hrevisions, hagree⟩ := forall₂_toRevision
    (WalkOrder.forall₂_pick order range.limit (List.forall₂_reverse_iff.mpr
      (List.forall₂_drop start (List.forall₂_take (last + 1) hpairs))))
  refine ⟨revisions, _, ?_, ?_, hagree⟩
  · show lib.revisions (.ofEntries entries) range order = _
    rw [Library.revisions, hwalk]
    exact congrArg Except.ok hrevisions
  · show ((Memory.ofCommits (entries.map (·.commit))).walk range order).map _ = _
    rw [hwalk']
    rfl

/-- **Two stores of one history give the same answers**, whatever library the one is read
through. -/
theorem Repository.ofEntries_agrees (entries : List Entry)
    (hstorable : Storable (entries.map (·.commit))) {lib : Library}
    (answers : lib.Answers (.ofEntries entries)) (location : String) (range : RevisionRange)
    (hlower : ∀ id ∈ range.lower, id ∈ entries.map (·.commit.id))
    (hupper : ∀ id ∈ range.upper, id ∈ entries.map (·.commit.id)) (order : WalkOrder) :
    let first := lib.history (.ofEntries entries) location
    let second := (Memory.ofCommits (entries.map (·.commit))).toHistory
    (entries = [] ∧ (∃ reason, first.walk range order = .error (.invalidRange reason)) ∧
      ∃ reason, second.walk range order = .error (.invalidRange reason)) ∨
    ∃ revisions others, first.walk range order = .ok (revisions.map .ok) ∧
      second.walk range order = .ok (others.map .ok) ∧
      List.Forall₂ (Agrees first second) revisions others := by
  intro first second
  cases entries with
  | nil =>
    left
    have hunset : range.upper = none := by
      rw [Option.eq_none_iff_forall_not_mem]
      exact fun id hid => List.not_mem_nil (hupper id hid)
    have hm := mirrors_ofEntries [] hstorable
    obtain ⟨⟨reason, hfails⟩, reason', hfails'⟩ := hm.walks_unborn answers.names rfl hunset order
    refine ⟨rfl, ⟨reason, ?_⟩, reason', ?_⟩
    · show lib.revisions (.ofEntries []) range order = _
      rw [Library.revisions, hfails]
      rfl
    · exact congrArg (Except.map _) hfails'
  | cons e entries =>
    right
    exact walks_agree hstorable answers location range (List.cons_ne_nil e entries) hlower hupper
      order

/-- Two commits: one of two files, and one that moves a file out of its directory and
changes the other. -/
def sampleEntries : List Entry :=
  [⟨⟨"0123456789abcdef0123456789abcdef01234567", default,
      [⟨"src/a.rs", some ⟨#[102, 110]⟩⟩, ⟨"b.rs", some ⟨#[109]⟩⟩]⟩, 1700000000, "Dev", "add"⟩,
    ⟨⟨"89abcdef0123456789abcdef0123456789abcdef", default,
      [⟨"src/a.rs", none⟩, ⟨"a.rs", some ⟨#[102, 110]⟩⟩, ⟨"b.rs", some ⟨#[110]⟩⟩]⟩,
      1700086400, "Dev", "move"⟩]

theorem storable_sampleEntries : Storable (sampleEntries.map (·.commit)) := by
  refine ⟨by decide +kernel, by decide +kernel, by decide +kernel, ?_, ?_, ?_⟩
  · simp only [IsPath, toList_splitOn]
    decide +kernel
  · exact Storable.apart_of_named (by decide +kernel)
  · intro i c hc path content hedit
    rcases i with _ | _ | i
    · exact (Option.some_ne_none content).symm
    · cases hc
      simp only [List.mem_cons, History.Edit.mk.injEq, reduceCtorEq, and_false, false_or,
        Option.some.injEq, List.not_mem_nil, or_false] at hedit
      rcases hedit with ⟨rfl, rfl⟩ | ⟨rfl, rfl⟩
      · decide +kernel
      · decide +kernel
    · cases hc

theorem answers_sampleEntries : Library.builtIn.Answers (.ofEntries sampleEntries) :=
  Library.answers_builtIn (mirrors_ofEntries sampleEntries storable_sampleEntries).line

theorem Repository.ofEntries_agrees_sampleEntries :
    let range : RevisionRange :=
      ⟨some "0123456789abcdef0123456789abcdef01234567", none, some 5⟩
    let first := (Repository.ofEntries sampleEntries).toHistory "work"
    let second := (Memory.ofCommits (sampleEntries.map (·.commit))).toHistory
    Storable (sampleEntries.map (·.commit)) ∧ Library.builtIn.Answers (.ofEntries sampleEntries) ∧
      ∃ revisions others, first.walk range .chronological = .ok (revisions.map .ok) ∧
        second.walk range .chronological = .ok (others.map .ok) ∧
        others.map (·.id) = ["89abcdef0123456789abcdef0123456789abcdef"] ∧
        List.Forall₂ (Agrees first second) revisions others := by
  intro range first second
  refine ⟨storable_sampleEntries, answers_sampleEntries, ?_⟩
  have hagree := Repository.ofEntries_agrees sampleEntries storable_sampleEntries
    answers_sampleEntries "work" range
    (by
      intro id hid
      cases hid
      decide +kernel)
    (fun _ hid => nomatch hid) .chronological
  rcases hagree with ⟨hempty, -⟩ | ⟨revisions, others, hfirst, hsecond, hall⟩
  · cases hempty
  · refine ⟨revisions, others, hfirst, hsecond, ?_, hall⟩
    have hwalk : ∃ r, second.walk range .chronological = .ok [.ok r] ∧
        r.id = "89abcdef0123456789abcdef0123456789abcdef" := ⟨_, rfl, rfl⟩
    obtain ⟨r, hwalk, hid⟩ := hwalk
    rw [hwalk] at hsecond
    obtain ⟨other, rfl, hother⟩ := List.map_eq_singleton_iff.mp (Except.ok.inj hsecond).symm
    cases hother
    rw [List.map_singleton, hid]

/-- Paths at fault are answered differently: with a null character, blank, and with a root, a dot or
two dots in front. -/
theorem Repository.reads_differ_faults :
    let first := (Repository.ofEntries sampleEntries).toHistory "work"
    let second := (Memory.ofCommits (sampleEntries.map (·.commit))).toHistory
    let head := "89abcdef0123456789abcdef0123456789abcdef"
    Storable (sampleEntries.map (·.commit)) ∧
      (∃ revisions others : List Revision,
        first.walk .whole .newestFirst = .ok (revisions.map .ok) ∧
        second.walk .whole .newestFirst = .ok (others.map .ok) ∧
        head ∈ revisions.map (·.id) ∧ head ∈ others.map (·.id)) ∧
      first.read head "b.rs\x00" = .error (.repository
        "data contained a nul byte that could not be represented as a string") ∧
      first.read head "" = .error (.repository "repo path should not be empty") ∧
      first.read head "/b.rs" = .error (.repository "repo path `/b.rs` should be relative") ∧
      first.read head "./b.rs" = .error (.repository
        "repo path `./b.rs` should not start with `.`") ∧
      first.read head "../b.rs" = .error (.repository
        "repo path `../b.rs` should not start with `..`") ∧
      ∀ path ∈ ["b.rs\x00", "", "/b.rs", "./b.rs", "../b.rs"],
        second.read head path = .error (.notFound path head) := by
  intro first second head
  have hm := mirrors_ofEntries sampleEntries storable_sampleEntries
  obtain ⟨c, hfound⟩ : ∃ c, (Repository.ofEntries sampleEntries).commit? head = some c := ⟨_, rfl⟩
  have hc := commitOf_of_there (by decide +kernel) (hm.there head) hfound
  have hrefused : ∀ {path fault reason}, pathFault? path = some fault → fault.message = reason →
      first.read head path = .error (.repository reason) := by
    rintro path fault reason hfault rfl
    exact Library.read_fault (open?_eq hm.lost _) hc hfault
  have hfaults : pathFault? "b.rs\x00" = some .nullCharacter ∧ pathFault? "" = some .blankPath ∧
      pathFault? "/b.rs" = some (.rootedPath "/b.rs") ∧
      pathFault? "./b.rs" = some (.dottedPath "./b.rs" ".") ∧
      pathFault? "../b.rs" = some (.dottedPath "../b.rs" "..") := by
    simp only [pathFault?, toList_splitOn, String.contains_char_eq]
    decide +kernel
  obtain ⟨hnull, hblank, hroot, hdot, hdots⟩ := hfaults
  refine ⟨storable_sampleEntries, ?_, hrefused hnull rfl, hrefused hblank rfl,
    hrefused hroot (by decide +kernel), hrefused hdot (by decide +kernel),
    hrefused hdots (by decide +kernel), by decide +kernel⟩
  · have hwalk : ∃ r s, second.walk .whole .newestFirst = .ok [.ok r, .ok s] ∧ r.id = head :=
      ⟨_, _, rfl, rfl⟩
    obtain ⟨r, s, hwalk, hid⟩ := hwalk
    obtain ⟨revisions, others, hfirst, hsecond, hall⟩ := walks_agree storable_sampleEntries
      answers_sampleEntries "work" .whole (List.cons_ne_nil _ _) (fun _ hnone => nomatch hnone)
      (fun _ hnone => nomatch hnone) .newestFirst
    refine ⟨revisions, others, hfirst, hsecond, ?_⟩
    rw [hwalk] at hsecond
    obtain ⟨other, rest, rfl, hother, -⟩ := List.map_eq_cons_iff.mp (Except.ok.inj hsecond).symm
    cases hother
    rcases hall with _ | ⟨hagree, -⟩
    rw [List.map_cons, hagree.id, hid, List.map_cons, hid]
    exact ⟨List.mem_cons_self, List.mem_cons_self⟩

end Readability.Git
