import Readability.Proofs.Naming
import Readability.Proofs.Listing
import Readability.Proofs.Snapshots
import Readability.Proofs.StraightLine

/-!
# One history in two stores

A straight history of plain files can be recorded in a repository commit by commit
(`ofEntries`), and in memory (`Memory.ofCommits`). The two stores go along with each
other (`Mirrors`): for each commit of the repository there is a snapshot of the same
id and parents, and the tree of the one holds the files of the other. This is kept
by each commit (`Mirrors.push`) and so holds of every history (`mirrors_ofEntries`).

A tree can hold no file at a path that leads through another one, a snapshot can. The
two agree where no snapshot has such paths (`Apart`); in between, while the edits of a
commit are taken, it does not matter.
-/

namespace Readability.History

/-- A path that another one leads through. -/
def Above (folder path : String) : Prop :=
  ∃ rest, path = folder ++ "/" ++ rest

theorem above_iff {folder path : String} :
    Above folder path ↔ (folder ++ "/").toList <+: path.toList := by
  constructor
  · rintro ⟨rest, rfl⟩
    exact ⟨rest.toList, (String.toList_append ..).symm⟩
  · rintro ⟨rest, hrest⟩
    refine ⟨String.ofList rest, ?_⟩
    rw [← String.toList_inj, String.toList_append, String.toList_ofList, hrest]

instance (folder path : String) : Decidable (Above folder path) :=
  decidable_of_iff _ above_iff.symm

/-- Some files, none of them at a path that another one's leads through. -/
def Apart (content? : String → Option ByteArray) : Prop :=
  ∀ p q, (content? p).isSome = true → (content? q).isSome = true → ¬ Above p q

/-- A path of which no part is blank. -/
def IsPath (path : String) : Prop :=
  "" ∉ path.splitOn "/"

end Readability.History

namespace Readability.Git

open Readability.History (Above Apart IsPath Memory Snapshot FileTable FileChange applyEdit
  contentAfter find?_applyEdit)

/-! ## Edits -/

/-- The edit of a plain file. -/
def plainEdit (edit : History.Edit) : FileEdit :=
  ⟨edit.path, edit.content.map fun content => (.plain, content)⟩

/-- A content as a plain file. -/
def plainFile (content : ByteArray) : FileMode × ByteArray :=
  (.plain, content)

theorem isName_of_isPath {path : String} (h : IsPath path) :
    ∀ name ∈ path.splitOn "/", IsName name := by
  intro name hname
  refine ⟨?_, ?_⟩
  · rintro rfl
    exact h hname
  · rw [toList_splitOn] at hname
    obtain ⟨part, hpart, rfl⟩ := List.mem_map.mp hname
    rw [String.toList_ofList]
    exact Source.Path.notMem_of_mem_splitOn hpart

theorem splitOn_injective {p q : String} (h : p.splitOn "/" = q.splitOn "/") : p = q := by
  rw [← intercalate_splitOn p, h, intercalate_splitOn]

theorem above_of_splitOn {p q : String} (hne : p ≠ q) (h : p.splitOn "/" <+: q.splitOn "/") :
    Above p q := by
  obtain ⟨rest, hrest⟩ := h
  have hsome : rest ≠ [] := by
    rintro rfl
    rw [List.append_nil] at hrest
    exact hne (splitOn_injective hrest)
  refine ⟨"/".intercalate rest, ?_⟩
  rw [← intercalate_splitOn q, ← hrest,
    String.intercalate_append_of_ne_nil (splitOn_ne_nil p) hsome, intercalate_splitOn]

theorem sound_foldl_apply {tree : Tree} (h : tree.Sound) {edits : List History.Edit}
    (hpaths : ∀ edit ∈ edits, IsPath edit.path) :
    ((edits.map plainEdit).foldl FileEdit.apply tree).Sound := by
  refine Tree.kept_sound.foldl_apply h fun edit hedit => ?_
  obtain ⟨source, hsource, rfl⟩ := List.mem_map.mp hedit
  exact isName_of_isPath (hpaths source hsource)

/-- What an edit leaves at a path of a tree. -/
theorem pathAt_apply (tree : Tree) (edit : History.Edit) (path : String) :
    (FileEdit.apply tree (plainEdit edit)).pathAt path =
      if edit.path = path then edit.content.map plainFile
      else if edit.content.isSome = true ∧
        Meets (edit.path.splitOn "/") (path.splitOn "/") then none
      else tree.pathAt path := by
  have hsame : edit.path.splitOn "/" = path.splitOn "/" ↔ edit.path = path :=
    ⟨splitOn_injective, fun h => by rw [h]⟩
  rw [FileEdit.apply, plainEdit, Tree.pathAt, Tree.pathAt]
  rcases edit.content with _ | content
  · dsimp only [Option.map_none]
    rw [Node.fileAt_erase]
    simp only [hsame, Option.isSome_none, Bool.false_eq_true, false_and, if_false]
  · dsimp only [Option.map_some]
    rw [Node.fileAt_put _ _ (splitOn_ne_nil _)]
    simp only [hsame, Option.isSome_some, true_and]
    rfl

/-- What edits leave at a path of a tree. It is what they leave in a table of files, but
for paths that are in the way of one that is set. -/
theorem pathAt_foldl_apply (edits : List History.Edit) {tree : Tree}
    (state : FileTable × List FileChange)
    (h : ∀ path, tree.pathAt path = (state.1.find? path).map plainFile) (path : String) :
    ((edits.map plainEdit).foldl FileEdit.apply tree).pathAt path =
        ((edits.foldl applyEdit state).1.find? path).map plainFile ∨
      ((edits.map plainEdit).foldl FileEdit.apply tree).pathAt path = none ∧
        ∃ edit ∈ edits, edit.content.isSome = true ∧ edit.path ≠ path ∧
          Meets (edit.path.splitOn "/") (path.splitOn "/") := by
  induction edits using List.reverseRecOn with
  | nil => exact .inl (h path)
  | append_singleton edits edit ih =>
    have hlast : edit ∈ edits ++ [edit] := List.mem_append_right _ (List.mem_singleton_self edit)
    rw [List.map_append, List.foldl_append, List.foldl_append, List.map_singleton, List.foldl_cons,
      List.foldl_nil, List.foldl_cons, List.foldl_nil, find?_applyEdit, pathAt_apply]
    by_cases hpath : edit.path = path
    · rw [if_pos hpath, if_pos hpath]
      exact .inl rfl
    · rw [if_neg hpath, if_neg hpath]
      split
      · -- the edit takes what was in its way
        rename_i hmeets
        exact .inr ⟨rfl, edit, hlast, hmeets.1, hpath, hmeets.2⟩
      · refine ih.imp_right ?_
        rintro ⟨hnone, other, hother, hrest⟩
        exact ⟨hnone, other, List.mem_append_left _ hother, hrest⟩

/-- **Where no path is in another one's way, a tree holds what a table of files does.** -/
theorem pathAt_of_apart {c : History.Commit} (hpaths : (c.edits.map (·.path)).Nodup) {tree : Tree}
    {files : FileTable} (h : ∀ path, tree.pathAt path = (files.find? path).map plainFile)
    (hapart : Apart (c.edits.foldl applyEdit (files, [])).1.find?) (path : String) :
    ((c.edits.map plainEdit).foldl FileEdit.apply tree).pathAt path =
      ((c.edits.foldl applyEdit (files, [])).1.find? path).map plainFile := by
  rcases pathAt_foldl_apply c.edits (files, []) h path with hsame | ⟨hnone, hway⟩
  · exact hsame
  · -- the other path is there in the end, so this one cannot be
    obtain ⟨edit, hedit, hsome, hne, hmeets⟩ := hway
    rw [hnone]
    symm
    rw [Option.map_eq_none_iff, ← Option.not_isSome_iff_eq_none]
    intro hthere
    have hother : ((c.edits.foldl applyEdit (files, [])).1.find? edit.path).isSome = true := by
      rw [History.find?_foldl_applyEdit _ _ _ hpaths]
      have hafter := c.after_of_mem hpaths hedit (files.find? edit.path)
      rw [History.Commit.after] at hafter
      rwa [hafter]
    rcases hmeets with hfront | hfront
    · exact hapart _ _ hother hthere (above_of_splitOn hne hfront)
    · exact hapart _ _ hthere hother (above_of_splitOn hne.symm hfront)

/-! ## The two stores -/

/-- A commit as it is recorded, with what histories in memory do not keep. -/
structure Entry where
  commit : History.Commit
  time : Int
  author : String
  message : String

namespace Repository

/-- Records a commit on top of the latest one and points the head's reference to it. -/
def push (r : Repository) (e : Entry) : Repository :=
  (r.record e.commit.id (r.log.head?.map (·.id)).toList e.time e.author e.message
    (e.commit.edits.map plainEdit)).refer r.head e.commit.id

/-- The repository of a straight history. -/
def ofEntries (entries : List Entry) : Repository :=
  entries.foldl push .empty

end Repository

/-- A commit and a snapshot of the same files. -/
structure Twin (g : Commit) (s : Snapshot) : Prop where
  id : g.id = s.revision.id
  parents : g.parents = s.revision.parents
  sound : g.tree.Sound
  files : ∀ path, g.tree.pathAt path = (s.files.find? path).map plainFile

/-- A repository and a history in memory that go along with each other. -/
structure Mirrors (r : Repository) (h : Memory) : Prop where
  lost : r.lost = []
  points : ∀ c ∈ r.log.head?, r.target? "HEAD" = some c.id
  unborn : r.log = [] → r.references = []
  line : Straight [] r.log
  twins : List.Forall₂ Twin r.log h.snapshots.reverse

theorem mirrors_empty : Mirrors .empty .empty := by
  refine ⟨rfl, ?_, fun _ => rfl, trivial, List.Forall₂.nil⟩
  intro c hc
  cases hc

namespace Mirrors

variable {r : Repository} {h : Memory} (hm : Mirrors r h)
include hm

theorem ids_eq : r.log.map (·.id) = h.ids.reverse := by
  have hids : ∀ {log : List Commit} {snapshots : List Snapshot},
      List.Forall₂ Twin log snapshots → log.map (·.id) = snapshots.map (·.revision.id) := by
    intro log snapshots htwins
    induction htwins with
    | nil => rfl
    | cons htwin _ ih => rw [List.map_cons, List.map_cons, htwin.id, ih]
  rw [hids hm.twins, Memory.ids, List.map_reverse]

/-- On top of both stores is the same commit, or nothing. -/
theorem top_cases :
    (r.log = [] ∧ h.latest? = none) ∨
      ∃ c older s, r.log = c :: older ∧ h.latest? = some s ∧ Twin c s := by
  have htwins := hm.twins
  rw [Memory.latest?, ← List.head?_reverse]
  rcases hlog : r.log with _ | ⟨c, older⟩
  · rw [hlog, List.forall₂_nil_left_iff] at htwins
    exact .inl ⟨rfl, by rw [htwins]; rfl⟩
  · rw [hlog, List.forall₂_cons_left_iff] at htwins
    obtain ⟨s, rest, htwin, -, hsnapshots⟩ := htwins
    exact .inr ⟨c, older, s, rfl, by rw [hsnapshots]; rfl, htwin⟩

/-- A commit starts from the same files in both stores. -/
theorem base :
    (r.baseTree (r.log.head?.map (·.id)).toList).Sound ∧
      ∀ path, (r.baseTree (r.log.head?.map (·.id)).toList).pathAt path =
        (h.latestFiles.find? path).map plainFile := by
  rw [Repository.baseTree, Memory.latestFiles]
  rcases hm.top_cases with ⟨hlog, hlatest⟩ | ⟨c, older, s, hlog, hlatest, htwin⟩
  · rw [hlog, hlatest]
    exact ⟨Tree.sound_nil, fun path => Node.fileAt_empty _⟩
  · have hfind : r.commit? c.id = some c := by
      rw [Repository.commit?, hlog]
      exact List.find?_cons_of_pos (beq_self_eq_true c.id)
    have hhead : (r.log.head?.map (·.id)).toList.head?.bind r.commit? = some c := by
      rw [hlog]
      exact hfind
    rw [hhead, hlatest]
    exact ⟨htwin.sound, htwin.files⟩

/-- **Both stores take a commit in the same way.** -/
theorem push {e : Entry} (hid : e.commit.id ∉ h.ids)
    (hpaths : (e.commit.edits.map (·.path)).Nodup)
    (hnamed : ∀ edit ∈ e.commit.edits, IsPath edit.path)
    (hapart : Apart (h.apply e.commit.step).latestFiles.find?) :
    Mirrors (r.push e) (h.apply e.commit.step) := by
  obtain ⟨hsound, hbase⟩ := hm.base
  have hsnapshots : (h.apply e.commit.step).snapshots = h.snapshots ++ _ := rfl
  have hfiles : (h.apply e.commit.step).latestFiles =
      (e.commit.edits.foldl applyEdit (h.latestFiles, [])).1 := by
    rw [Memory.latestFiles, Memory.latest?, hsnapshots, List.getLast?_concat]
  rw [hfiles] at hapart
  have hparents : (r.log.head?.map (·.id)).toList = h.latest?.toList.map (·.revision.id) := by
    rcases hm.top_cases with ⟨hlog, hlatest⟩ | ⟨c, older, s, hlog, hlatest, htwin⟩
    · rw [hlog, hlatest]
      rfl
    · rw [hlog, hlatest]
      exact congrArg (fun id => [id]) htwin.id
  refine ⟨hm.lost, ?_, fun hlog => ?_, ⟨?_, ?_, hm.line⟩, ?_⟩
  · intro c hc
    cases hc
    exact congrArg (Option.map Prod.snd) (List.find?_cons_of_pos (beq_self_eq_true r.head))
  · cases hlog
  · rw [List.append_nil, List.head?_map]
  · rw [List.append_nil]
    show e.commit.id ∉ r.log.map (·.id)
    rwa [hm.ids_eq, List.mem_reverse]
  · rw [hsnapshots, List.reverse_append]
    refine List.Forall₂.cons ⟨rfl, hparents, ?_, ?_⟩ hm.twins
    · exact sound_foldl_apply hsound hnamed
    · exact pathAt_of_apart hpaths hbase hapart

end Mirrors

/-! ## Whole histories -/

/-- What both stores can hold: a straight history of distinct full ids, in which no commit
names a path twice or sets the bytes that a path has, and files never stand in each
other's way. -/
structure Storable (commits : List History.Commit) : Prop where
  ids : (commits.map (·.id)).Nodup
  full : ∀ c ∈ commits, IsId c.id
  paths : ∀ c ∈ commits, (c.edits.map (·.path)).Nodup
  named : ∀ c ∈ commits, ∀ edit ∈ c.edits, IsPath edit.path
  apart : ∀ count, Apart (contentAfter (commits.take count))
  fresh : ∀ i c, commits[i]? = some c → ∀ path content, ⟨path, some content⟩ ∈ c.edits →
    contentAfter (commits.take i) path ≠ some content

namespace Storable

variable {commits : List History.Commit}

/-- Files stand in no other one's way when no two paths of a history do. -/
theorem apart_of_named (h : ∀ c ∈ commits, ∀ d ∈ commits, ∀ e ∈ c.edits, ∀ f ∈ d.edits,
    ¬ Above e.path f.path) (count : Nat) : Apart (contentAfter (commits.take count)) := by
  have hset : ∀ path, (contentAfter (commits.take count) path).isSome = true →
      ∃ c ∈ commits, ∃ edit ∈ c.edits, edit.path = path := by
    intro path hsome
    obtain ⟨content, hcontent⟩ := Option.isSome_iff_exists.mp hsome
    obtain ⟨j, c, hc, ⟨set, hedit⟩, -⟩ := History.exists_latest _ hcontent
    exact ⟨c, List.mem_of_mem_take (List.mem_of_getElem? hc), _, hedit, rfl⟩
  intro p q hp hq
  obtain ⟨c, hc, e, he, rfl⟩ := hset p hp
  obtain ⟨d, hd, f, hf, rfl⟩ := hset q hq
  exact h c hc d hd e he f hf

theorem init {c : History.Commit} (h : Storable (commits ++ [c])) : Storable commits := by
  have hmem : ∀ {d}, d ∈ commits → d ∈ commits ++ [c] := List.mem_append_left _
  refine ⟨?_, fun d hd => h.full d (hmem hd), fun d hd => h.paths d (hmem hd),
    fun d hd => h.named d (hmem hd), fun count => ?_, fun i d hd => ?_⟩
  · have hids := h.ids
    rw [List.map_append] at hids
    exact (List.nodup_append.mp hids).1
  · have htake : commits.take count = (commits ++ [c]).take (min count commits.length) := by
      rw [List.take_append_of_le_length (Nat.min_le_right _ _), ← List.take_eq_take_min]
    rw [htake]
    exact h.apart _
  · obtain ⟨hi, -⟩ := List.getElem?_eq_some_iff.mp hd
    have hfresh := h.fresh i d (by rw [List.getElem?_append_left hi, hd])
    rwa [List.take_append_of_le_length hi.le] at hfresh

theorem plain (h : Storable commits) : Memory.Plain (commits.map History.Commit.step) := by
  refine ⟨?_, ?_⟩
  · rw [List.filterMap_map]
    have hids : commits.filterMap (Memory.Step.id? ∘ History.Commit.step) =
        commits.map (·.id) := by
      rw [← List.filterMap_eq_map]
      rfl
    rw [hids]
    exact h.ids
  · intro step hstep
    obtain ⟨c, hc, rfl⟩ := List.mem_map.mp hstep
    exact h.paths c hc

end Storable

/-- **A straight history is the same in both stores.** -/
theorem mirrors_ofEntries (entries : List Entry) (h : Storable (entries.map (·.commit))) :
    Mirrors (.ofEntries entries) (.ofCommits (entries.map (·.commit))) := by
  induction entries using List.reverseRecOn with
  | nil => exact mirrors_empty
  | append_singleton entries e ih =>
    rw [List.map_append, List.map_singleton] at h ⊢
    have hlast : e.commit ∈ entries.map (·.commit) ++ [e.commit] :=
      List.mem_append_right _ (List.mem_singleton_self _)
    have hids := h.ids
    rw [List.map_append, List.nodup_append] at hids
    rw [Memory.ofCommits_concat, Repository.ofEntries, List.foldl_append]
    refine (ih h.init).push ?_ (h.paths e.commit hlast) (h.named e.commit hlast) ?_
    · rw [Memory.ids_ofCommits]
      intro hmem
      exact hids.2.2 _ hmem _ (List.mem_singleton_self _) rfl
    · obtain ⟨-, hfiles, -, -⟩ := Memory.recorded _ fun d hd => h.paths d hd
      rw [← Memory.ofCommits_concat, funext hfiles]
      have hapart := h.apart (entries.map (·.commit) ++ [e.commit]).length
      rwa [List.take_length] at hapart

end Readability.Git
