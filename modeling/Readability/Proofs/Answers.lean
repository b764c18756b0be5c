import Readability.Proofs.Differences
import Readability.Proofs.Naming
import Readability.Proofs.Snapshots
import Readability.Proofs.StraightLine

/-!
# What is relied on of a library

Readers of a repository ask a library, and go by its answers. What they rely on is said here for
each question (`Answers`): which names stand for commits (`Names`), what a range holds and in which
order (`Walks`), which paths a comparison tells (`Compares`), and what is in a tree (`Reads`), where
the objects in question are there and trees are in order. Nothing is said of the rest, such as the
order of commits that do not lead to each other, what is taken for renamed, or faults in words.

From this follows what the readers tell: the walk along a straight line (`walk_eq`), the paths that
a commit changed (`changes_spec`), and the files that are listed and read (`list_of_commitOf`,
`read_of_commitOf`). The library that programs run with answers as it should (`answers_builtIn`);
its walks are followed along straight lines only.
-/

namespace Readability.History

/-- Of some items, the newest first, those that a limit leaves, in the order of a walk. -/
def WalkOrder.pick {α : Type} (order : WalkOrder) (limit : Option Nat) (newest : List α) : List α :=
  let kept := match limit with
    | some limit => newest.take limit
    | none => newest
  match order with
  | .newestFirst => kept
  | .chronological => kept.reverse

end Readability.History

namespace Readability.Git

open Readability.History (RevisionRange WalkOrder keptPaths)

/-- A path that can be looked up: below the root, and not by way of another directory. -/
structure LooksUp (path : String) : Prop where
  plain : '\x00' ∉ path.toList
  first : ∀ name ∈ (path.splitOn "/").head?, name ≠ "" ∧ name ≠ "." ∧ name ≠ ".."

namespace Library

/-- Full ids name their commits, and the head the one that its reference points to. -/
structure Names (lib : Library) (r : Repository) : Prop where
  id : ∀ {id : String} {c : Commit}, IsId id → r.isLost id = false → r.commit? id = some c →
    lib.named r id = .ok (.commit c)
  head : ∀ {id : String} {c : Commit}, r.target? "HEAD" = some id → r.isLost id = false →
    r.commit? id = some c → lib.named r "HEAD" = .ok (.commit c)
  unborn : r.references = [] → ∃ e, lib.named r "HEAD" = .error e

/-- A walk comes to the commits of its range, children before their parents. -/
structure Walks (lib : Library) (r : Repository) : Prop where
  between : ∀ {lower : Option Commit} {upper : Commit}, r.lost = [] → upper ∈ r.log →
    (∀ c ∈ lower, c ∈ r.log) →
    ∃ commits, lib.between r lower upper = .ok commits ∧ r.IsRange lower upper commits

/-- Of two trees, the paths are told that have another file than before. -/
structure Compares (lib : Library) (r : Repository) : Prop where
  compare : ∀ {before tree : Tree}, r.lost = [] → before.Sound → tree.Sound →
    ∃ deltas, lib.compare r before tree = .ok deltas ∧ ∀ path, Told deltas path ↔
      ∃ file, tree.pathAt path = some file ∧ before.pathAt path ≠ some file

/-- A path that can be looked up leads to the file of the tree, any other one is refused, and all
entries are visited. -/
structure Reads (lib : Library) (r : Repository) : Prop where
  find : ∀ {tree : Tree} {path : String}, tree.Sound → r.Holds tree → LooksUp path →
    ∃ found, lib.find r tree path = .ok found ∧
      found.bind (Node.fileAt []) = tree.pathAt path
  refuse : ∀ {tree : Tree} {path : String}, tree.Sound → r.Holds tree → ¬ LooksUp path →
    ∃ e, lib.find r tree path = .error e
  visit : ∀ {tree : Tree}, tree.Sound → r.Holds tree → lib.visit r tree = .ok (Tree.visits "" tree)

/-- All questions are answered as they should. -/
structure Answers (lib : Library) (r : Repository) : Prop where
  names : lib.Names r
  walks : lib.Walks r
  compares : lib.Compares r
  reads : lib.Reads r

end Library

/-! ## The library that programs run with -/

/-- No fault is found with the paths that can be looked up, and one with each other path. -/
theorem pathFault?_eq_none_iff {path : String} : pathFault? path = none ↔ LooksUp path := by
  have hnull : path.contains '\x00' = true ↔ '\x00' ∈ path.toList := by
    rw [String.contains_char_eq, decide_eq_true_iff]
  rw [pathFault?]
  rcases hparts : path.splitOn "/" with _ | ⟨first, rest⟩
  · exact absurd hparts (splitOn_ne_nil path)
  · have hlooks : LooksUp path ↔
        '\x00' ∉ path.toList ∧ first ≠ "" ∧ first ≠ "." ∧ first ≠ ".." := by
      constructor
      · exact fun h => ⟨h.plain, h.first first (by rw [hparts]; rfl)⟩
      · rintro ⟨hplain, hfirst⟩
        refine ⟨hplain, fun name hname => ?_⟩
        rw [hparts] at hname
        cases hname
        exact hfirst
    have hblank : path = "" → first = "" := by
      rintro rfl
      rw [toList_splitOn] at hparts
      cases hparts
      rfl
    rw [hlooks, ← hnull, List.headD_cons]
    dsimp only
    simp only [Bool.or_eq_true, beq_iff_eq]
    -- one case for each check, in the order in which they are made
    split_ifs with hpath hfirst hdots hcontains
    · exact iff_of_false (fun h => nomatch h) fun h => h.2.1 (hblank hpath)
    · exact iff_of_false (fun h => nomatch h) fun h => h.2.1 hfirst
    · exact iff_of_false (fun h => nomatch h) fun h => hdots.elim h.2.2.1 h.2.2.2
    · exact iff_of_false (fun h => nomatch h) fun h => h.1 hcontains
    · exact iff_of_true rfl ⟨hcontains, hfirst, not_or.mp hdots⟩

namespace Library

variable {r : Repository}

theorem names_builtIn : Library.builtIn.Names r :=
  ⟨fun hid hthere hc => Repository.revision_id hid hthere hc,
    fun hhead hthere hc => Repository.revision_head hhead hthere hc, Repository.revision_unborn⟩

theorem walks_builtIn (hline : Straight [] r.log) : Library.builtIn.Walks r :=
  ⟨fun hr hupper hlower => Repository.isRange_commitsBetween hr hline hupper hlower⟩

theorem compares_builtIn : Library.builtIn.Compares r :=
  ⟨fun hr hbefore htree => Repository.compareTrees_spec hr hbefore htree⟩

theorem reads_builtIn : Library.builtIn.Reads r := by
  refine ⟨fun {tree path} htree hheld hpath => ?_, fun {tree path} _ _ hpath => ?_,
    fun _ hheld => Repository.visitsIn_eq "" _ hheld⟩
  · show ∃ found, r.findPath tree path = .ok found ∧ _
    rw [Repository.findPath, pathFault?_eq_none_iff.mpr hpath]
    exact Repository.nodeAt_spec htree hheld _
  · show ∃ e, r.findPath tree path = .error e
    obtain ⟨fault, hfault⟩ := Option.ne_none_iff_exists'.mp (mt pathFault?_eq_none_iff.mp hpath)
    exact ⟨fault, by rw [Repository.findPath, hfault]⟩

theorem answers_builtIn (hline : Straight [] r.log) : Library.builtIn.Answers r :=
  ⟨names_builtIn, walks_builtIn hline, compares_builtIn, reads_builtIn⟩

end Library

/-! ## Names and walks -/

namespace Library

variable {lib : Library} {r : Repository}

theorem Names.resolve_id (names : lib.Names r) {id : String} (hid : IsId id)
    (hthere : r.isLost id = false) {c : Commit} (hc : r.commit? id = some c) :
    lib.resolve r id = .ok c := by
  rw [resolve, names.id hid hthere hc]

theorem Names.resolve_head (names : lib.Names r) {id : String} (hhead : r.target? "HEAD" = some id)
    (hthere : r.isLost id = false) {c : Commit} (hc : r.commit? id = some c) :
    lib.resolve r "HEAD" = .ok c := by
  rw [resolve, names.head hhead hthere hc]

theorem Names.resolve_unborn (names : lib.Names r) (hr : r.references = []) :
    ∃ reason, lib.resolve r "HEAD" = .error (.invalidRange reason) := by
  obtain ⟨e, he⟩ := names.unborn hr
  exact ⟨_, by rw [resolve, he]⟩

/-- **A walk along a line yields the commits between two places.** -/
theorem Walks.walk_eq (walks : lib.Walks r) (hr : r.lost = []) {trunk : List Commit}
    (hlog : r.log = trunk.reverse) (htrunk : Straight [] trunk.reverse) {range : RevisionRange}
    {upper : Commit} {last : Nat} (hupper : lib.resolve r (range.upper.getD "HEAD") = .ok upper)
    (hlast : trunk[last]? = some upper) {lower : Option Commit} {first : Nat}
    (hlower : range.lower.mapM (lib.resolve r) = .ok lower) (hfirst : StartsAt trunk lower first)
    (order : WalkOrder) :
    lib.walk r range order =
      .ok (order.pick range.limit ((trunk.take (last + 1)).drop first).reverse) := by
  have hmem : ∀ {c}, c ∈ trunk → c ∈ r.log := fun hc => by rwa [hlog, List.mem_reverse]
  obtain ⟨commits, hcommits, hrange⟩ := walks.between hr (hmem (List.mem_of_getElem? hlast))
    fun c hc => hmem (hfirst.mem c hc)
  rw [walk, hupper, hlower]
  -- with a limit of zero the library is not even asked
  by_cases hzero : range.limit = some 0
  · have hnothing : ∀ newest : List Commit, order.pick (some 0) newest = [] := by
      intro newest
      cases order with
      | newestFirst => rfl
      | chronological => rfl
    rw [hzero, hnothing]
    rfl
  · have hlimit : ¬ (range.limit == some 0) = true := by rwa [beq_iff_eq]
    have hline := (Repository.isRange_iff hlog htrunk hlast hfirst).mp hrange
    simp only [bind, Except.bind, if_neg hlimit, hcommits, hline]
    rfl

end Library

/-! ## What a commit changed -/

/-- The tree that a commit is compared with. -/
def Repository.treeBefore (r : Repository) (c : Commit) : Tree :=
  match c.parents.head?.bind fun id => (r.findCommit id).toOption with
  | some parent => parent.tree
  | none => []

/-- A delta is recorded as a change that keeps a file if it tells of one. -/
theorem Delta.leaves_iff (d : Delta) (path : String) :
    (∃ change ∈ d.change?, change.kind ≠ .deleted ∧ change.path = path) ↔
      d.status.leaves = true ∧ d.newPath = path := by
  obtain ⟨status, oldPath, newPath⟩ := d
  cases status <;> simp [Delta.change?, DeltaStatus.leaves]

theorem mem_keptPaths_change {deltas : List Delta} {path : String} :
    path ∈ keptPaths (deltas.filterMap Delta.change?) ↔ Told deltas path := by
  simp only [keptPaths, List.mem_map, List.mem_filter, List.mem_filterMap, bne_iff_ne, Told,
    ← Delta.leaves_iff]
  constructor
  · rintro ⟨change, ⟨⟨d, hd, hchange⟩, hkind⟩, hpath⟩
    exact ⟨d, hd, change, hchange, hkind, hpath⟩
  · rintro ⟨d, hd, change, hchange, hkind, hpath⟩
    exact ⟨change, ⟨⟨d, hd, hchange⟩, hkind⟩, hpath⟩

namespace Library

variable {lib : Library} {r : Repository}

/-- **A commit changed the paths that have another file than before.** -/
theorem Compares.changes_spec (compares : lib.Compares r) (hr : r.lost = []) {c : Commit}
    (hc : c.tree.Sound) (hbefore : (r.treeBefore c).Sound) :
    ∃ changes, lib.changes r c = .ok changes ∧ ∀ path, path ∈ keptPaths changes ↔
      ∃ file, c.tree.pathAt path = some file ∧ (r.treeBefore c).pathAt path ≠ some file := by
  obtain ⟨deltas, hdeltas, htold⟩ := compares.compare hr hbefore hc
  refine ⟨deltas.filterMap Delta.change?, ?_, fun path => by rw [mem_keptPaths_change, htold]⟩
  rw [changes, Repository.treeOf, Repository.open?_eq hr]
  rw [Repository.treeBefore] at hdeltas
  -- a parent that is not found counts as none
  rcases hparent : c.parents.head?.bind fun id => (r.findCommit id).toOption with _ | parent
  · rw [hparent] at hdeltas
    simp only [hdeltas, bind, Except.bind, pure, Except.pure]
  · rw [hparent] at hdeltas
    simp only [Repository.treeOf, Repository.open?_eq hr, hdeltas, bind, Except.bind, pure,
      Except.pure]

/-! ## Files of a commit -/

namespace Reads

variable (reads : lib.Reads r) {c : Commit} (hroot : r.open? (.directory c.tree) = .ok ())
  (htree : c.tree.Sound) (hheld : r.Holds c.tree)
include reads hroot htree hheld

/-- What is read of a path is the file that stands there. -/
theorem content?_eq {path : String} (hpath : LooksUp path) :
    lib.content? r c path = .ok ((c.tree.pathAt path).map (·.2)) := by
  obtain ⟨found, hfound, hfile⟩ := reads.find htree hheld hpath
  rw [← hfile]
  rcases found with _ | ⟨mode, content⟩ | ⟨entries⟩
  · simp only [content?, Repository.treeOf, hroot, hfound, bind, Except.bind, pure, Except.pure]
    rfl
  · -- a file that is found is among those that are there
    obtain ⟨⟨name, hmem⟩, -⟩ := Tree.exists_mem_descendants hfile.symm
    have hopen := Repository.open?_of_there (hheld _ hmem)
    simp only [content?, Repository.treeOf, hroot, hfound, hopen, bind, Except.bind, pure,
      Except.pure]
    rfl
  · simp only [content?, Repository.treeOf, hroot, hfound, bind, Except.bind, pure, Except.pure]
    rfl

variable {revision : String} (hc : r.commitOf revision = .ok c)
include hc

/-- **At a commit each file of its tree can be read, and nothing else is found.** -/
theorem read_of_commitOf {path : String} (hpath : LooksUp path) :
    lib.read r revision path = match c.tree.pathAt path with
      | some file => .ok file.2
      | none => .error (.notFound path revision) := by
  rw [read, hc]
  simp only [bind, Except.bind, reads.content?_eq hroot htree hheld hpath]
  rcases c.tree.pathAt path with _ | file
  · rfl
  · rfl

/-- A path that cannot be looked up is refused. -/
theorem refuse_of_commitOf {path : String} (hpath : ¬ LooksUp path) :
    ∃ reason, lib.read r revision path = .error (.repository reason) := by
  obtain ⟨e, he⟩ := reads.refuse htree hheld hpath
  refine ⟨e.message, ?_⟩
  rw [read, hc]
  simp only [content?, Repository.treeOf, hroot, he, bind, Except.bind, pure, Except.pure]
  rfl

/-- The files of a commit's tree are listed in the order of their paths, each once. -/
theorem list_of_commitOf : ∃ paths, lib.list r revision = .ok paths ∧ paths.Pairwise (· < ·) ∧
    ∀ path, path ∈ paths ↔ (c.tree.pathAt path).isSome = true := by
  obtain ⟨hsorted, hmem⟩ := Tree.files_root htree
  have hpaths : (Tree.visits "" c.tree).filterMap Visit.file? = (c.tree.files "").map (·.path) := by
    rw [Tree.files, List.map_filterMap]
    refine List.filterMap_congr fun v _ => ?_
    rw [Visit.file?, Visit.stored?]
    rcases v.node with ⟨mode, content⟩ | ⟨entries⟩
    · rfl
    · rfl
  have horder : (c.tree.files "").Pairwise fun f g => f.path < g.path := hsorted
  refine ⟨(c.tree.files "").map (·.path), ?_, List.pairwise_map.mpr horder, fun path => ?_⟩
  · rw [list, hc]
    simp only [files, Repository.treeOf, hroot, reads.visit htree hheld, bind, Except.bind, pure,
      Except.pure, hpaths]
  · rw [List.mem_map, Option.isSome_iff_exists]
    constructor
    · rintro ⟨file, hfile, rfl⟩
      exact ⟨_, (hmem file).mp hfile⟩
    · rintro ⟨file, hfile⟩
      exact ⟨⟨path, file.1, file.2⟩, (hmem _).mpr hfile, rfl⟩

end Reads

/-- The library that programs run with says what is wrong with a path. -/
theorem read_fault {c : Commit} (hroot : r.open? (.directory c.tree) = .ok ()) {revision : String}
    (hc : r.commitOf revision = .ok c) {path : String} {fault : GitError}
    (hpath : pathFault? path = some fault) :
    builtIn.read r revision path = .error fault.toUnitError := by
  have hfind : builtIn.find r c.tree path = .error fault := by
    show r.findPath c.tree path = _
    rw [Repository.findPath, hpath]
  rw [read, hc]
  simp only [content?, Repository.treeOf, hroot, hfind, bind, Except.bind, pure, Except.pure]

end Library

end Readability.Git
