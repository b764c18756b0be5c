import Readability.Git.Changes
import Readability.Git.Lookup
import Readability.Proofs.Separators
import Readability.Proofs.Trees

/-!
# What a commit's tree holds

A tree is a map from paths to files (`Tree.pathAt`), and it is looked into in two ways. One visits
the entries of all directories, each directory before what is in it (`Tree.visits`); the files among
them are those of the map, in the order of their paths (`files_root`). The other follows the parts
of a path from directory to directory and comes to the file that the map has there (`nodeAt_spec`).
In a repository both get through where nothing that the tree holds is lost (`Holds`).
-/

namespace Readability.Git

/-- The file of a path. -/
def Tree.pathAt (tree : Tree) (path : String) : Option (FileMode × ByteArray) :=
  (Node.directory tree).fileAt (path.splitOn "/")

/-! ## Paths and names -/

theorem toList_splitOn (path : String) :
    path.splitOn "/" = (path.toList.splitOn '/').map String.ofList :=
  Source.Path.splitOn_singleton '/' path

theorem splitOn_ne_nil (path : String) : path.splitOn "/" ≠ [] := by
  rw [toList_splitOn, ne_eq, List.map_eq_nil_iff]
  exact List.splitOn_ne_nil _ _

theorem intercalate_splitOn (path : String) : "/".intercalate (path.splitOn "/") = path := by
  rw [toList_splitOn, ← String.toList_inj, String.toList_intercalate, List.map_map]
  have hid : String.toList ∘ String.ofList = id := funext fun _ => String.toList_ofList
  rw [hid, List.map_id]
  exact List.intercalate_splitOn '/'

theorem splitOn_intercalate {names : List String} (hne : names ≠ [])
    (hnames : ∀ name ∈ names, IsName name) : ("/".intercalate names).splitOn "/" = names := by
  have hcut : (['/'].intercalate (names.map String.toList)).splitOn '/' =
      names.map String.toList := by
    refine List.splitOn_intercalate '/' ?_ ?_
    · intro l hl
      obtain ⟨name, hname, rfl⟩ := List.mem_map.mp hl
      exact (hnames name hname).plain
    · rwa [ne_eq, List.map_eq_nil_iff]
  have hid : String.ofList ∘ String.toList = id := funext fun _ => String.ofList_toList
  rw [toList_splitOn, String.toList_intercalate]
  show List.map String.ofList ((['/'].intercalate (names.map String.toList)).splitOn '/') = names
  rw [hcut, List.map_map, hid, List.map_id]

theorem mem_intercalate {names : List String} {c : Char} (hc : c ∈ ("/".intercalate names).toList) :
    c = '/' ∨ ∃ name ∈ names, c ∈ name.toList := by
  induction names with
  | nil => exact absurd hc List.not_mem_nil
  | cons name rest ih =>
    by_cases hrest : rest = []
    · rw [hrest, String.intercalate_singleton] at hc
      exact .inr ⟨name, List.mem_cons_self, hc⟩
    · rw [String.intercalate_cons_of_ne_nil hrest, String.toList_append, String.toList_append,
        List.mem_append, List.mem_append] at hc
      rcases hc with (hc | hc) | hc
      · exact .inr ⟨name, List.mem_cons_self, hc⟩
      · exact .inl (List.mem_singleton.mp hc)
      · exact (ih hc).imp_right fun ⟨n, hn, hin⟩ => ⟨n, List.mem_cons_of_mem _ hn, hin⟩

/-! ## Order of paths -/

theorem append_lt_append {s t : List Char} (h : s < t) {x : List Char} (hx : s <+: t → x = [])
    (y : List Char) : s ++ x < t ++ y := by
  induction s generalizing t with
  | nil =>
    rw [hx List.nil_prefix]
    cases t with
    | nil => exact absurd h (List.not_lt_nil _)
    | cons b t => exact List.nil_lt_cons _ _
  | cons a s ih =>
    cases t with
    | nil => exact absurd h (List.not_lt_nil _)
    | cons b t =>
      rw [List.cons_append, List.cons_append, List.cons_lt_cons_iff]
      rcases List.cons_lt_cons_iff.mp h with hlt | ⟨rfl, hlt⟩
      · exact .inl hlt
      · exact .inr ⟨rfl, ih hlt fun hs => hx (List.cons_prefix_cons.mpr ⟨rfl, hs⟩)⟩

/-- A path starts with what its first entry is sorted by, and that is all for a file. -/
theorem path_eq_sortName {entry : String × Node} {names : List String}
    {file : FileMode × ByteArray} (h : entry.2.fileAt names = some file) :
    ∃ tail, "/".intercalate (entry.1 :: names) = Tree.sortName entry ++ tail ∧
      (tail = "" ∨ (Tree.sortName entry).toList = entry.1.toList ++ ['/']) := by
  obtain ⟨name, node⟩ := entry
  cases node with
  | file mode content =>
    cases names with
    | nil => exact ⟨"", by rw [String.append_empty]; exact String.intercalate_singleton, .inl rfl⟩
    | cons next names => cases h
  | directory entries =>
    cases names with
    | nil => cases h
    | cons next names =>
      refine ⟨"/".intercalate (next :: names), ?_, .inr (String.toList_append ..)⟩
      exact String.intercalate_cons_of_ne_nil (List.cons_ne_nil next names)

/-- Below entries in order, paths are in order. -/
theorem path_lt_path {e f : String × Node} (he : IsName e.1) (hf : IsName f.1) (hne : e.1 ≠ f.1)
    (hlt : Tree.sortName e < Tree.sortName f) {p q : List String} {x y : FileMode × ByteArray}
    (hp : e.2.fileAt p = some x) (hq : f.2.fileAt q = some y) :
    "/".intercalate (e.1 :: p) < "/".intercalate (f.1 :: q) := by
  obtain ⟨s, hs, hend⟩ := path_eq_sortName hp
  obtain ⟨t, ht, -⟩ := path_eq_sortName hq
  rw [hs, ht, String.lt_iff_toList_lt, String.toList_append, String.toList_append]
  refine append_lt_append (String.lt_iff_toList_lt.mp hlt) ?_ _
  intro hfront
  rcases hend with rfl | hdirectory
  · rfl
  · -- a directory's name and slash start no other entry's name
    exfalso
    apply hne
    rw [← String.toList_inj]
    rw [hdirectory] at hfront
    obtain ⟨rest, hrest⟩ := hfront
    rw [List.append_assoc, List.singleton_append] at hrest
    rcases Tree.toList_sortName f with hname | hname
    · refine absurd ?_ hf.plain
      rw [← hname, ← hrest]
      exact List.mem_append_right _ List.mem_cons_self
    · exact (Source.Path.cut_inj he.plain hf.plain (hrest.trans hname)).1

/-! ## Listing -/

/-- Files in the order of their paths, each path once. -/
def InOrder (files : List StoredFile) : Prop :=
  files.Pairwise fun f g => f.path < g.path

/-- Some files, in the order of their paths, are all files of a map from names. -/
structure Lists (front : List String → String) (at? : List String → Option (FileMode × ByteArray))
    (files : List StoredFile) : Prop where
  sorted : InOrder files
  mem : ∀ f, f ∈ files ↔ ∃ names, f.path = front names ∧ at? names = some (f.mode, f.content)

mutual

/-- The entries below a node, with the paths of their directories. -/
def Node.visits (path : String) : Node → List Visit
  | .file .. => []
  | .directory entries => Tree.visits (path ++ "/") entries

/-- Some entries of a directory, each with those below it behind it. -/
def Tree.visits (directory : String) : List (String × Node) → List Visit
  | [] => []
  | (name, node) :: rest =>
    ⟨directory, name, node⟩ :: (node.visits (directory ++ name) ++ Tree.visits directory rest)

end

/-- The file that is visited. -/
def Visit.stored? (v : Visit) : Option StoredFile :=
  match v.node with
  | .file mode content => some ⟨v.directory ++ v.name, mode, content⟩
  | .directory _ => none

/-- The files among the entries that are visited. -/
def Tree.files (directory : String) (tree : Tree) : List StoredFile :=
  (Tree.visits directory tree).filterMap Visit.stored?

/-- The files at or below a node. -/
def Node.files (path : String) : Node → List StoredFile
  | .file mode content => [⟨path, mode, content⟩]
  | .directory entries => Tree.files (path ++ "/") entries

theorem Tree.files_cons (directory name : String) (node : Node) (rest : Tree) :
    Tree.files directory ((name, node) :: rest) =
      node.files (directory ++ name) ++ Tree.files directory rest := by
  cases node with
  | file mode content => rfl
  | directory entries =>
    rw [files, visits, Node.visits, List.filterMap_cons_none rfl, List.filterMap_append]
    rfl

mutual

/-- The entries of a directory and of all directories below it. -/
def Node.descendants : Node → List (String × Node)
  | .file .. => []
  | .directory entries => Tree.descendants entries

/-- Some entries, each with those below it behind it. -/
def Tree.descendants : List (String × Node) → List (String × Node)
  | [] => []
  | (name, node) :: rest => (name, node) :: (node.descendants ++ Tree.descendants rest)

end

namespace Tree

theorem mem_descendants_of_mem {tree : Tree} {e : String × Node} (h : e ∈ tree) :
    e ∈ descendants tree := by
  induction tree with
  | nil => exact absurd h List.not_mem_nil
  | cons entry rest ih =>
    rw [descendants, List.mem_cons, List.mem_append]
    rcases List.mem_cons.mp h with rfl | h
    · exact .inl rfl
    · exact .inr (.inr (ih h))

theorem descendants_subset {tree : Tree} {name : String} {entries : Tree}
    (h : (name, .directory entries) ∈ tree) : descendants entries ⊆ descendants tree := by
  induction tree with
  | nil => exact absurd h List.not_mem_nil
  | cons entry rest ih =>
    intro e he
    rw [descendants, List.mem_cons, List.mem_append]
    rcases List.mem_cons.mp h with rfl | h
    · exact .inr (.inl (by rwa [Node.descendants]))
    · exact .inr (.inr (ih h he))

end Tree

/-! ## The files of a tree -/

namespace Tree

/-- A listing of each directory among some entries. -/
def ListsBelow (tree : Tree) : Prop :=
  ∀ name entries, (name, .directory entries) ∈ tree → ∀ front : String,
    Lists (fun names => front ++ "/".intercalate names) (Node.fileAt · (.directory entries))
      (files front entries)

/-- The files at or below an entry. -/
theorem lists_entry (front : String) {entry : String × Node} {tree : Tree} (hmem : entry ∈ tree)
    (below : tree.ListsBelow) :
    Lists (fun names => front ++ "/".intercalate (entry.1 :: names)) (Node.fileAt · entry.2)
      (entry.2.files (front ++ entry.1)) := by
  obtain ⟨name, node⟩ := entry
  cases node with
  | file mode content =>
    refine ⟨List.pairwise_singleton _ _, fun f => ?_⟩
    rw [Node.files, List.mem_singleton]
    constructor
    · rintro rfl
      exact ⟨[], by rw [String.intercalate_singleton], rfl⟩
    · rintro ⟨names, hpath, hfile⟩
      cases names with
      | nil =>
        obtain ⟨path, mode', content'⟩ := f
        cases hfile
        rw [String.intercalate_singleton] at hpath
        exact congrArg (StoredFile.mk · _ _) hpath
      | cons next names => cases hfile
  | directory entries =>
    have hlists := below name entries hmem (front ++ name ++ "/")
    refine ⟨hlists.sorted, fun f => (hlists.mem f).trans ?_⟩
    -- no path ends at the directory itself
    refine exists_congr fun names => and_congr_left fun hfile => ?_
    have hne : names ≠ [] := by
      rintro rfl
      cases hfile
    rw [String.intercalate_cons_of_ne_nil hne, String.append_assoc, String.append_assoc,
      String.append_assoc]

/-- What is found below a directory is found below one of its entries. -/
theorem exists_entry_of_fileAt {tree : Tree} {names : List String} {file : FileMode × ByteArray}
    (h : (Node.directory tree).fileAt names = some file) :
    ∃ entry ∈ tree, ∃ rest, names = entry.1 :: rest ∧ entry.2.fileAt rest = some file := by
  cases names with
  | nil => cases h
  | cons name rest =>
    rw [Node.fileAt_directory] at h
    obtain ⟨node, hnode, hfile⟩ := Option.bind_eq_some_iff.mp h
    exact ⟨(name, node), mem_of_find? hnode, rest, rfl, hfile⟩

theorem fileAt_cons {entry : String × Node} {rest : Tree} (hnew : ∀ e ∈ rest, entry.1 ≠ e.1)
    {names : List String} {file : FileMode × ByteArray} :
    (Node.directory (entry :: rest)).fileAt names = some file ↔
      (∃ more, names = entry.1 :: more ∧ entry.2.fileAt more = some file) ∨
        (Node.directory rest).fileAt names = some file := by
  have hother : ∀ {more : List String},
      (Node.directory rest).fileAt (entry.1 :: more) ≠ some file := by
    intro more h
    obtain ⟨e, he, _, hnames, -⟩ := exists_entry_of_fileAt h
    exact hnew e he (List.cons.inj hnames).1
  cases names with
  | nil =>
    rw [Node.fileAt_directory_nil, Node.fileAt_directory_nil]
    constructor
    · exact .inr
    · rintro (⟨more, hnames, -⟩ | h)
      · cases hnames
      · exact h
  | cons name names =>
    rw [Node.fileAt_directory, find?_cons]
    by_cases hname : entry.1 = name
    · subst hname
      rw [if_pos rfl, Option.bind_some]
      constructor
      · exact fun h => .inl ⟨names, rfl, h⟩
      · rintro (⟨more, hnames, h⟩ | h)
        · cases hnames
          exact h
        · exact absurd h hother
    · rw [if_neg hname]
      constructor
      · exact .inr
      · rintro (⟨more, hnames, h⟩ | h)
        · exact absurd (List.cons.inj hnames).1.symm hname
        · exact h

/-- The files of a directory, from those of each directory in it. -/
theorem lists_of_below (front : String) {tree : Tree} (names : ∀ e ∈ tree, IsName e.1)
    (nodup : (List.map (·.1) tree).Nodup)
    (sorted : List.Pairwise (fun e f => sortName e < sortName f) tree) (below : tree.ListsBelow) :
    Lists (fun names => front ++ "/".intercalate names) (Node.fileAt · (.directory tree))
      (files front tree) := by
  induction tree with
  | nil =>
    refine ⟨List.Pairwise.nil, fun f => ⟨fun h => absurd h List.not_mem_nil, ?_⟩⟩
    rintro ⟨names, -, hfile⟩
    rw [Node.fileAt_empty] at hfile
    cases hfile
  | cons entry rest ih =>
    obtain ⟨hname, hnames⟩ := List.forall_mem_cons.mp names
    obtain ⟨hnew, hnodup⟩ := List.nodup_cons.mp nodup
    obtain ⟨hfirst, hsorted⟩ := List.pairwise_cons.mp sorted
    have hne : ∀ f ∈ rest, entry.1 ≠ f.1 := fun f hf hsame =>
      hnew (List.mem_map.mpr ⟨f, hf, hsame.symm⟩)
    have hhere := lists_entry front List.mem_cons_self below
    have hlater := ih hnames hnodup hsorted fun name entries h =>
      below name entries (List.mem_cons_of_mem _ h)
    rw [files_cons]
    refine ⟨List.pairwise_append.mpr ⟨hhere.sorted, hlater.sorted, ?_⟩, fun f => ?_⟩
    · intro f hf g hg
      obtain ⟨p, hfpath, hp⟩ := (hhere.mem f).mp hf
      obtain ⟨names, hgpath, hq⟩ := (hlater.mem g).mp hg
      obtain ⟨e, he, q, rfl, hqe⟩ := exists_entry_of_fileAt hq
      rw [hfpath, hgpath, String.lt_iff_toList_lt, String.toList_append, String.toList_append]
      refine List.append_left_lt (String.lt_iff_toList_lt.mp ?_)
      exact path_lt_path hname (hnames e he) (hne e he) (hfirst e he) hp hqe
    · rw [List.mem_append, hhere.mem, hlater.mem]
      constructor
      · rintro (⟨more, hpath, hfile⟩ | ⟨names, hpath, hfile⟩)
        · exact ⟨_, hpath, (fileAt_cons hne).mpr (.inl ⟨more, rfl, hfile⟩)⟩
        · exact ⟨names, hpath, (fileAt_cons hne).mpr (.inr hfile)⟩
      · rintro ⟨names, hpath, hfile⟩
        rcases (fileAt_cons hne).mp hfile with ⟨more, rfl, hmore⟩ | hrest
        · exact .inl ⟨more, hpath, hmore⟩
        · exact .inr ⟨names, hpath, hrest⟩

theorem lists_files {tree : Tree} (h : tree.Sound) (front : String) :
    Lists (fun names => front ++ "/".intercalate names) (Node.fileAt · (.directory tree))
      (files front tree) := by
  induction h generalizing front with
  | intro names nodup sorted _ ih => exact lists_of_below front names nodup sorted ih

/-- The names on the way to a file can stand between slashes. -/
theorem names_of_fileAt {tree : Tree} (h : tree.Sound) {names : List String}
    {file : FileMode × ByteArray} (hfile : (Node.directory tree).fileAt names = some file) :
    ∀ name ∈ names, IsName name := by
  induction h generalizing names with
  | intro hnames _ _ _ ih =>
    obtain ⟨⟨name, node⟩, hentry, rest, rfl, hrest⟩ := exists_entry_of_fileAt hfile
    refine List.forall_mem_cons.mpr ⟨hnames _ hentry, ?_⟩
    cases node with
    | file mode content =>
      cases rest with
      | nil => exact fun _ h => absurd h List.not_mem_nil
      | cons next rest => cases hrest
    | directory entries => exact ih name entries hentry hrest

/-- **The files of a tree are listed in the order of their paths, each with its content.** -/
theorem files_root {tree : Tree} (h : tree.Sound) : InOrder (files "" tree) ∧
    ∀ f, f ∈ files "" tree ↔ tree.pathAt f.path = some (f.mode, f.content) := by
  have hlists := lists_files h ""
  refine ⟨hlists.sorted, fun f => (hlists.mem f).trans ?_⟩
  constructor
  · rintro ⟨names, hpath, hfile⟩
    have hne : names ≠ [] := by
      rintro rfl
      cases hfile
    rw [pathAt, hpath, String.empty_append, splitOn_intercalate hne (names_of_fileAt h hfile)]
    exact hfile
  · intro hfile
    exact ⟨_, by rw [intercalate_splitOn, String.empty_append], hfile⟩

/-- No entry is blank. -/
theorem fileAt_blank {tree : Tree} (h : tree.Sound) (rest : List String) :
    (Node.directory tree).fileAt ("" :: rest) = none := by
  obtain ⟨names, -, -, -⟩ := h
  have hnone : tree.find? "" = none := find?_eq_none.mpr fun e he => (names e he).filled
  rw [Node.fileAt_directory, hnone]
  rfl

/-- The file that some names lead to is among the entries of the tree. -/
theorem exists_mem_descendants {tree : Tree} {names : List String} {file : FileMode × ByteArray}
    (h : (Node.directory tree).fileAt names = some file) :
    (∃ name, (name, .file file.1 file.2) ∈ descendants tree) ∧
      ∀ name ∈ names, ∃ node, (name, node) ∈ descendants tree := by
  induction names generalizing tree with
  | nil => cases h
  | cons name rest ih =>
    rw [Node.fileAt_directory] at h
    obtain ⟨node, hnode, hfile⟩ := Option.bind_eq_some_iff.mp h
    have hmem := mem_of_find? hnode
    have hhere := mem_descendants_of_mem hmem
    cases node with
    | file mode content =>
      cases rest with
      | nil =>
        cases hfile
        exact ⟨⟨name, hhere⟩, List.forall_mem_singleton.mpr ⟨_, hhere⟩⟩
      | cons next rest => cases hfile
    | directory entries =>
      obtain ⟨⟨other, hother⟩, hnames⟩ := ih hfile
      have hsub := descendants_subset hmem
      refine ⟨⟨other, hsub hother⟩, List.forall_mem_cons.mpr ⟨⟨_, hhere⟩, fun n hn => ?_⟩⟩
      obtain ⟨found, hfound⟩ := hnames n hn
      exact ⟨found, hsub hfound⟩

end Tree

namespace Repository

variable {r : Repository}

/-- A file or directory that is there can be opened. -/
theorem open?_of_there {node : Node} (h : r.isLost node.id = false) : r.open? node = .ok () := by
  rw [open?, hasLost, h, Bool.and_false]
  rfl

theorem isLost_of_nil (hr : r.lost = []) (id : String) : r.isLost id = false := by
  rw [isLost, hr]
  rfl

/-- Where nothing is lost every node can be opened. -/
theorem open?_eq (hr : r.lost = []) (node : Node) : r.open? node = .ok () :=
  open?_of_there (isLost_of_nil hr node.id)

/-- All that a tree holds is there: the directories in it and their files. -/
def Holds (r : Repository) (tree : Tree) : Prop :=
  ∀ e ∈ Tree.descendants tree, r.isLost e.2.id = false

instance (r : Repository) (tree : Tree) : Decidable (r.Holds tree) :=
  inferInstanceAs (Decidable (∀ e ∈ Tree.descendants tree, r.isLost e.2.id = false))

/-- Where nothing is lost all that a tree holds is there. -/
theorem holds_of_nil (hr : r.lost = []) (tree : Tree) : r.Holds tree :=
  fun e _ => isLost_of_nil hr e.2.id

theorem Holds.open?_eq {tree : Tree} (h : r.Holds tree) {e : String × Node} (he : e ∈ tree) :
    r.open? e.2 = .ok () :=
  open?_of_there (h e (Tree.mem_descendants_of_mem he))

theorem Holds.inside {tree : Tree} (h : r.Holds tree) {name : String} {entries : Tree}
    (he : (name, .directory entries) ∈ tree) : r.Holds entries :=
  fun e hin => h e (Tree.descendants_subset he hin)

/-! ## Visits -/

mutual

/-- All entries below a node are visited if they are all there. -/
theorem visitsBelow_eq (path : String) : ∀ node : Node, r.open? node = .ok () →
    (∀ e ∈ node.descendants, r.isLost e.2.id = false) →
    r.visitsBelow path node = .ok (node.visits path)
  | .file .., _, _ => rfl
  | .directory entries, hopen, hheld => by
    rw [visitsBelow, hopen, Node.visits]
    rw [Node.descendants] at hheld
    exact visitsIn_eq (path ++ "/") entries hheld

/-- **All entries of a tree are visited if they are all there.** -/
theorem visitsIn_eq (directory : String) : ∀ tree : List (String × Node), r.Holds tree →
    r.visitsIn directory tree = .ok (Tree.visits directory tree)
  | [], _ => rfl
  | (name, node) :: rest, hheld => by
    rw [Holds, Tree.descendants, List.forall_mem_cons, List.forall_mem_append] at hheld
    obtain ⟨hnode, hbelow, hrest⟩ := hheld
    rw [visitsIn, visitsBelow_eq (directory ++ name) node (open?_of_there hnode) hbelow,
      visitsIn_eq directory rest hrest, Tree.visits]
    rfl

end

mutual

/-- All files at or below a node are listed if they are all there. -/
theorem filesAt_eq (path : String) : ∀ node : Node, r.open? node = .ok () →
    (∀ e ∈ node.descendants, r.isLost e.2.id = false) → r.filesAt path node = .ok (node.files path)
  | .file .., _, _ => rfl
  | .directory entries, hopen, hheld => by
    rw [filesAt, hopen, Node.files]
    rw [Node.descendants] at hheld
    exact filesIn_eq (path ++ "/") entries hheld

/-- All files of a tree are listed if they are all there. -/
theorem filesIn_eq (directory : String) : ∀ tree : List (String × Node), r.Holds tree →
    r.filesIn directory tree = .ok (Tree.files directory tree)
  | [], _ => rfl
  | (name, node) :: rest, hheld => by
    rw [Holds, Tree.descendants, List.forall_mem_cons, List.forall_mem_append] at hheld
    obtain ⟨hnode, hbelow, hrest⟩ := hheld
    rw [filesIn, filesAt_eq (directory ++ name) node (open?_of_there hnode) hbelow,
      filesIn_eq directory rest hrest, Tree.files_cons]
    rfl

end

/-! ## Paths -/

/-- Following some names leads to the file that stands there. -/
theorem nodeAt_spec {tree : Tree} (h : tree.Sound) (hheld : r.Holds tree) (names : List String) :
    ∃ found, r.nodeAt names tree = .ok found ∧
      found.bind (Node.fileAt []) = (Node.directory tree).fileAt names := by
  induction names generalizing tree with
  | nil => exact ⟨none, rfl, rfl⟩
  | cons name rest ih =>
    by_cases hblank : name = ""
    · refine ⟨none, ?_, ?_⟩
      · cases rest with
        | nil => rw [nodeAt, if_pos (beq_iff_eq.mpr hblank)]
        | cons next rest =>
          rw [nodeAt.eq_3 _ _ _ _ (List.cons_ne_nil _ _), if_pos (beq_iff_eq.mpr hblank)]
      · rw [hblank, Tree.fileAt_blank h]
        rfl
    · have hname : ¬ (name == "") = true := by rwa [beq_iff_eq]
      cases rest with
      | nil =>
        rw [nodeAt, if_neg hname]
        exact ⟨_, rfl, rfl⟩
      | cons next rest =>
        rw [nodeAt.eq_3 _ _ _ _ (List.cons_ne_nil _ _), if_neg hname, Node.fileAt_directory]
        rcases hfind : tree.find? name with _ | ⟨mode, content⟩ | ⟨entries⟩
        · exact ⟨none, rfl, rfl⟩
        · exact ⟨none, rfl, rfl⟩
        · obtain ⟨-, -, -, below⟩ := h
          have hentry := Tree.mem_of_find? hfind
          have hbelow := below name entries hentry
          dsimp only
          split
          · -- a slash behind a directory
            rename_i hslash
            rw [beq_iff_eq] at hslash
            refine ⟨_, rfl, ?_⟩
            rw [hslash]
            exact (Tree.fileAt_blank hbelow []).symm
          · rw [hheld.open?_eq hentry]
            exact ih hbelow (hheld.inside hentry)

end Repository

end Readability.Git
