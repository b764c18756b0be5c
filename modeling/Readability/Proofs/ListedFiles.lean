import Readability.Proofs.Answers

/-!
# Listed files can be read

Whoever scores all files of a commit takes the listing and reads path by path. The listing visits
all directories and puts the names together, the reader has a path looked up part by part. Blank
parts, directories, slashes at the end and links come out the same on both sides: what is listed can
be read, each path is listed once, and nothing else can be read.

Main statement: `list_read_agree`, of every commit whose files and directories are all there
(`Keeps`) and every library that looks paths up and visits entries as it should (`Reads`). A path
that starts with `.` or `..` is not looked up, so for entries of such names at the top of a tree the
two sides do differ; everywhere else they agree (`Undotted`). That trees are in order is no
accident: they are so in every repository that is recorded commit by commit (`Recorded.orderly`).
-/

namespace Readability.Git

open Readability.Source (UnitError)

/-! ## Names that can be written down -/

namespace Tree

/-- The names in a tree can be written down; a null character would end them. -/
def Writable (tree : Tree) : Prop :=
  ∀ e ∈ descendants tree, '\x00' ∉ e.1.toList

instance (tree : Tree) : Decidable tree.Writable :=
  inferInstanceAs (Decidable (∀ e ∈ descendants tree, '\x00' ∉ e.1.toList))

theorem mem_descendants {tree : Tree} {e : String × Node} :
    e ∈ descendants tree ↔ ∃ entry ∈ tree, e = entry ∨ e ∈ entry.2.descendants := by
  induction tree with
  | nil => exact ⟨fun h => absurd h List.not_mem_nil, fun ⟨_, h, _⟩ => absurd h List.not_mem_nil⟩
  | cons entry rest ih =>
    rw [descendants, List.mem_cons, List.mem_append, ih, List.exists_mem_cons_iff, or_assoc]

/-- A tree's names can be written down when those of its entries can, and those below them. -/
theorem writable_iff {tree : Tree} : tree.Writable ↔ ∀ entry ∈ tree,
    '\x00' ∉ entry.1.toList ∧ ∀ e ∈ entry.2.descendants, '\x00' ∉ e.1.toList := by
  constructor
  · intro h entry hentry
    exact ⟨h _ (mem_descendants.mpr ⟨entry, hentry, .inl rfl⟩),
      fun e he => h _ (mem_descendants.mpr ⟨entry, hentry, .inr he⟩)⟩
  · intro h e he
    obtain ⟨entry, hentry, rfl | hbelow⟩ := mem_descendants.mp he
    · exact (h _ hentry).1
    · exact (h entry hentry).2 e hbelow

theorem kept_writable : Kept Writable fun name => '\x00' ∉ name.toList where
  nil := fun _ h => absurd h List.not_mem_nil
  names := fun h e he => (writable_iff.mp h e he).1
  inside := fun h _ _ he e hin => h e (descendants_subset he hin)
  without := by
    intro tree h name
    have hsub : (tree.without name).Sublist tree := List.filter_sublist
    exact writable_iff.mpr fun entry hentry => writable_iff.mp h entry (hsub.subset hentry)
  withEntry := by
    intro tree h name hname node hnode
    refine writable_iff.mpr fun entry hentry => ?_
    rcases List.mem_cons.mp ((place_perm _ _).mem_iff.mp hentry) with rfl | hold
    · refine ⟨hname, ?_⟩
      cases node with
      | file mode content => exact fun e he => absurd he List.not_mem_nil
      | directory entries => exact hnode entries rfl
    · have hsub : (tree.without name).Sublist tree := List.filter_sublist
      exact writable_iff.mp h entry (hsub.subset hold)

/-- No file stands at a path with a null character. -/
theorem pathAt_of_null {tree : Tree} (h : tree.Writable) {path : String}
    (hpath : '\x00' ∈ path.toList) : tree.pathAt path = none := by
  rw [Option.eq_none_iff_forall_ne_some]
  intro file hfile
  rw [← intercalate_splitOn path] at hpath
  rcases mem_intercalate hpath with hslash | ⟨name, hname, hnull⟩
  · exact absurd hslash (by decide)
  · obtain ⟨node, hnode⟩ := (exists_mem_descendants hfile).2 name hname
    exact h _ hnode hnull

end Tree

/-! ## Paths that are looked up -/

/-- A path whose first part stands for another directory. -/
def Dotted (path : String) : Prop :=
  (path.splitOn "/").head? = some "." ∨ (path.splitOn "/").head? = some ".."

namespace Tree

/-- No name at the top of a tree stands for another directory. No index takes such a name, but a
tree can be written by hand. -/
def Undotted (tree : Tree) : Prop :=
  ∀ entry ∈ tree, entry.1 ≠ "." ∧ entry.1 ≠ ".."

instance (tree : Tree) : Decidable tree.Undotted :=
  inferInstanceAs (Decidable (∀ entry ∈ tree, entry.1 ≠ "." ∧ entry.1 ≠ ".."))

variable {tree : Tree} {path : String} {file : FileMode × ByteArray}

/-- A file can be looked up unless its path starts with dots. -/
theorem looksUp_iff (h : tree.Sound) (hwritable : tree.Writable)
    (hfile : tree.pathAt path = some file) : LooksUp path ↔ ¬ Dotted path := by
  rw [Dotted, not_or]
  constructor
  · intro hlooks
    exact ⟨fun hdot => (hlooks.first "." hdot).2.1 rfl,
      fun hdots => (hlooks.first ".." hdots).2.2 rfl⟩
  · rintro ⟨hdot, hdots⟩
    refine ⟨fun hnull => ?_, fun name hname => ⟨?_, ?_, ?_⟩⟩
    · rw [pathAt_of_null hwritable hnull] at hfile
      cases hfile
    · exact (names_of_fileAt h hfile name (List.mem_of_mem_head? hname)).filled
    · rintro rfl
      exact hdot hname
    · rintro rfl
      exact hdots hname

/-- The path of a file starts with a name at the top of the tree. -/
theorem Undotted.not_dotted (h : tree.Undotted) (hfile : tree.pathAt path = some file) :
    ¬ Dotted path := by
  rw [pathAt] at hfile
  rw [Dotted]
  cases hparts : path.splitOn "/" with
  | nil => exact absurd hparts (splitOn_ne_nil path)
  | cons first rest =>
    rw [hparts, Node.fileAt_directory] at hfile
    obtain ⟨node, hnode, -⟩ := Option.bind_eq_some_iff.mp hfile
    obtain ⟨hone, htwo⟩ := h _ (mem_of_find? hnode)
    simp only [List.head?_cons, Option.some.injEq, not_or]
    exact ⟨hone, htwo⟩

end Tree

namespace Repository

variable {r : Repository}

/-! ## Repositories recorded commit by commit -/

/-- A commit's edits name files as directories can record them. -/
def Named (edits : List FileEdit) : Prop :=
  ∀ edit ∈ edits, ∀ name ∈ edit.path.splitOn "/", IsName name ∧ '\x00' ∉ name.toList

/-- The trees of a repository are in order and can be written down. -/
def Orderly (r : Repository) : Prop :=
  ∀ c ∈ r.log, c.tree.Sound ∧ c.tree.Writable

theorem orderly_empty : Orderly .empty :=
  fun _ h => absurd h List.not_mem_nil

theorem Orderly.baseTree (h : r.Orderly) (parents : List String) :
    (r.baseTree parents).Sound ∧ (r.baseTree parents).Writable := by
  rw [Repository.baseTree]
  split
  · rename_i parent hparent
    obtain ⟨id, -, hfound⟩ := Option.bind_eq_some_iff.mp hparent
    exact h parent (List.mem_of_find?_eq_some hfound)
  · exact ⟨Tree.sound_nil, Tree.kept_writable.nil⟩

/-- Whatever is committed, on whatever parents, the trees stay in order. -/
theorem Orderly.record (h : r.Orderly) (id : String) (parents : List String) (time : Int)
    (author message : String) {edits : List FileEdit} (hedits : Named edits) :
    (r.record id parents time author message edits).Orderly := by
  obtain ⟨hsound, hwritable⟩ := h.baseTree parents
  refine List.forall_mem_cons.mpr ⟨⟨?_, ?_⟩, h⟩
  · exact Tree.kept_sound.foldl_apply hsound fun e he name hname => (hedits e he name hname).1
  · exact Tree.kept_writable.foldl_apply hwritable fun e he name hname => (hedits e he name hname).2

/-- Repositories that are made commit by commit, with references set, files kept and objects lost in
between. -/
inductive Recorded : Repository → Prop
  | empty : Recorded .empty
  | record {r : Repository} (h : Recorded r) (id : String) (parents : List String) (time : Int)
      (author message : String) {edits : List FileEdit} (hedits : Named edits) :
      Recorded (r.record id parents time author message edits)
  | refer {r : Repository} (h : Recorded r) (name id : String) : Recorded (r.refer name id)
  | keep {r : Repository} (h : Recorded r) (content : ByteArray) : Recorded (r.keep content)
  | lose {r : Repository} (h : Recorded r) (id : String) : Recorded (r.lose id)

/-- **The trees of a repository that was made commit by commit are in order.** -/
theorem Recorded.orderly (h : Recorded r) : r.Orderly := by
  induction h with
  | empty => exact orderly_empty
  | record _ id parents time author message hedits ih =>
    exact ih.record id parents time author message hedits
  -- nothing else changes the log
  | refer _ _ _ ih => exact ih
  | keep _ _ ih => exact ih
  | lose _ _ ih => exact ih

/-! ## Listing and reading -/

/-- A commit's tree is in order and all there, with its directories and their files. -/
structure Keeps (r : Repository) (c : Commit) : Prop where
  sound : c.tree.Sound
  writable : c.tree.Writable
  root : r.isLost (Node.directory c.tree).id = false
  held : r.Holds c.tree

/-- Some paths are those of the files at a revision, each once and in order. They can be read,
unless they start with dots, and nothing else can. -/
structure ListsReadable (lib : Library) (r : Repository) (revision : String)
    (paths : List String) : Prop where
  listed : lib.list r revision = .ok paths
  sorted : paths.Pairwise (· < ·)
  nodup : paths.Nodup
  read : ∀ path, (∃ content, lib.read r revision path = .ok content) ↔
    path ∈ paths ∧ ¬ Dotted path
  missing : ∀ path, LooksUp path → path ∉ paths →
    lib.read r revision path = .error (.notFound path revision)
  refused : ∀ path, ¬ LooksUp path →
    ∃ reason, lib.read r revision path = .error (.repository reason)

/-- **At every revision whose objects are all there, exactly the listed paths can be read**, but for
those that start with dots, which are listed all the same. -/
theorem list_read_agree {lib : Library} (reads : lib.Reads r) {revision : String} {c : Commit}
    (hc : r.commitOf revision = .ok c) (h : r.Keeps c) :
    ∃ paths, r.ListsReadable lib revision paths ∧ (c.tree.Undotted →
      ∀ path, path ∈ paths ↔ ∃ content, lib.read r revision path = .ok content) := by
  have hroot := open?_of_there h.root
  obtain ⟨paths, hlist, hsorted, hmem⟩ :=
    reads.list_of_commitOf hroot h.sound h.held hc
  have hnodup : paths.Nodup := hsorted.imp fun hlt => hlt.ne
  have hrefused : ∀ path, ¬ LooksUp path →
      ∃ reason, lib.read r revision path = .error (.repository reason) := fun _ hpath =>
    reads.refuse_of_commitOf hroot h.sound h.held hc hpath
  have hmissing : ∀ path, LooksUp path → path ∉ paths →
      lib.read r revision path = .error (.notFound path revision) := by
    intro path hlooks hpath
    have hnone : c.tree.pathAt path = none := by
      rwa [hmem, Option.not_isSome_iff_eq_none] at hpath
    rw [reads.read_of_commitOf hroot h.sound h.held hc hlooks, hnone]
  have hread : ∀ path, (∃ content, lib.read r revision path = .ok content) ↔
      path ∈ paths ∧ ¬ Dotted path := by
    intro path
    constructor
    · rintro ⟨content, hcontent⟩
      have hlooks : LooksUp path := by
        by_contra hnot
        obtain ⟨reason, hreason⟩ := hrefused path hnot
        rw [hreason] at hcontent
        cases hcontent
      have hpath : path ∈ paths := by
        by_contra hnot
        rw [hmissing path hlooks hnot] at hcontent
        cases hcontent
      obtain ⟨file, hfile⟩ := Option.isSome_iff_exists.mp ((hmem path).mp hpath)
      exact ⟨hpath, (Tree.looksUp_iff h.sound h.writable hfile).mp hlooks⟩
    · rintro ⟨hpath, hplain⟩
      obtain ⟨file, hfile⟩ := Option.isSome_iff_exists.mp ((hmem path).mp hpath)
      have hlooks := (Tree.looksUp_iff h.sound h.writable hfile).mpr hplain
      exact ⟨file.2, by rw [reads.read_of_commitOf hroot h.sound h.held hc hlooks, hfile]⟩
  refine ⟨paths, ⟨hlist, hsorted, hnodup, hread, hmissing, hrefused⟩, fun hundotted path => ?_⟩
  rw [hread, iff_self_and]
  intro hpath
  obtain ⟨file, hfile⟩ := Option.isSome_iff_exists.mp ((hmem path).mp hpath)
  exact hundotted.not_dotted hfile

/-- The first files of a repository, with directories, a program and a link. -/
def firstFiles : List FileEdit :=
  [⟨"notes.txt", some (.plain, "old".toUTF8)⟩,
    ⟨"src/text/read.rs", some (.plain, "fn read() {}".toUTF8)⟩,
    ⟨"run.sh", some (.executable, "cargo run".toUTF8)⟩,
    ⟨"src/latest", some (.link, "text/read.rs".toUTF8)⟩]

/-- The repository after its notes were taken out; their content is lost. -/
def tidied : Repository :=
  ((Repository.empty.record "1111111111111111111111111111111111111111" [] 1700000000 "Ada" "start"
      firstFiles).record "2222222222222222222222222222222222222222"
    ["1111111111111111111111111111111111111111"] 1700003600 "Ada" "drop the notes"
    [⟨"notes.txt", none⟩]).lose "489ce0f857e7634a0eb9f328265a3e91fad49f61"

/-- Its latest commit. -/
def tidiedTop : Commit :=
  tidied.log.head (List.cons_ne_nil _ _)

theorem splitOn_firstFiles :
    "notes.txt".splitOn "/" = ["notes.txt"] ∧
      "src/text/read.rs".splitOn "/" = ["src", "text", "read.rs"] ∧
      "run.sh".splitOn "/" = ["run.sh"] ∧ "src/latest".splitOn "/" = ["src", "latest"] := by
  simp only [toList_splitOn]
  decide +kernel

theorem recorded_tidied : Recorded tidied := by
  obtain ⟨hnotes, hread, hrun, hlatest⟩ := splitOn_firstFiles
  have hfirst : Named firstFiles := by
    simp only [Named, firstFiles, List.forall_mem_cons, hnotes, hread, hrun, hlatest]
    decide +kernel
  have hlast : Named [⟨"notes.txt", none⟩] := by
    simp only [Named, List.forall_mem_cons, hnotes]
    decide +kernel
  exact ((Recorded.empty.record _ _ _ _ _ hfirst).record _ _ _ _ _ hlast).lose _

theorem tidiedTop_tree : tidiedTop.tree =
    [("run.sh", .file .executable "cargo run".toUTF8),
      ("src", .directory [("latest", .file .link "text/read.rs".toUTF8),
        ("text", .directory [("read.rs", .file .plain "fn read() {}".toUTF8)])])] := by
  obtain ⟨hnotes, hread, hrun, hlatest⟩ := splitOn_firstFiles
  show FileEdit.apply (firstFiles.foldl FileEdit.apply []) ⟨"notes.txt", none⟩ = _
  simp only [firstFiles, List.foldl_cons, List.foldl_nil, FileEdit.apply, hnotes, hread, hrun,
    hlatest]
  rfl

theorem list_read_agree_tidied :
    Library.builtIn.Reads tidied ∧
      tidied.commitOf "2222222222222222222222222222222222222222" = .ok tidiedTop ∧
      tidied.Keeps tidiedTop ∧ tidiedTop.tree.Undotted ∧
      ∃ paths, tidied.ListsReadable .builtIn "2222222222222222222222222222222222222222" paths ∧
        ∀ path, path ∈ paths ↔ ∃ content,
          Library.builtIn.read tidied "2222222222222222222222222222222222222222" path =
            .ok content := by
  have hc : tidied.commitOf "2222222222222222222222222222222222222222" = .ok tidiedTop :=
    commitOf_of_there (by decide +kernel) rfl rfl
  obtain ⟨hsound, hwritable⟩ := recorded_tidied.orderly tidiedTop List.mem_cons_self
  have hkeeps : tidied.Keeps tidiedTop := by
    refine ⟨hsound, hwritable, ?_, ?_⟩
    · rw [tidiedTop_tree]
      decide +kernel
    · rw [tidiedTop_tree]
      decide +kernel
  have hundotted : tidiedTop.tree.Undotted := by
    rw [tidiedTop_tree]
    decide +kernel
  obtain ⟨paths, hlists, hread⟩ := list_read_agree Library.reads_builtIn hc hkeeps
  exact ⟨Library.reads_builtIn, hc, hkeeps, hundotted, paths, hlists, hread hundotted⟩

end Repository

end Readability.Git
