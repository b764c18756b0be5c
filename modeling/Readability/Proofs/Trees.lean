import Mathlib.Data.List.Nodup
import Mathlib.Data.String.Basic
import Readability.Git.Repository
import Readability.Proofs.Separators

/-!
# Trees as maps from paths to files

A tree nests the entries of directories, and a path is followed through it name by
name (`Node.fileAt`). Setting a file replaces what stood in its way, a file in place
of one of its directories or a directory in its own place, and leaves all other
files alone (`fileAt_put`); taking one out leaves all others (`fileAt_erase`).

Directories keep their entries in order and know each name once (`Sound`), whatever
is set or taken out (`kept_sound`).
-/

namespace Readability.Git

/-- What some names lead to below a node, if it is a file. -/
def Node.fileAt : List String → Node → Option (FileMode × ByteArray)
  | [], .file mode content => some (mode, content)
  | [], .directory _ => none
  | _ :: _, .file .. => none
  | name :: rest, .directory entries => (Tree.find? entries name).bind (Node.fileAt rest)

/-- One of two paths leads through the other one, or they are the same. -/
def Meets (p q : List String) : Prop :=
  p <+: q ∨ q <+: p

theorem meets_cons {name other : String} {p q : List String} :
    Meets (name :: p) (other :: q) ↔ name = other ∧ Meets p q := by
  rw [Meets, Meets, List.cons_prefix_cons, List.cons_prefix_cons, and_or_left]
  constructor
  · rintro (h | ⟨rfl, h⟩)
    · exact .inl h
    · exact .inr ⟨rfl, h⟩
  · rintro (h | ⟨rfl, h⟩)
    · exact .inl h
    · exact .inr ⟨rfl, h⟩

theorem meets_nil_left (q : List String) : Meets [] q :=
  .inl List.nil_prefix

theorem meets_nil_right (p : List String) : Meets p [] :=
  .inr List.nil_prefix

instance (p q : List String) : Decidable (Meets p q) :=
  inferInstanceAs (Decidable (_ ∨ _))

namespace Tree

/-! ## Entries -/

theorem find?_cons (entry : String × Node) (rest : Tree) (name : String) :
    find? (entry :: rest) name = if entry.1 = name then some entry.2 else find? rest name := by
  rw [find?, List.find?_cons]
  by_cases h : entry.1 = name
  · rw [if_pos h, beq_iff_eq.mpr h]
    rfl
  · rw [if_neg h, beq_false_of_ne h]
    rfl

theorem find?_eq_none {tree : Tree} {name : String} :
    find? tree name = none ↔ ∀ entry ∈ tree, entry.1 ≠ name := by
  rw [find?, Option.map_eq_none_iff, List.find?_eq_none]
  simp only [beq_iff_eq, ne_eq]

theorem mem_of_find? {tree : Tree} {name : String} {node : Node}
    (h : find? tree name = some node) : (name, node) ∈ tree := by
  obtain ⟨entry, hentry, rfl⟩ := Option.map_eq_some_iff.mp h
  have hname := List.find?_some hentry
  rw [beq_iff_eq] at hname
  rw [← hname]
  exact List.mem_of_find?_eq_some hentry

theorem find?_without (tree : Tree) (name other : String) :
    (tree.without name).find? other = if name = other then none else tree.find? other := by
  induction tree with
  | nil => exact (ite_self _).symm
  | cons entry rest ih =>
    rw [without] at ih ⊢
    by_cases hentry : entry.1 = name
    · rw [List.filter_cons_of_neg (by simp [hentry]), ih, find?_cons]
      split_ifs with hname hother
      · rfl
      · exact absurd (hentry.symm.trans hother) hname
      · rfl
    · rw [List.filter_cons_of_pos (by simp [hentry]), find?_cons, find?_cons, ih]
      split_ifs with hother hname
      · exact absurd (hother.trans hname.symm) hentry
      · rfl
      · rfl
      · rfl

theorem place_perm (entry : String × Node) (tree : Tree) :
    (place entry tree).Perm (entry :: tree) := by
  induction tree with
  | nil => exact List.Perm.refl _
  | cons other rest ih =>
    rw [place]
    split
    · exact List.Perm.refl _
    · exact (ih.cons other).trans (List.Perm.swap entry other rest)

theorem find?_place {entry : String × Node} {tree : Tree} (hfree : ∀ e ∈ tree, e.1 ≠ entry.1)
    (name : String) :
    (place entry tree).find? name = if entry.1 = name then some entry.2 else tree.find? name := by
  induction tree with
  | nil => exact find?_cons _ _ _
  | cons other rest ih =>
    obtain ⟨hother, hrest⟩ := List.forall_mem_cons.mp hfree
    rw [place]
    split
    · exact find?_cons _ _ _
    · rw [find?_cons, ih hrest, find?_cons]
      split_ifs with ho he
      · exact absurd (ho.trans he.symm) hother
      · rfl
      · rfl
      · rfl

theorem name_ne_of_mem_without {tree : Tree} {name : String} {entry : String × Node}
    (h : entry ∈ tree.without name) : entry.1 ≠ name := by
  have hkept := (List.mem_filter.mp h).2
  rwa [bne_iff_ne] at hkept

theorem find?_withEntry (tree : Tree) (name : String) (node : Node) (other : String) :
    (tree.withEntry name node).find? other =
      if name = other then some node else tree.find? other := by
  rw [withEntry, find?_place fun _ => name_ne_of_mem_without]
  split_ifs with hname
  · rfl
  · rw [find?_without, if_neg hname]

end Tree

/-! ## Setting and taking out files -/

namespace Node

theorem fileAt_directory (name : String) (rest : List String) (tree : Tree) :
    (directory tree).fileAt (name :: rest) = (tree.find? name).bind (fileAt rest) := rfl

theorem fileAt_directory_nil (tree : Tree) : (directory tree).fileAt [] = none := rfl

theorem fileAt_empty (names : List String) : (directory []).fileAt names = none := by
  cases names with
  | nil => rfl
  | cons name rest => rfl

/-- Below what is no directory there is nothing, as in one without entries. -/
theorem fileAt_below (tree : Tree) (name : String) {rest : List String} (hrest : rest ≠ []) :
    (directory (tree.below name)).fileAt rest = (tree.find? name).bind (fileAt rest) := by
  rw [Tree.below]
  rcases tree.find? name with _ | node
  · exact fileAt_empty rest
  · cases node with
    | directory entries => rfl
    | file mode content =>
      obtain ⟨first, more, rfl⟩ := List.exists_cons_of_ne_nil hrest
      rfl

theorem fileAt_without (tree : Tree) (name other : String) (q : List String) :
    (directory (tree.without name)).fileAt (other :: q) =
      if name = other then none else (directory tree).fileAt (other :: q) := by
  rw [fileAt_directory, Tree.find?_without, fileAt_directory]
  split_ifs <;> rfl

theorem fileAt_withEntry (tree : Tree) (name : String) (node : Node) (other : String)
    (q : List String) :
    (directory (tree.withEntry name node)).fileAt (other :: q) =
      if name = other then node.fileAt q else (directory tree).fileAt (other :: q) := by
  rw [fileAt_directory, Tree.find?_withEntry, fileAt_directory]
  split_ifs <;> rfl

/-- **A file that is set stands at its path, in place of all that met the path.** -/
theorem fileAt_put (mode : FileMode) (content : ByteArray) {p : List String} (hp : p ≠ [])
    (tree : Tree) (q : List String) :
    (directory (tree.put (.file mode content) p)).fileAt q =
      if p = q then some (mode, content)
      else if Meets p q then none else (directory tree).fileAt q := by
  induction p generalizing tree q with
  | nil => exact absurd rfl hp
  | cons name p ih =>
    cases q with
    | nil =>
      rw [if_neg hp, if_pos (meets_nil_right _)]
      rfl
    | cons other q =>
      simp only [List.cons.injEq, meets_cons]
      cases p with
      | nil =>
        rw [Tree.put, fileAt_withEntry]
        by_cases hname : name = other
        · simp only [hname, true_and, if_true, meets_nil_left]
          cases q with
          | nil => rfl
          | cons next q => rfl
        · simp only [hname, false_and, if_false]
      | cons next p =>
        have hnext : next :: p ≠ [] := List.cons_ne_nil next p
        rw [Tree.put.eq_3 _ _ _ _ hnext, fileAt_withEntry]
        by_cases hname : name = other
        · simp only [hname, true_and, if_true, ih hnext]
          split_ifs with hrest hmeets
          · rfl
          · rfl
          · have hq : q ≠ [] := by
              rintro rfl
              exact hmeets (meets_nil_right _)
            rw [fileAt_below _ _ hq, fileAt_directory]
        · simp only [hname, false_and, if_false]

/-- A directory that is left empty goes, with nothing lost. -/
theorem fileAt_kept (tree kept : Tree) (name other : String) (q : List String) :
    (directory (if kept.isEmpty then tree.without name
        else tree.withEntry name (.directory kept))).fileAt (other :: q) =
      if name = other then (directory kept).fileAt q else (directory tree).fileAt (other :: q) := by
  split
  · rename_i hempty
    rw [fileAt_without, List.isEmpty_iff.mp hempty, fileAt_empty]
  · exact fileAt_withEntry _ _ _ _ _

/-- **A file that is taken out leaves all others.** -/
theorem fileAt_erase (p : List String) (tree : Tree) (q : List String) :
    (directory (tree.erase p)).fileAt q = if p = q then none else (directory tree).fileAt q := by
  induction p generalizing tree q with
  | nil =>
    cases q with
    | nil => rfl
    | cons other q => rfl
  | cons name p ih =>
    cases q with
    | nil => rw [fileAt_directory_nil, fileAt_directory_nil, ite_self]
    | cons other q =>
      -- where the path leads to no file, the tree is left as it is
      have hstay : (tree.find? name).bind (fileAt p) = none →
          (directory tree).fileAt (other :: q) =
            if name :: p = other :: q then none else (directory tree).fileAt (other :: q) := by
        intro hnone
        split_ifs with h
        · rw [← h, fileAt_directory, hnone]
        · rfl
      cases p with
      | nil =>
        rw [Tree.erase]
        rcases hfind : tree.find? name with _ | ⟨mode, content⟩ | ⟨entries⟩
        · exact hstay (by rw [hfind]; rfl)
        · dsimp only
          rw [fileAt_without]
          simp only [List.cons.injEq]
          by_cases hname : name = other
          · subst hname
            simp only [true_and, if_true, fileAt_directory, hfind]
            cases q with
            | nil => rfl
            | cons next q => rfl
          · simp only [hname, false_and, if_false]
        · exact hstay (by rw [hfind]; rfl)
      | cons next p =>
        rw [Tree.erase.eq_3 _ _ _ (List.cons_ne_nil next p)]
        rcases hfind : tree.find? name with _ | ⟨mode, content⟩ | ⟨entries⟩
        · exact hstay (by rw [hfind]; rfl)
        · exact hstay (by rw [hfind]; rfl)
        · dsimp only
          rw [fileAt_kept, ih]
          simp only [List.cons.injEq]
          by_cases hname : name = other
          · subst hname
            simp only [true_and, if_true, fileAt_directory, hfind]
            rfl
          · simp only [hname, false_and, if_false]

end Node

/-! ## Order -/

/-- A name that can stand between slashes. -/
structure IsName (name : String) : Prop where
  filled : name ≠ ""
  plain : '/' ∉ name.toList

instance (name : String) : Decidable (IsName name) :=
  decidable_of_iff (name ≠ "" ∧ '/' ∉ name.toList) ⟨fun h => ⟨h.1, h.2⟩, fun h => ⟨h.1, h.2⟩⟩

namespace Tree

/-- A tree with its entries in order, each name once, as have all directories in it. -/
inductive Sound : Tree → Prop
  | intro {tree : Tree} (names : ∀ e ∈ tree, IsName e.1)
      (nodup : (List.map (·.1) tree).Nodup)
      (sorted : List.Pairwise (fun e f => sortName e < sortName f) tree)
      (below : ∀ name entries, (name, .directory entries) ∈ tree → Sound entries) : Sound tree

theorem sound_nil : Sound [] :=
  ⟨fun _ h => absurd h List.not_mem_nil, List.nodup_nil, List.Pairwise.nil,
    fun _ _ h => absurd h List.not_mem_nil⟩

theorem toList_sortName (entry : String × Node) :
    (sortName entry).toList = entry.1.toList ∨
      (sortName entry).toList = entry.1.toList ++ ['/'] := by
  rw [sortName]
  split
  · exact .inl rfl
  · exact .inr (String.toList_append ..)

theorem sortName_ne {e f : String × Node} (he : IsName e.1) (hf : IsName f.1) (h : e.1 ≠ f.1) :
    sortName e ≠ sortName f := by
  intro hsame
  have hlist : (sortName e).toList = (sortName f).toList := by rw [hsame]
  have hslash : ∀ {s t : List Char}, '/' ∉ s → s ≠ t ++ ['/'] := by
    rintro s t hs rfl
    exact hs (List.mem_append_right _ (List.mem_singleton_self _))
  apply h
  rw [← String.toList_inj]
  rcases toList_sortName e with hl | hl <;> rcases toList_sortName f with hr | hr <;>
    rw [hl, hr] at hlist
  · exact hlist
  · exact absurd hlist (hslash he.plain)
  · exact absurd hlist.symm (hslash hf.plain)
  · exact (Source.Path.cut_inj he.plain hf.plain hlist).1

theorem sorted_place {entry : String × Node} {tree : Tree}
    (hsorted : List.Pairwise (fun e f => sortName e < sortName f) tree)
    (hfree : ∀ e ∈ tree, sortName e ≠ sortName entry) :
    List.Pairwise (fun e f => sortName e < sortName f) (place entry tree) := by
  induction tree with
  | nil => exact List.pairwise_singleton _ _
  | cons other rest ih =>
    obtain ⟨hother, hrest⟩ := List.pairwise_cons.mp hsorted
    obtain ⟨hne, hfree⟩ := List.forall_mem_cons.mp hfree
    rw [place]
    split
    · rename_i hlt
      refine List.pairwise_cons.mpr ⟨?_, hsorted⟩
      intro e he
      rcases List.mem_cons.mp he with rfl | he
      · exact hlt
      · exact lt_trans hlt (hother e he)
    · rename_i hge
      refine List.pairwise_cons.mpr ⟨?_, ih hrest hfree⟩
      intro e he
      rcases List.mem_cons.mp ((place_perm entry rest).mem_iff.mp he) with rfl | he
      · exact lt_of_le_of_ne (not_lt.mp hge) hne
      · exact hother e he

namespace Sound

theorem without {tree : Tree} (h : Sound tree) (name : String) : Sound (tree.without name) := by
  obtain ⟨names, nodup, sorted, below⟩ := h
  have hsub : (tree.without name).Sublist tree := List.filter_sublist
  exact ⟨fun e he => names e (hsub.subset he), (hsub.map _).nodup nodup, sorted.sublist hsub,
    fun n entries he => below n entries (hsub.subset he)⟩

theorem withEntry {tree : Tree} (h : Sound tree) {name : String} (hname : IsName name) {node : Node}
    (hnode : ∀ entries, node = .directory entries → Sound entries) :
    Sound (tree.withEntry name node) := by
  obtain ⟨names, nodup, sorted, below⟩ := h.without name
  have hperm := place_perm (name, node) (tree.without name)
  refine ⟨?_, ?_, ?_, ?_⟩
  · intro e he
    rcases List.mem_cons.mp (hperm.mem_iff.mp he) with rfl | he
    · exact hname
    · exact names e he
  · refine (hperm.map _).nodup_iff.mpr (List.nodup_cons.mpr ⟨?_, nodup⟩)
    intro hmem
    obtain ⟨e, he, hsame⟩ := List.mem_map.mp hmem
    exact name_ne_of_mem_without he hsame
  · refine sorted_place sorted fun e he => ?_
    exact sortName_ne (names e he) hname (name_ne_of_mem_without he)
  · intro n entries he
    rcases List.mem_cons.mp (hperm.mem_iff.mp he) with he | he
    · exact hnode entries (Prod.mk.inj he).2.symm
    · exact below n entries he

end Sound

/-! ## What edits keep -/

/-- A property of trees that stays when entries of certain names are set, and others taken out. -/
structure Kept (P : Tree → Prop) (Name : String → Prop) : Prop where
  nil : P []
  names : ∀ {tree : Tree}, P tree → ∀ e ∈ tree, Name e.1
  inside : ∀ {tree : Tree}, P tree → ∀ name entries, (name, .directory entries) ∈ tree → P entries
  without : ∀ {tree : Tree}, P tree → ∀ name, P (tree.without name)
  withEntry : ∀ {tree : Tree}, P tree → ∀ {name : String}, Name name → ∀ {node : Node},
    (∀ entries, node = .directory entries → P entries) → P (tree.withEntry name node)

namespace Kept

variable {P : Tree → Prop} {Name : String → Prop} (hP : Kept P Name)
include hP

theorem below {tree : Tree} (h : P tree) (name : String) : P (tree.below name) := by
  rw [Tree.below]
  split
  · rename_i entries hfind
    exact hP.inside h name entries (mem_of_find? hfind)
  · exact hP.nil

/-- It stays when a file is set. -/
theorem put {tree : Tree} (h : P tree) (mode : FileMode) (content : ByteArray) {p : List String}
    (hp : ∀ name ∈ p, Name name) : P (tree.put (.file mode content) p) := by
  induction p generalizing tree with
  | nil => exact h
  | cons name p ih =>
    obtain ⟨hname, hrest⟩ := List.forall_mem_cons.mp hp
    cases p with
    | nil => exact hP.withEntry h hname fun _ hfile => Node.noConfusion hfile
    | cons next p =>
      rw [Tree.put.eq_3 _ _ _ _ (List.cons_ne_nil next p)]
      refine hP.withEntry h hname fun entries hentries => ?_
      cases hentries
      exact ih (hP.below h name) hrest

/-- It stays when a file is taken out. -/
theorem erase {tree : Tree} (h : P tree) (p : List String) : P (tree.erase p) := by
  induction p generalizing tree with
  | nil => exact h
  | cons name p ih =>
    cases p with
    | nil =>
      rw [Tree.erase]
      split
      · exact hP.without h name
      · exact h
    | cons next p =>
      rw [Tree.erase.eq_3 _ _ _ (List.cons_ne_nil next p)]
      split
      · rename_i entries hfind
        have hmem := mem_of_find? hfind
        dsimp only
        split
        · exact hP.without h name
        · refine hP.withEntry h (hP.names h _ hmem) fun kept hkept => ?_
          cases hkept
          exact ih (hP.inside h name entries hmem)
      · exact h

theorem apply {tree : Tree} (h : P tree) {edit : FileEdit}
    (hedit : ∀ name ∈ edit.path.splitOn "/", Name name) : P (edit.apply tree) := by
  rw [FileEdit.apply]
  rcases edit.file with _ | ⟨mode, content⟩
  · exact hP.erase h _
  · exact hP.put h mode content hedit

/-- It stays through all edits of a commit. -/
theorem foldl_apply {tree : Tree} (h : P tree) {edits : List FileEdit}
    (hedits : ∀ edit ∈ edits, ∀ name ∈ edit.path.splitOn "/", Name name) :
    P (edits.foldl FileEdit.apply tree) := by
  induction edits generalizing tree with
  | nil => exact h
  | cons edit edits ih =>
    obtain ⟨hedit, hrest⟩ := List.forall_mem_cons.mp hedits
    exact ih (hP.apply h hedit) hrest

end Kept

/-- **Trees stay in order, whatever files are set and taken out.** -/
theorem kept_sound : Kept Sound IsName where
  nil := sound_nil
  names := fun ⟨names, _, _, _⟩ => names
  inside := fun ⟨_, _, _, below⟩ => below
  without := Sound.without
  withEntry := Sound.withEntry

end Tree

end Readability.Git
