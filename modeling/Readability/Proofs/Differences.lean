import Readability.Proofs.Listing

/-!
# What differs between two trees

Two lists of files are gone through side by side. As both are in the order of their
paths, every file of the new one meets the file of the same path in the old one, if
there is any (`leaves_compareFiles`). Taking deleted and added files together as
renamed ones changes what is said of a path, not which paths are there
(`detectRenames_spec`).

Main statement: `compareTrees_spec`. The paths at which a file is told are those with another file
than in the tree before.
-/

namespace Readability.Git

theorem mapM_ok {α β ε : Type} {f : α → Except ε β} {items : List α}
    (h : ∀ a ∈ items, ∃ b, f a = .ok b) : ∃ results, items.mapM f = .ok results := by
  induction items with
  | nil => exact ⟨[], rfl⟩
  | cons a items ih =>
    obtain ⟨⟨b, hb⟩, hrest⟩ := List.forall_mem_cons.mp h
    obtain ⟨results, hresults⟩ := ih hrest
    refine ⟨b :: results, ?_⟩
    rw [List.mapM_cons, hb, hresults]
    rfl

/-- There is a file on the new side, and not the one of the old side. -/
def DeltaStatus.leaves : DeltaStatus → Bool
  | added | modified | renamed | copied | typeChanged => true
  | unmodified | deleted | ignored | untracked | unreadable | conflicted => false

/-- Some deltas tell of another file at a path than before. -/
def Told (deltas : List Delta) (path : String) : Prop :=
  ∃ d ∈ deltas, d.status.leaves = true ∧ d.newPath = path

/-- Some differences say of a path that there is a new file. -/
def Leaves (all : List Difference) (path : String) : Prop :=
  ∃ d ∈ all, d.delta.status.leaves = true ∧ d.path = path

theorem told_map_delta {all : List Difference} {path : String} :
    Told (all.map Difference.delta) path ↔ Leaves all path := by
  simp only [Told, Leaves, List.mem_map, exists_exists_and_eq_and, Difference.path]

theorem leaves_cons {d : Difference} {all : List Difference} {path : String} :
    Leaves (d :: all) path ↔
      (d.delta.status.leaves = true ∧ d.path = path) ∨ Leaves all path := by
  rw [Leaves, List.exists_mem_cons_iff, Leaves]

theorem leaves_append {first second : List Difference} {path : String} :
    Leaves (first ++ second) path ↔ Leaves first path ∨ Leaves second path := by
  simp only [Leaves, List.mem_append, or_and_right, exists_or]

theorem not_leaves_nil {path : String} : ¬ Leaves [] path := by
  rintro ⟨d, hd, -⟩
  exact List.not_mem_nil hd

/-! ## Side by side -/

theorem beq_content {a b : ByteArray} : (a == b) = true ↔ a = b := by
  have hdata : (a == b) = (a.data == b.data) := rfl
  rw [hdata, beq_iff_eq, ByteArray.ext_iff]

theorem leaves_differences {old new : StoredFile} (hpath : new.path = old.path) {path : String} :
    Leaves (differences old new) path ↔ new.path = path ∧ new ≠ old := by
  rw [differences]
  split
  · rename_i hsame
    rw [Bool.and_eq_true, beq_iff_eq, beq_content] at hsame
    obtain ⟨oldPath, oldMode, oldContent⟩ := old
    obtain ⟨newPath, newMode, newContent⟩ := new
    cases hpath
    cases hsame.1
    cases hsame.2
    exact iff_of_false not_leaves_nil fun h => h.2 rfl
  · rename_i hdiffers
    have hne : new ≠ old := by
      rintro rfl
      exact hdiffers (by rw [Bool.and_eq_true, beq_iff_eq, beq_content]; exact ⟨rfl, rfl⟩)
    rw [and_iff_left hne]
    split
    · rw [leaves_cons, or_iff_left not_leaves_nil]
      exact and_iff_right rfl
    · rw [leaves_cons, leaves_cons, or_iff_left not_leaves_nil]
      constructor
      · rintro (⟨hkind, -⟩ | ⟨-, hnew⟩)
        · cases hkind
        · exact hnew
      · exact fun hnew => .inr ⟨rfl, hnew⟩

theorem not_mem_of_lt {files : List StoredFile} {file : StoredFile}
    (h : ∀ other ∈ files, file.path < other.path) : file ∉ files :=
  fun hmem => lt_irrefl _ (h file hmem)

/-- **Of two lists in order, the files of the new one that the old one does not have are told.** -/
theorem leaves_compareFiles {olds news : List StoredFile} (holds : InOrder olds)
    (hnews : InOrder news) {path : String} :
    Leaves (compareFiles olds news) path ↔ ∃ new ∈ news, new.path = path ∧ new ∉ olds := by
  fun_induction compareFiles olds news with
  | case1 news =>
    constructor
    · rintro ⟨d, hd, -, hpath⟩
      obtain ⟨new, hnew, rfl⟩ := List.mem_map.mp hd
      exact ⟨new, hnew, hpath, List.not_mem_nil⟩
    · rintro ⟨new, hnew, hpath, -⟩
      exact ⟨.added new, List.mem_map_of_mem hnew, rfl, hpath⟩
  | case2 olds =>
    constructor
    · rintro ⟨d, hd, hkind, -⟩
      obtain ⟨old, -, rfl⟩ := List.mem_map.mp hd
      cases hkind
    · rintro ⟨new, hnew, -⟩
      exact absurd hnew List.not_mem_nil
  | case3 old olds new news hlt ih =>
    -- the old file's path is left of all new ones
    obtain ⟨-, holds⟩ := List.pairwise_cons.mp holds
    have hold : ∀ other ∈ new :: news, other ≠ old := by
      intro other hother
      have hle : new.path ≤ other.path := by
        rcases List.mem_cons.mp hother with rfl | hother
        · exact le_refl _
        · exact le_of_lt ((List.pairwise_cons.mp hnews).1 other hother)
      rintro rfl
      exact absurd hlt (not_lt.mpr hle)
    rw [leaves_cons, or_iff_right fun h => Bool.false_ne_true h.1, ih holds hnews]
    refine exists_congr fun other => and_congr_right fun hother => and_congr_right fun _ => ?_
    rw [List.mem_cons, or_iff_right (hold other hother)]
  | case4 old olds new news hge hlt ih =>
    obtain ⟨hfirst, hnews⟩ := List.pairwise_cons.mp hnews
    have hnew : new ∉ old :: olds := by
      refine not_mem_of_lt (List.forall_mem_cons.mpr ⟨hlt, fun other hother => ?_⟩)
      exact lt_trans hlt ((List.pairwise_cons.mp holds).1 other hother)
    rw [leaves_cons, ih holds hnews, List.exists_mem_cons_iff]
    refine or_congr_left ?_
    rw [and_iff_left hnew]
    exact and_iff_right rfl
  | case5 old olds new news hge hle ih =>
    have hpath : new.path = old.path := le_antisymm (not_lt.mp hge) (not_lt.mp hle)
    obtain ⟨holdFirst, holds⟩ := List.pairwise_cons.mp holds
    obtain ⟨hnewFirst, hnews⟩ := List.pairwise_cons.mp hnews
    rw [leaves_append, leaves_differences hpath, ih holds hnews, List.exists_mem_cons_iff]
    have hnew : new ∉ olds := not_mem_of_lt fun other hother => by
      rw [hpath]
      exact holdFirst other hother
    refine or_congr (and_congr_right fun _ => ?_) (exists_congr fun other =>
      and_congr_right fun hother => and_congr_right fun _ => ?_)
    · rw [List.mem_cons, or_iff_left hnew]
    · have hne : other ≠ old := by
        rintro rfl
        exact absurd (hnewFirst other hother) (by rw [hpath]; exact lt_irrefl _)
      rw [List.mem_cons, or_iff_right hne]

/-! ## Renamed files -/

namespace Repository

variable {r : Repository}

theorem alike_ok (hr : r.lost = []) (old new : StoredFile) :
    ∃ score, r.alike old new = .ok score := by
  simp only [alike, open?_eq hr]
  split
  · exact ⟨_, rfl⟩
  · simp only [bind, Except.bind, pure, Except.pure]
    split
    · exact ⟨_, rfl⟩
    · exact ⟨_, rfl⟩

theorem offersFor_ok (hr : r.lost = []) (olds : List StoredFile) (new : StoredFile × Nat) :
    ∃ offers, r.offersFor olds new = .ok offers := by
  have hscores : ∀ old ∈ olds.zipIdx, ∃ offer, (do
      return (← r.alike old.1 new.1).map fun score => Pairing.mk old.2 new.2 score) =
        Except.ok (ε := GitError) offer := by
    intro old _
    obtain ⟨score, hscore⟩ := alike_ok hr old.1 new.1
    rw [hscore]
    exact ⟨_, rfl⟩
  obtain ⟨scores, hscores⟩ := mapM_ok hscores
  rw [offersFor, hscores]
  exact ⟨_, rfl⟩

/-- **Renamed files are told by their new paths, and no other path is touched.** -/
theorem detectRenames_spec (hr : r.lost = []) (all : List Difference) :
    ∃ told, r.detectRenames all = .ok told ∧ ∀ path, Leaves told path ↔ Leaves all path := by
  unfold detectRenames
  extract_lets olds news
  obtain ⟨offers, hoffers⟩ := mapM_ok fun new (_ : new ∈ news.zipIdx) => offersFor_ok hr olds new
  simp -zeta only [hoffers, bind, Except.bind, pure, Except.pure]
  extract_lets pairs good
  split
  · exact ⟨all, rfl, fun _ => Iff.rfl⟩
  · rename_i gone moved kept _
    refine ⟨_, rfl, fun path => ?_⟩
    simp only [Leaves, List.mem_mergeSort, kept, List.mem_filterMap]
    constructor
    · rintro ⟨d, ⟨e, he, hkept⟩, hkind, hpath⟩
      refine ⟨e, he, ?_⟩
      cases e with
      | deleted old =>
        dsimp only at hkept
        split at hkept
        · cases hkept
        · cases hkept
          cases hkind
      | added new =>
        dsimp only at hkept
        split at hkept
        · cases hkept
          exact ⟨rfl, hpath⟩
        · cases hkept
          exact ⟨rfl, hpath⟩
      | modified other =>
        cases hkept
        exact ⟨hkind, hpath⟩
      | renamed old other =>
        cases hkept
        exact ⟨hkind, hpath⟩
    · rintro ⟨e, he, hkind, hpath⟩
      cases e with
      | deleted old => cases hkind
      | added new =>
        rcases hmoved : moved.find? fun pair => pair.2 == new with _ | pair
        · exact ⟨.added new, ⟨_, he, by simp only [hmoved]⟩, rfl, hpath⟩
        · exact ⟨.renamed pair.1.path new.path, ⟨_, he, by simp only [hmoved]⟩, rfl, hpath⟩
      | modified other => exact ⟨_, ⟨_, he, rfl⟩, hkind, hpath⟩
      | renamed old other => exact ⟨_, ⟨_, he, rfl⟩, hkind, hpath⟩

/-- **Of two trees, the paths are told that have another file than before.** -/
theorem compareTrees_spec (hr : r.lost = []) {before tree : Tree} (hbefore : before.Sound)
    (htree : tree.Sound) : ∃ deltas, r.compareTrees before tree = .ok deltas ∧ ∀ path,
      Told deltas path ↔ ∃ file, tree.pathAt path = some file ∧ before.pathAt path ≠ some file := by
  obtain ⟨hsorted, hold⟩ := Tree.files_root hbefore
  obtain ⟨hsorted', hnew⟩ := Tree.files_root htree
  obtain ⟨told, htold, hleaves⟩ :=
    detectRenames_spec hr (compareFiles (before.files "") (tree.files ""))
  refine ⟨told.map Difference.delta, ?_, fun path => ?_⟩
  · rw [compareTrees, filesIn_eq "" before (holds_of_nil hr before),
      filesIn_eq "" tree (holds_of_nil hr tree)]
    simp only [htold, bind, Except.bind, pure, Except.pure]
  · rw [told_map_delta, hleaves, leaves_compareFiles hsorted hsorted']
    constructor
    · rintro ⟨new, hmem, rfl, hother⟩
      exact ⟨_, (hnew new).mp hmem, fun hsame => hother ((hold new).mpr hsame)⟩
    · rintro ⟨file, hfile, hother⟩
      exact ⟨⟨path, file.1, file.2⟩, (hnew _).mpr hfile, rfl, fun hmem => hother ((hold _).mp hmem)⟩

end Repository

end Readability.Git
