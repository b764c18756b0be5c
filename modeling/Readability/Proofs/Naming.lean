import Mathlib
import Readability.Git.History

/-!
# Full ids and the head

A full id has forty digits and letters from `a` to `f`. It is read as it is written (`readId_eq`),
it is no other kind of name, and it names its commit if that is there (`revision_id`). The head
names the commit that its reference points to (`revision_head`), and nothing in a repository that
has no reference (`revision_unborn`).
-/

namespace Readability.Git

/-- Whether a character is one of those that ids are written with. -/
def isIdDigit (c : Char) : Bool :=
  c.isDigit || ('a' ≤ c && c ≤ 'f')

/-- An id in full. -/
structure IsId (id : String) : Prop where
  length : id.length = 40
  digits : id.toList.all isIdDigit = true

instance (id : String) : Decidable (IsId id) :=
  decidable_of_iff (id.length = 40 ∧ id.toList.all isIdDigit = true)
    ⟨fun h => ⟨h.1, h.2⟩, fun h => ⟨h.length, h.digits⟩⟩

theorem toNat_of_isIdDigit {c : Char} (h : isIdDigit c = true) :
    48 ≤ c.toNat ∧ c.toNat ≤ 57 ∨ 97 ≤ c.toNat ∧ c.toNat ≤ 102 := by
  rw [isIdDigit, Bool.or_eq_true, Char.isDigit, Bool.and_eq_true, Bool.and_eq_true] at h
  simp only [decide_eq_true_eq, ge_iff_le, Char.le_def, UInt32.le_iff_toNat_le] at h
  exact h

theorem toLower_of_isIdDigit {c : Char} (h : isIdDigit c = true) : c.toLower = c := by
  have hvalue := toNat_of_isIdDigit h
  have hlower : ¬ (c.val ≥ 'A'.val ∧ c.val ≤ 'Z'.val) := by
    rw [ge_iff_le, UInt32.le_iff_toNat_le, UInt32.le_iff_toNat_le]
    intro hupper
    have hlow : 65 ≤ c.toNat := hupper.1
    have hhigh : c.toNat ≤ 90 := hupper.2
    omega
  exact dif_neg hlower

theorem utf8Size_of_isIdDigit {c : Char} (h : isIdDigit c = true) : c.utf8Size = 1 := by
  have hvalue := toNat_of_isIdDigit h
  rw [Char.utf8Size_eq_one_iff, UInt32.le_iff_toNat_le]
  show c.toNat ≤ 127
  omega

namespace IsId

variable {id : String} (h : IsId id)
include h

theorem isIdDigit_of_mem {c : Char} (hc : c ∈ id.toList) : isIdDigit c = true :=
  List.all_eq_true.mp h.digits c hc

theorem map_toLower : id.toList.map Char.toLower = id.toList := by
  rw [List.map_congr_left fun c hc => toLower_of_isIdDigit (h.isIdDigit_of_mem hc), List.map_id']

theorem utf8ByteSize_eq : id.utf8ByteSize = 40 := by
  have hlen : ∀ cs : List Char, (∀ c ∈ cs, isIdDigit c = true) → String.utf8Len cs = cs.length := by
    intro cs
    induction cs with
    | nil => exact fun _ => rfl
    | cons c cs ih =>
      intro hcs
      obtain ⟨hc, hrest⟩ := List.forall_mem_cons.mp hcs
      rw [String.utf8Len_cons, ih hrest, utf8Size_of_isIdDigit hc]
      rfl
  rw [← String.utf8Len_toList, hlen _ fun _ => h.isIdDigit_of_mem, String.length_toList, h.length]

/-- A full id is read as it is written. -/
theorem readId_eq : readId id = .ok id := by
  have hblank : ¬ (id == "") = true := by
    rw [beq_iff_eq]
    rintro rfl
    exact absurd h.length (by decide)
  have hlong : ¬ id.utf8ByteSize > 40 := by
    rw [h.utf8ByteSize_eq]
    exact Nat.lt_irrefl 40
  have hfill : 40 - id.toList.length = 0 := by
    rw [String.length_toList, h.length]
  rw [readId, if_neg hblank, if_neg hlong, h.map_toLower]
  show (if id.toList.all isIdDigit = true then _ else _) = _
  rw [if_pos h.digits, hfill, List.replicate_zero, List.append_nil, String.ofList_toList]

theorem isFullId_eq : isFullId id = true := by
  rw [isFullId, h.length, String.all_bool_eq, Bool.and_eq_true]
  refine ⟨rfl, List.all_eq_true.mpr fun c hc => ?_⟩
  have hdigit := h.isIdDigit_of_mem hc
  rw [toLower_of_isIdDigit hdigit]
  exact hdigit

theorem string_map_toLower : id.map Char.toLower = id := by
  rw [← String.toList_inj, String.toList_map, h.map_toLower]

end IsId

namespace Repository

variable {r : Repository}

/-- An id that is not lost leads to its commit. -/
theorem object?_of_there {id : String} (hid : r.isLost id = false) {c : Commit}
    (hc : r.commit? id = some c) : r.object? id = some (.commit c) := by
  rw [object?, hid, hc]
  rfl

/-- A name without steps. -/
structure IsPlainName (spec : String) : Prop where
  filled : spec ≠ ""
  named : spec ≠ "@"
  plain : ∀ c ∈ spec.toList, c ≠ '\x00' ∧ c ≠ '^' ∧ c ≠ '~'

/-- A name without steps is looked up as it is. -/
theorem revision_eq {spec : String} (h : IsPlainName spec) :
    r.revision spec = r.lookUp spec spec := by
  have hnull : spec.contains '\x00' = false := by
    rw [String.contains_char_eq]
    exact decide_eq_false fun hmem => (h.plain _ hmem).1 rfl
  have hat : ¬ (spec == "@") = true := by
    rw [beq_iff_eq]
    exact h.named
  have hblank : ¬ (spec == "") = true := by
    rw [beq_iff_eq]
    exact h.filled
  have hname : ∀ c ∈ spec.toList, (c != '^' && c != '~') = true := by
    intro c hc
    rw [Bool.and_eq_true, bne_iff_ne, bne_iff_ne]
    exact (h.plain c hc).2
  simp only [revision, hnull, if_neg hat, List.takeWhile_eq_self_iff.mpr hname,
    List.dropWhile_eq_nil_iff.mpr hname, String.ofList_toList, if_neg hblank, Bool.false_eq_true,
    if_false]
  rcases r.lookUp spec spec with e | object
  · rfl
  · cases object with
    | commit c => rfl
    | node n => rfl

theorem isPlainName_of_isId {id : String} (h : IsId id) : IsPlainName id := by
  refine ⟨?_, ?_, ?_⟩
  · rintro rfl
    exact absurd h.length (by decide)
  · rintro rfl
    exact absurd h.length (by decide)
  · intro c hc
    have hdigit := h.isIdDigit_of_mem hc
    refine ⟨?_, ?_, ?_⟩ <;>
    · rintro rfl
      exact absurd hdigit (by decide)

theorem isPlainName_head : IsPlainName "HEAD" := by
  refine ⟨by decide, by decide, ?_⟩
  have hletters : "HEAD".toList = ['H', 'E', 'A', 'D'] := rfl
  simp [hletters]

/-- **A full id names its commit.** -/
theorem revision_id {id : String} (hid : IsId id) (hthere : r.isLost id = false) {c : Commit}
    (hc : r.commit? id = some c) : r.revision id = .ok (.commit c) := by
  rw [revision_eq (isPlainName_of_isId hid), lookUp, if_pos hid.isFullId_eq,
    hid.string_map_toLower, object?_of_there hthere hc]

theorem isFullId_head : isFullId "HEAD" = false := by
  rw [isFullId, Bool.and_eq_false_iff]
  exact .inl (by decide)

theorem isValid_head : Reference.isValid "HEAD" = true := by cbv

/-- The head names the commit that its reference points to. -/
theorem revision_head {id : String} (hhead : r.target? "HEAD" = some id)
    (hthere : r.isLost id = false) {c : Commit} (hc : r.commit? id = some c) :
    r.revision "HEAD" = .ok (.commit c) := by
  have hfound : ((Reference.candidates "HEAD").filter Reference.isValid).findSome? r.target? =
      some id := by
    rw [Reference.candidates, List.filter_cons_of_pos isValid_head, List.findSome?_cons, hhead]
  rw [revision_eq isPlainName_head, lookUp]
  simp only [isFullId_head, Bool.false_eq_true, if_false, hfound, object?_of_there hthere hc]

/-- Without references the head names nothing. -/
theorem revision_unborn (hr : r.references = []) : ∃ e, r.revision "HEAD" = .error e := by
  have hnone : ((Reference.candidates "HEAD").filter Reference.isValid).findSome? r.target? =
      none := by
    rw [List.findSome?_eq_none_iff]
    intro name _
    rw [target?, hr]
    rfl
  rw [revision_eq isPlainName_head, lookUp]
  simp only [isFullId_head, Bool.false_eq_true, if_false, hnone]
  split
  · exact ⟨_, rfl⟩
  · exact ⟨_, rfl⟩

theorem commitOf_of_there {id : String} (hid : IsId id) (hthere : r.isLost id = false) {c : Commit}
    (hc : r.commit? id = some c) : r.commitOf id = .ok c := by
  rw [commitOf, hid.readId_eq]
  show r.findCommit id = _
  rw [findCommit, object?_of_there hthere hc]

end Repository

end Readability.Git
