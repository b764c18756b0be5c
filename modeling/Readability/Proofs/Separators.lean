import Mathlib.Data.String.Basic
import Readability.Source.Path

/-!
# Texts cut at a character

Some readers cut texts with the library's search for a separating text, others cut
the list of characters. Where the separator is one character the two agree, and
facts about lists of characters hold of both.

Main statement: `splitOn_singleton`. No piece holds the separator (`notMem_of_mem_splitOn`),
and a text is known by the parts before and behind its first separator (`cut_inj`).
-/

namespace Readability.Source.Path

open String

/-- The search, from a place where `done` is cut off and `part` is being read. -/
theorem splitOnAux_eq (separator : Char) (acc : List String) :
    ∀ (done part rest : List Char),
      splitOnAux (ofList (done ++ part ++ rest)) (ofList [separator]) ⟨utf8Len done⟩
          ⟨utf8Len done + utf8Len part⟩ 0 acc =
        acc.reverse ++
          (List.splitOnPPrepend (· == separator) rest part.reverse).map ofList := by
  intro done part rest
  induction rest generalizing done part acc with
  | nil =>
    have hend : Pos.Raw.atEnd (ofList (done ++ part ++ []))
        ⟨utf8Len done + utf8Len part⟩ = true := by
      simpa using (atEnd_of_valid (done ++ part) []).mpr rfl
    have hlast := extract_of_valid done part []
    rw [splitOnAux, if_pos hend, hlast]
    simp
  | cons c rest ih =>
    have hlen : utf8Len done + utf8Len part = utf8Len (done ++ part) := (utf8Len_append ..).symm
    have hend : ¬ Pos.Raw.atEnd (ofList (done ++ part ++ c :: rest)) ⟨utf8Len (done ++ part)⟩ :=
      fun h => List.cons_ne_nil c rest ((atEnd_of_valid (done ++ part) (c :: rest)).mp h)
    have hget : Pos.Raw.get (ofList (done ++ part ++ c :: rest)) ⟨utf8Len (done ++ part)⟩ = c :=
      get_of_valid (done ++ part) (c :: rest)
    have hnext : Pos.Raw.next (ofList (done ++ part ++ c :: rest)) ⟨utf8Len (done ++ part)⟩ =
        ⟨utf8Len (done ++ part) + c.utf8Size⟩ := next_of_valid (done ++ part) c rest
    have hfirst : Pos.Raw.get (ofList [separator]) 0 = separator :=
      get_of_valid [] [separator]
    have hsecond : Pos.Raw.next (ofList [separator]) 0 = ⟨separator.utf8Size⟩ := by
      simpa using next_of_valid [] separator []
    have hwhole : Pos.Raw.atEnd (ofList [separator]) ⟨separator.utf8Size⟩ = true := by
      simpa using (atEnd_of_valid [separator] []).mpr rfl
    have hpart : Pos.Raw.extract (ofList (done ++ part ++ c :: rest)) ⟨utf8Len done⟩
        ⟨utf8Len (done ++ part)⟩ = ofList part := by
      rw [← hlen]
      exact extract_of_valid done part (c :: rest)
    rw [splitOnAux, hlen, if_neg hend, hget, hfirst, hnext, hsecond]
    dsimp only
    rw [if_pos hwhole]
    by_cases hc : c = separator
    · subst hc
      have hcut : Pos.Raw.unoffsetBy ⟨utf8Len (done ++ part) + c.utf8Size⟩ ⟨c.utf8Size⟩ =
          ⟨utf8Len (done ++ part)⟩ := by
        simp [Pos.Raw.unoffsetBy]
      have hih := ih (ofList part :: acc) (done ++ part ++ [c]) []
      rw [if_pos (beq_self_eq_true c), hcut, hpart]
      simpa [List.splitOnPPrepend_cons_eq_if, Nat.add_assoc] using hih
    · have hkeep : Pos.Raw.unoffsetBy ⟨utf8Len (done ++ part)⟩ 0 = ⟨utf8Len (done ++ part)⟩ := rfl
      have hih := ih acc done (part ++ [c])
      rw [if_neg (by simpa using hc), hkeep, hnext]
      simpa [List.splitOnPPrepend_cons_eq_if, Nat.add_assoc, hc] using hih

/-- **A search for one character cuts where the character stands.** -/
theorem splitOn_singleton (separator : Char) (text : String) :
    text.splitOn (ofList [separator]) = pieces separator text := by
  have h := splitOnAux_eq separator [] [] [] text.toList
  simp only [List.nil_append, List.append_nil, ofList_toList, utf8Len_nil, List.reverse_nil] at h
  rw [splitOn, if_neg (by simp), pieces, List.splitOn_eq_splitOnP, List.splitOnP_eq_splitOnPPrepend]
  exact h

/-- No separator is left in a piece. -/
theorem notMem_of_mem_splitOn {separator : Char} {cs part : List Char}
    (h : part ∈ cs.splitOn separator) : separator ∉ part := by
  induction cs generalizing part with
  | nil =>
    rw [List.splitOn_nil, List.mem_singleton] at h
    rw [h]
    exact List.not_mem_nil
  | cons c cs ih =>
    rw [List.splitOn_cons_eq_if_modifyHead] at h
    split at h
    · rcases List.mem_cons.mp h with rfl | h
      · exact List.not_mem_nil
      · exact ih h
    · rename_i hc
      rw [beq_iff_eq] at hc
      rcases hparts : cs.splitOn separator with _ | ⟨first, rest⟩
      · exact absurd hparts (List.splitOn_ne_nil _ _)
      · rw [hparts, List.modifyHead_cons] at h
        rw [hparts] at ih
        rcases List.mem_cons.mp h with rfl | h
        · intro hmem
          rcases List.mem_cons.mp hmem with hsame | hmem
          · exact hc hsame.symm
          · exact ih List.mem_cons_self hmem
        · exact ih (List.mem_cons_of_mem _ h)

/-- What comes before the first separator is known, and what comes behind it. -/
theorem cut_inj {separator : Char} {m n x y : List Char} (hm : separator ∉ m)
    (hn : separator ∉ n) (h : m ++ separator :: x = n ++ separator :: y) : m = n ∧ x = y := by
  have hcut : ∀ {s t : List Char}, separator ∉ s →
      (s ++ separator :: t).takeWhile (· != separator) = s := by
    intro s t hs
    rw [List.takeWhile_append_of_pos]
    · simp
    · intro c hc
      rw [bne_iff_ne]
      rintro rfl
      exact hs hc
  have hfirst : m = n := by rw [← hcut hm, h, hcut hn]
  rw [hfirst] at h
  exact ⟨hfirst, List.tail_eq_of_cons_eq (List.append_cancel_left h)⟩

end Readability.Source.Path
