import Readability.Proofs.Separators
import Readability.Text.Lines

/-!
# Lines of a text

Lines are what stands between line feeds (`splitFeeds_eq_splitOn`), the last one open or
closed. A text that is put together of closed lines is cut into them again, and a line that
holds line feeds itself comes out as several (`textLines_closed`). A text in which every line
is closed keeps its lines when more text follows (`textLines_append`).
-/

namespace Readability.Text

theorem splitFeeds_eq_splitOn (cs : List Char) : splitFeeds cs = cs.splitOn '\n' := by
  induction cs with
  | nil => rfl
  | cons c cs ih =>
    rw [splitFeeds, List.splitOn_cons_eq_if_modifyHead, ih]
    split
    · rfl
    · rcases hpieces : cs.splitOn '\n' with _ | ⟨piece, rest⟩
      · exact absurd hpieces (List.splitOn_ne_nil _ _)
      · rfl

/-- A line has no line feed. -/
theorem notMem_of_mem_textLines {cs line : List Char} (hline : line ∈ textLines cs) :
    '\n' ∉ line := by
  have hpiece : ∀ piece ∈ splitFeeds cs, '\n' ∉ piece := by
    intro piece hpiece
    rw [splitFeeds_eq_splitOn] at hpiece
    exact Source.Path.notMem_of_mem_splitOn hpiece
  have hclosed : ∀ line ∈ (splitFeeds cs).dropLast.map dropReturn, '\n' ∉ line := by
    intro line hline
    obtain ⟨piece, hmem, rfl⟩ := List.mem_map.mp hline
    have hno := hpiece piece ((List.dropLast_sublist _).subset hmem)
    unfold dropReturn
    split
    · rename_i rest hreverse
      intro hin
      refine hno (List.mem_reverse.mp ?_)
      rw [hreverse]
      exact List.mem_cons_of_mem _ (List.mem_reverse.mp hin)
    · exact hno
  unfold textLines at hline
  dsimp only at hline
  split at hline
  · exact hclosed line hline
  · exact hclosed line hline
  · rename_i piece hnonempty hlast
    rcases List.mem_append.mp hline with hline | hline
    · exact hclosed line hline
    · rw [List.mem_singleton.mp hline]
      exact hpiece piece (List.mem_of_getLast? hlast)

/-! ## Closed lines -/

/-- A text of lines, each closed by a line feed. -/
def closed (lines : List (List Char)) : List Char :=
  lines.flatMap (· ++ ['\n'])

/-- Closed lines are told apart again, and so are the lines in them. -/
theorem splitOn_closed (lines : List (List Char)) :
    (closed lines).splitOn '\n' = lines.flatMap (·.splitOn '\n') ++ [[]] := by
  unfold closed
  induction lines with
  | nil => rfl
  | cons line lines ih =>
    rw [List.flatMap_cons, List.append_assoc, List.singleton_append, List.flatMap_cons,
      List.splitOn_append_cons_self, ih, List.append_assoc]

theorem flatMap_splitOn_eq_self {lines : List (List Char)} (h : ∀ line ∈ lines, '\n' ∉ line) :
    lines.flatMap (·.splitOn '\n') = lines := by
  induction lines with
  | nil => rfl
  | cons line lines ih =>
    obtain ⟨hline, hlines⟩ := List.forall_mem_cons.mp h
    rw [List.flatMap_cons, List.splitOn_eq_singleton hline, ih hlines, List.singleton_append]

theorem textLines_closed (lines : List (List Char)) :
    textLines (closed lines) = (lines.flatMap (·.splitOn '\n')).map dropReturn := by
  rw [textLines, splitFeeds_eq_splitOn, splitOn_closed, List.getLast?_concat,
    List.dropLast_concat]

theorem length_splitOn_pos (line : List Char) : 0 < (line.splitOn '\n').length :=
  List.length_pos_iff.mpr (List.splitOn_ne_nil _ _)

theorem one_lt_length_splitOn {line : List Char} (h : '\n' ∈ line) :
    1 < (line.splitOn '\n').length := by
  obtain ⟨front, rest, rfl⟩ := List.append_of_mem h
  rw [List.splitOn_append_cons_self, List.length_append]
  have hfront := length_splitOn_pos front
  have hrest := length_splitOn_pos rest
  omega

theorem length_le_length_flatMap_splitOn (lines : List (List Char)) :
    lines.length ≤ (lines.flatMap (·.splitOn '\n')).length := by
  induction lines with
  | nil => exact Nat.le_refl 0
  | cons line lines ih =>
    have hline := length_splitOn_pos line
    rw [List.flatMap_cons, List.length_append, List.length_cons]
    omega

/-- As many lines come out as went in only when none of them holds a line feed. -/
theorem forall_notMem_of_length_eq {lines : List (List Char)}
    (h : (lines.flatMap (·.splitOn '\n')).length = lines.length) : ∀ line ∈ lines, '\n' ∉ line := by
  induction lines with
  | nil => exact nofun
  | cons line lines ih =>
    have hle := length_le_length_flatMap_splitOn lines
    have hpos := length_splitOn_pos line
    rw [List.flatMap_cons, List.length_append, List.length_cons] at h
    refine List.forall_mem_cons.mpr ⟨fun hmem => ?_, ih (by omega)⟩
    have hsplit := one_lt_length_splitOn hmem
    omega

theorem dropReturn_concat {c : Char} (hc : c ≠ '\r') (line : List Char) :
    dropReturn (line ++ [c]) = line ++ [c] := by
  unfold dropReturn
  rw [List.reverse_concat]
  split
  · next h => exact absurd (List.cons.inj h).1 hc
  · rfl

/-- Every line of the text is closed. -/
def AllClosed (cs : List Char) : Prop :=
  cs = [] ∨ ∃ front, cs = front ++ ['\n']

theorem textLines_append {front : List Char} (h : AllClosed front) (rest : List Char) :
    textLines (front ++ rest) = textLines front ++ textLines rest := by
  rcases h with rfl | ⟨front, rfl⟩
  · rfl
  · have hpieces : splitFeeds (front ++ ['\n'] ++ rest) = splitFeeds front ++ splitFeeds rest := by
      simp only [splitFeeds_eq_splitOn, List.append_assoc, List.singleton_append,
        List.splitOn_append_cons_self]
    have hfront : splitFeeds (front ++ ['\n']) = splitFeeds front ++ [[]] := by
      simp only [splitFeeds_eq_splitOn, List.splitOn_append_cons_self]
      rfl
    rw [textLines, textLines, textLines, hpieces, hfront, List.getLast?_concat,
      List.dropLast_concat, List.dropLast_append_of_ne_nil (splitFeeds_ne_nil rest),
      List.getLast?_append_of_ne_nil _ (splitFeeds_ne_nil rest), List.map_append]
    dsimp only
    split <;> simp only [List.append_assoc]

end Readability.Text
