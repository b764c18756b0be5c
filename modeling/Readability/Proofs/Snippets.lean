import Mathlib
import Readability.Proofs.Lines
import Readability.Source.LineRange

/-!
# Snippets without their indentation

A snippet holds the lines of a range. Indentation is counted in bytes, and so many bytes
are taken off each line as every line that is not blank has. So what is taken off is white
space (`exists_blank_dedent`): a line that is not blank has no fewer bytes of it, a blank
line has nothing else, and where the cut would fall inside a character all white space
goes.

Main statement: `LineRange.cut_spec`. A snippet has the lines of its range, each without
some white space. One of them has none left, unless all are blank, and lines that are
indented with one character of a single byte keep their distances.
-/

namespace Readability.Text

/-! ## Cutting at byte offsets -/

/-- How many bytes a text has. -/
def byteCount (cs : List Char) : Nat :=
  (cs.map Char.utf8Size).sum

theorem byteCount_cons (c : Char) (cs : List Char) :
    byteCount (c :: cs) = c.utf8Size + byteCount cs := by
  rw [byteCount, List.map_cons, List.sum_cons]
  rfl

theorem byteCount_append (front rest : List Char) :
    byteCount (front ++ rest) = byteCount front + byteCount rest := by
  rw [byteCount, List.map_append, List.sum_append]
  rfl

theorem byteCount_eq_zero_iff {cs : List Char} : byteCount cs = 0 ↔ cs = [] := by
  cases cs with
  | nil => exact iff_of_true rfl rfl
  | cons c cs =>
    have hpos := c.utf8Size_pos
    rw [byteCount_cons]
    exact iff_of_false (by omega) (List.cons_ne_nil c cs)

/-- A cut takes off a text of so many bytes. -/
theorem dropBytes_eq_some_iff {count : Nat} {cs rest : List Char} :
    dropBytes count cs = some rest ↔ ∃ front, cs = front ++ rest ∧ byteCount front = count := by
  fun_induction dropBytes count cs with
  | case1 cs =>
    constructor
    · rintro ⟨⟩
      exact ⟨[], rfl, rfl⟩
    · rintro ⟨front, rfl, hcount⟩
      rw [byteCount_eq_zero_iff.mp hcount, List.nil_append]
  | case2 count =>
    refine iff_of_false nofun ?_
    rintro ⟨front, hnil, hcount⟩
    rw [(List.append_eq_nil_iff.mp hnil.symm).1] at hcount
    cases hcount
  | case3 count c cs hle ih =>
    rw [ih]
    constructor
    · rintro ⟨front, rfl, hcount⟩
      refine ⟨c :: front, rfl, ?_⟩
      rw [byteCount_cons, hcount, Nat.add_sub_cancel' hle]
    · rintro ⟨front, hcs, hcount⟩
      cases front with
      | nil => cases hcount
      | cons d front =>
        injection hcs with hc hcs
        subst hc
        rw [byteCount_cons] at hcount
        exact ⟨front, hcs, Nat.eq_sub_of_add_eq' hcount⟩
  | case4 count c cs hle =>
    refine iff_of_false nofun ?_
    rintro ⟨front, hcs, hcount⟩
    cases front with
    | nil => cases hcount
    | cons d front =>
      injection hcs with hc hcs
      subst hc
      rw [byteCount_cons] at hcount
      omega

/-- Of two ways to cut a text the one with fewer bytes comes first. -/
theorem exists_append_of_byteCount_le {front rest other behind : List Char}
    (hsame : front ++ rest = other ++ behind) (hle : byteCount front ≤ byteCount other) :
    ∃ between, other = front ++ between ∧ rest = between ++ behind := by
  rcases List.append_eq_append_iff.mp hsame with ⟨between, hother, hrest⟩ | ⟨beyond, hfront, hbehind⟩
  · exact ⟨between, hother, hrest⟩
  · rw [hfront, byteCount_append] at hle
    have hnil := byteCount_eq_zero_iff.mp (show byteCount beyond = 0 by omega)
    subst hnil
    rw [List.append_nil] at hfront
    exact ⟨[], by rw [hfront, List.append_nil], hbehind.symm⟩

end Readability.Text

namespace Readability.Source

open Text (allBlank byteCount dropBytes isBlank trimStart)

/-! ## Indentation -/

theorem indentation_eq (line : List Char) :
    indentation line = byteCount (line.takeWhile isBlank) :=
  List.sum_eq_foldl_nat.symm

theorem allBlank_takeWhile (line : List Char) : allBlank (line.takeWhile isBlank) = true :=
  List.all_eq_true.mpr fun _ hc => List.mem_takeWhile_imp hc

/-- A line that is not blank shows a visible character when its white space is gone. -/
theorem exists_trimStart_eq_cons {line : List Char} (hline : allBlank line = false) :
    ∃ c rest, trimStart line = c :: rest ∧ isBlank c = false := by
  rcases hrest : trimStart line with _ | ⟨c, rest⟩
  · rw [Text.trimStart_eq_nil_iff.mp hrest] at hline
    cases hline
  · have hfirst := List.head?_dropWhile_not isBlank line
    rw [show line.dropWhile isBlank = c :: rest from hrest] at hfirst
    exact ⟨c, rest, rfl, hfirst⟩

/-- What is left of a line is the end of it. -/
theorem dedent_suffix (count : Nat) (line : List Char) : dedent count line <:+ line := by
  rcases hdrop : dropBytes count line with _ | rest
  · rw [dedent, hdrop]
    exact List.dropWhile_suffix isBlank
  · obtain ⟨front, hline, -⟩ := Text.dropBytes_eq_some_iff.mp hdrop
    rw [dedent, hdrop]
    exact ⟨front, hline.symm⟩

/-- **Only white space is taken off a line**, unless it is asked for more than there is. -/
theorem exists_blank_dedent {count : Nat} {line : List Char}
    (hcount : allBlank line = true ∨ count ≤ indentation line) :
    ∃ blank, allBlank blank = true ∧ line = blank ++ dedent count line := by
  rcases hdrop : dropBytes count line with _ | rest
  · rw [dedent, hdrop]
    exact ⟨line.takeWhile isBlank, allBlank_takeWhile line,
      List.takeWhile_append_dropWhile.symm⟩
  · rw [dedent, hdrop]
    obtain ⟨front, hline, hbytes⟩ := Text.dropBytes_eq_some_iff.mp hdrop
    refine ⟨front, ?_, hline⟩
    rcases hcount with hblank | hle
    · rw [hline, allBlank, List.all_append, Bool.and_eq_true] at hblank
      exact hblank.1
    · -- the cut does not lie behind the white space, so what it takes off is part of that
      rw [← hbytes, indentation_eq] at hle
      have hsame : front ++ rest = line.takeWhile isBlank ++ line.dropWhile isBlank := by
        rw [← hline, List.takeWhile_append_dropWhile]
      obtain ⟨between, hwhole, -⟩ := Text.exists_append_of_byteCount_le hsame hle
      have hblank := allBlank_takeWhile line
      rw [hwhole, allBlank, List.all_append, Bool.and_eq_true] at hblank
      exact hblank.1

/-- The first byte alone cannot be taken off a blank of two bytes. -/
example : dedent 1 "\u00a0 x".toList = "x".toList := by decide

/-- A line loses its own indentation as a whole. -/
theorem dedent_indentation (line : List Char) :
    dedent (indentation line) line = trimStart line := by
  have hdrop : dropBytes (indentation line) line = some (trimStart line) :=
    Text.dropBytes_eq_some_iff.mpr ⟨line.takeWhile isBlank,
      List.takeWhile_append_dropWhile.symm, (indentation_eq line).symm⟩
  rw [dedent, hdrop, Option.getD_some]

/-- Where one character of a single byte is all the indentation, so many of it are lost. -/
theorem eq_replicate_append_dedent {count : Nat} {c : Char} {line : List Char}
    (hc : c.utf8Size = 1) (halike : ∀ x ∈ line.takeWhile isBlank, x = c)
    (hcount : count ≤ indentation line) :
    line = List.replicate count c ++ dedent count line := by
  have hbytes : ∀ n, byteCount (List.replicate n c) = n := by
    intro n
    rw [byteCount, List.map_replicate, List.sum_replicate_nat, hc, Nat.mul_one]
  have hblank := List.eq_replicate_of_mem halike
  have hlength : indentation line = (line.takeWhile isBlank).length := by
    rw [indentation_eq, hblank, hbytes, List.length_replicate]
  rw [hlength] at hcount
  have hline : line = List.replicate count c ++
      (List.replicate ((line.takeWhile isBlank).length - count) c ++ line.dropWhile isBlank) := by
    rw [← List.append_assoc, ← List.replicate_add, Nat.add_sub_cancel' hcount, ← hblank,
      List.takeWhile_append_dropWhile]
  have hdrop := Text.dropBytes_eq_some_iff.mpr ⟨_, hline, hbytes count⟩
  rw [dedent, hdrop, Option.getD_some]
  exact hline

/-! ## Shared indentation -/

/-- No line that is not blank has less than the shared indentation, and if there are such
lines one of them has no more. -/
theorem sharedIndentation_spec (lines : List (List Char)) :
    (∀ line ∈ lines, allBlank line = false → sharedIndentation lines ≤ indentation line) ∧
      ((∃ line ∈ lines, allBlank line = false) →
        ∃ line ∈ lines, allBlank line = false ∧ indentation line = sharedIndentation lines) := by
  have hmem : ∀ {n}, n ∈ (lines.filter fun line => !allBlank line).map indentation ↔
      ∃ line ∈ lines, allBlank line = false ∧ indentation line = n := by
    intro n
    simp only [List.mem_map, List.mem_filter, Bool.not_eq_true', and_assoc]
  rw [sharedIndentation]
  rcases hmin : ((lines.filter fun line => !allBlank line).map indentation).min? with _ | least
  · have hnone := List.min?_eq_none_iff.mp hmin
    rw [hnone] at hmem
    refine ⟨fun line hline hvisible => ?_, ?_⟩
    · exact absurd (hmem.mpr ⟨line, hline, hvisible, rfl⟩) List.not_mem_nil
    · rintro ⟨line, hline, hvisible⟩
      exact absurd (hmem.mpr ⟨line, hline, hvisible, rfl⟩) List.not_mem_nil
  · obtain ⟨hleast, hle⟩ := List.min?_eq_some_iff.mp hmin
    exact ⟨fun line hline hvisible => hle _ (hmem.mpr ⟨line, hline, hvisible, rfl⟩),
      fun _ => hmem.mp hleast⟩

/-- What lines without their shared indentation are. -/
structure Dedents (lines kept : List (List Char)) : Prop where
  /-- Each line is without some white space at its start, and else as it was. -/
  loses : List.Forall₂ (fun line rest => ∃ blank, allBlank blank = true ∧ line = blank ++ rest)
    lines kept
  /-- A line starts with a visible character, unless all are blank. -/
  visible : (∃ line ∈ lines, allBlank line = false) →
    ∃ line ∈ kept, ∃ c rest, line = c :: rest ∧ isBlank c = false
  /-- Where all indentation is made of one ASCII character, the lines that are not blank lose
  equally many of it. -/
  distances : ∀ c : Char, c.toNat < 128 →
    (∀ line ∈ lines, allBlank line = false → ∀ x ∈ line.takeWhile isBlank, x = c) →
    ∃ count, List.Forall₂
      (fun line rest => allBlank line = false → line = List.replicate count c ++ rest) lines kept

/-- **Lines keep their shape without their shared indentation.** -/
theorem dedents_map (lines : List (List Char)) :
    Dedents lines (lines.map (dedent (sharedIndentation lines))) := by
  obtain ⟨hle, hleast⟩ := sharedIndentation_spec lines
  refine ⟨?_, ?_, ?_⟩
  · rw [List.forall₂_map_right_iff, List.forall₂_same]
    intro line hline
    rcases hblank : allBlank line with _ | _
    · exact exists_blank_dedent (.inr (hle line hline hblank))
    · exact exists_blank_dedent (.inl hblank)
  · intro hsome
    obtain ⟨line, hline, hvisible, hindentation⟩ := hleast hsome
    refine ⟨_, List.mem_map_of_mem hline, ?_⟩
    rw [← hindentation, dedent_indentation]
    exact exists_trimStart_eq_cons hvisible
  · intro c hascii halike
    have hsize : c.utf8Size = 1 := by
      rw [Char.utf8Size_eq_one_iff, UInt32.le_iff_toNat_le]
      exact Nat.le_of_lt_succ hascii
    refine ⟨sharedIndentation lines, ?_⟩
    rw [List.forall₂_map_right_iff, List.forall₂_same]
    intro line hline hvisible
    exact eq_replicate_append_dedent hsize (halike line hline hvisible) (hle line hline hvisible)

namespace LineRange

/-- The lines that a range marks. -/
def marked (range : LineRange) (lines : List (List Char)) : List (List Char) :=
  (lines.take range.last).drop (range.first - 1)

theorem snippet_eq (range : LineRange) (lines : List (List Char)) :
    range.snippet lines =
      (range.marked lines).map (dedent (sharedIndentation (range.marked lines))) :=
  rfl

/-- No line of a snippet has a line feed when none of the text has. -/
theorem notMem_of_mem_snippet {range : LineRange} {lines : List (List Char)}
    (hlines : ∀ line ∈ lines, '\n' ∉ line) {kept : List Char} (hkept : kept ∈ range.snippet lines) :
    '\n' ∉ kept := by
  rw [snippet_eq] at hkept
  obtain ⟨line, hline, rfl⟩ := List.mem_map.mp hkept
  have hmem : line ∈ lines := List.mem_of_mem_take (List.mem_of_mem_drop hline)
  exact fun hfeed => hlines line hmem ((dedent_suffix _ _).subset hfeed)

/-- A range that does not go past the end marks all of its lines. -/
theorem length_marked {range : LineRange} {lines : List (List Char)}
    (hlast : range.last ≤ lines.length) :
    (range.marked lines).length = range.last - range.first + 1 := by
  have hfirst := range.first_pos
  have hle := range.first_le_last
  rw [marked, List.length_drop, List.length_take, Nat.min_eq_left hlast]
  omega

/-- **A snippet is what its range marks, without the indentation.** A range past the end of
the text has none. Any other gives text with as many lines as it has, each closed by a line
feed. -/
theorem cut_spec (range : LineRange) (text : String) :
    let lines := Text.textLines text.toList
    (lines.length < range.last ∧ range.cut text = .error ⟨range.last, lines.length⟩) ∨
      (range.last ≤ lines.length ∧ ∃ snippet kept, range.cut text = .ok snippet ∧
        snippet.toList.splitOn '\n' = kept ++ [[]] ∧
        kept.length = range.last - range.first + 1 ∧ Dedents (range.marked lines) kept) := by
  intro lines
  rcases Nat.lt_or_ge lines.length range.last with hpast | hlast
  · exact .inl ⟨hpast, by rw [cut, if_pos hpast]⟩
  · refine .inr ⟨hlast, _, range.snippet lines, by rw [cut, if_neg (Nat.not_lt.mpr hlast)], ?_, ?_,
      dedents_map (range.marked lines)⟩
    · have hkept : ∀ kept ∈ range.snippet lines, '\n' ∉ kept := fun kept =>
        notMem_of_mem_snippet fun line => Text.notMem_of_mem_textLines
      rw [String.toList_ofList, ← Text.closed, Text.splitOn_closed,
        Text.flatMap_splitOn_eq_self hkept]
    · rw [snippet_eq, List.length_map, length_marked hlast]

end LineRange

end Readability.Source
