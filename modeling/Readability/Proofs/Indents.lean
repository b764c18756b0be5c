import Mathlib
import Readability.Proofs.ParsedUnits

/-!
# Lines that are indented alike

A stop of white space, four blanks or a tab, leads from one tab stop to the next, whatever
stands behind it (`indentation_append`). So all lines of a region that show something can
be moved to the right by as many stops: the smallest indentation moves along
(`baseIndentation_indent`), and what a line has beyond it stays.

Main statement: `compute?_indented`. The layout of a region has the features that it had
before its lines were indented.
-/

namespace Readability.Text

/-- White space in front of a text is trimmed. -/
theorem trimStart_append {white : List Char} (hwhite : allBlank white = true) (cs : List Char) :
    trimStart (white ++ cs) = trimStart cs :=
  List.dropWhile_append_of_pos (List.all_eq_true.mp hwhite)

/-- What stands in front of a visible text is not trimmed at its end. -/
theorem trimEnd_append {cs : List Char} (hcs : allBlank cs = false) (front : List Char) :
    trimEnd (front ++ cs) = front ++ trimEnd cs := by
  have hvisible : (cs.reverse.dropWhile isBlank).isEmpty = false := by
    rw [← Bool.not_eq_true, List.isEmpty_iff]
    intro hnil
    have hall := trimStart_eq_nil_iff.mp hnil
    rw [allBlank, List.all_reverse] at hall
    exact absurd (hcs.symm.trans hall) Bool.false_ne_true
  rw [trimEnd, trimEnd, List.reverse_append, List.dropWhile_append, hvisible]
  simp only [Bool.false_eq_true, if_false, List.reverse_append, List.reverse_reverse]

end Readability.Text

namespace Readability.Feature

open Readability.Source

/-! ## Stops of white space -/

/-- White space over `m` tab stops, of blanks or of tabs. -/
def Stops (m : Nat) (white : List Char) : Prop :=
  white = List.replicate (4 * m) ' ' ∨ white = List.replicate m '\t'

/-- The line with white space in front, if it shows something. -/
def indent (white line : List Char) : List Char :=
  if isCode line then white ++ line else line

/-- From one tab stop on, the next ones are as far as from another. -/
theorem indentationFrom_add (m width : Nat) (line : List Char) :
    indentationFrom (4 * m + width) line = 4 * m + indentationFrom width line := by
  fun_induction indentationFrom width line with
  | case1 width rest ih =>
    rw [indentationFrom, ← ih, Nat.add_assoc]
  | case2 width rest ih =>
    have hstop : 4 * m + width + (tabWidth - (4 * m + width) % tabWidth) =
        4 * m + (width + (tabWidth - width % tabWidth)) := by
      unfold tabWidth
      omega
    rw [indentationFrom, ← ih, hstop]
  | case3 width line hblank htab =>
    rw [indentationFrom]
    · exact hblank
    · exact htab

theorem indentationFrom_blanks (count width : Nat) (line : List Char) :
    indentationFrom width (List.replicate count ' ' ++ line) =
      indentationFrom (width + count) line := by
  induction count generalizing width with
  | zero => rfl
  | succ count ih =>
    rw [List.replicate_succ, List.cons_append, indentationFrom, ih, Nat.add_assoc,
      Nat.add_comm 1 count]

theorem indentationFrom_tabs (stops count : Nat) (line : List Char) :
    indentationFrom (4 * stops) (List.replicate count '\t' ++ line) =
      indentationFrom (4 * (stops + count)) line := by
  induction count generalizing stops with
  | zero => rfl
  | succ count ih =>
    have hstop : 4 * stops + (tabWidth - 4 * stops % tabWidth) = 4 * (stops + 1) := by
      unfold tabWidth
      omega
    rw [List.replicate_succ, List.cons_append, indentationFrom, hstop, ih, Nat.add_assoc,
      Nat.add_comm 1 count]

namespace Stops

variable {m : Nat} {white : List Char} (h : Stops m white)

include h

theorem allBlank : Text.allBlank white = true := by
  rcases h with rfl | rfl <;>
    exact List.all_eq_true.mpr fun c hc => by rw [List.eq_of_mem_replicate hc]; decide

/-- **A line behind so many stops** is indented by so much more. -/
theorem indentation_append (line : List Char) :
    indentation (white ++ line) = 4 * m + indentation line := by
  have hline : indentation (white ++ line) = indentationFrom (4 * m) line := by
    rcases h with rfl | rfl
    · rw [indentation, indentationFrom_blanks, Nat.zero_add]
    · rw [indentation, ← Nat.mul_zero 4, indentationFrom_tabs, Nat.zero_add]
  rw [hline, ← Nat.add_zero (4 * m), indentationFrom_add, Nat.add_zero]
  rfl

theorem isCode_append (line : List Char) : isCode (white ++ line) = isCode line := by
  rw [isCode, isCode, Text.allBlank, List.all_append]
  exact congrArg (!·) (by rw [← Text.allBlank, h.allBlank, Bool.true_and]; rfl)

theorem innerSpaces_append (line : List Char) :
    innerSpaces (white ++ line) = innerSpaces line := by
  rw [innerSpaces, innerSpaces, Text.trim, Text.trim, Text.trimStart_append h.allBlank]

theorem indentBeyond_append (base : Nat) (line : List Char) :
    indentBeyond (4 * m + base) (white ++ line) = indentBeyond base line := by
  rw [indentBeyond, indentBeyond, h.indentation_append, Nat.add_sub_add_left]

/-- A line that shows something is as long as before, its indentation being counted beyond one that
has moved along. -/
theorem lineLength_append (base : Nat) {line : List Char} (hline : isCode line = true) :
    lineLength (4 * m + base) (white ++ line) = lineLength base line := by
  have hvisible : Text.allBlank line = false := by
    rw [← Bool.not_eq_true']
    exact hline
  rw [lineLength, lineLength, Text.trimEnd_append hvisible, h.indentBeyond_append,
    Text.trimStart_append h.allBlank]

/-! ## Regions that are indented -/

theorem filter_isCode_indent (lines : List (List Char)) :
    (lines.map (indent white)).filter isCode = (lines.filter isCode).map (white ++ ·) := by
  induction lines with
  | nil => rfl
  | cons line lines ih =>
    rw [List.map_cons, List.filter_cons, List.filter_cons, ih, indent]
    by_cases hline : isCode line = true
    · rw [if_pos hline, if_pos (h.isCode_append line ▸ hline), if_pos hline, List.map_cons]
    · rw [if_neg hline, if_neg hline, if_neg hline]

/-- **The smallest indentation moves along.** -/
theorem baseIndentation_indent {lines : List (List Char)}
    (hcode : ∃ line ∈ lines, isCode line = true) :
    baseIndentation (lines.map (indent white)) = 4 * m + baseIndentation lines := by
  have hmap : ((lines.filter isCode).map (white ++ ·)).map indentation =
      ((lines.filter isCode).map indentation).map (4 * m + ·) := by
    rw [List.map_map, List.map_map]
    exact List.map_congr_left fun line _ => h.indentation_append line
  rw [baseIndentation, baseIndentation, h.filter_isCode_indent, hmap]
  rcases hleast : ((lines.filter isCode).map indentation).min? with _ | least
  · obtain ⟨line, hline, hshows⟩ := hcode
    have hmem := List.mem_map_of_mem (f := indentation) (List.mem_filter.mpr ⟨hline, hshows⟩)
    rw [List.min?_eq_none_iff.mp hleast] at hmem
    cases hmem
  · obtain ⟨hmem, hle⟩ := List.min?_eq_some_iff.mp hleast
    have hmoved : (((lines.filter isCode).map indentation).map (4 * m + ·)).min? =
        some (4 * m + least) := by
      refine List.min?_eq_some_iff.mpr ⟨List.mem_map_of_mem hmem, fun width hwidth => ?_⟩
      obtain ⟨own, hown, rfl⟩ := List.mem_map.mp hwidth
      exact Nat.add_le_add_left (hle own hown) _
    rw [hmoved, Option.getD_some, Option.getD_some]

/-- Where every line that shows something keeps a measure, the region does. -/
theorem map_filter_isCode_indent (lines : List (List Char)) {measure measure' : List Char → Nat}
    (hmeasure : ∀ line, isCode line = true → measure' (white ++ line) = measure line) :
    ((lines.map (indent white)).filter isCode).map measure' =
      (lines.filter isCode).map measure := by
  rw [h.filter_isCode_indent, List.map_map]
  exact List.map_congr_left fun line hline => hmeasure line (List.mem_filter.mp hline).2

end Stops

/-- Measures that agree on the layout. -/
structure Measures.SameLayout (m m' : Measures) : Prop where
  lineLength : m'.lineLength = m.lineLength
  indentation : m'.indentation = m.indentation
  spaces : m'.spaces = m.spaces
  codeLines : m'.codeLines = m.codeLines
  allLines : m'.allLines = m.allLines

/-- Stops in front of the lines that show something do not change the layout. -/
theorem Stops.sameLayout {m : Nat} {white : List Char} (h : Stops m white) {r r' : Region}
    (hlines : r'.lines = r.lines.map (indent white))
    (hcode : ∃ line ∈ r.lines, isCode line = true) :
    r.measures.SameLayout r'.measures := by
  have hbase := h.baseIndentation_indent hcode
  have hlengths := h.map_filter_isCode_indent r.lines fun line hline =>
    h.lineLength_append (baseIndentation r.lines) hline
  have hindents := h.map_filter_isCode_indent r.lines fun line _ =>
    h.indentBeyond_append (baseIndentation r.lines) line
  have hspaces := h.map_filter_isCode_indent r.lines fun line _ =>
    h.innerSpaces_append line
  constructor
  · show Spread.ofList _ = Spread.ofList _
    rw [Region.codeLines, hlines, hbase, hlengths, Region.codeLines]
  · show Spread.ofList _ = Spread.ofList _
    rw [Region.codeLines, hlines, hbase, hindents, Region.codeLines]
  · show List.foldl _ _ _ = List.foldl _ _ _
    rw [Region.codeLines, hlines, hspaces, Region.codeLines]
  · show List.length _ = List.length _
    rw [Region.codeLines, hlines, h.filter_isCode_indent, List.length_map, Region.codeLines]
  · show List.length _ = List.length _
    rw [hlines, List.length_map]

/-- The features of the layout. -/
def layoutNames : List String :=
  ["line_length_avg", "line_length_max", "indentation_avg", "indentation_max", "spaces_avg",
    "blank_line_ratio"]

/-- Measures that agree on the layout have its features in common. -/
theorem Measures.SameLayout.lookup_eq {m m' : Measures} (h : m.SameLayout m') {name : String}
    (hname : name ∈ layoutNames) :
    ∃ x, m.toVector.lookup name = .value x ∧ m'.toVector.lookup name = .value x := by
  simp only [layoutNames, List.mem_cons, List.not_mem_nil, or_false] at hname
  rcases hname with rfl | rfl | rfl | rfl | rfl | rfl
  · exact ⟨_, m.lookup_toVector 0 rfl rfl, m'.lookup_toVector 0 rfl
      (congrArg (fun s : Spread => some s.average) h.lineLength)⟩
  · exact ⟨_, m.lookup_toVector 1 rfl rfl, m'.lookup_toVector 1 rfl
      (congrArg (fun s : Spread => some s.greatest) h.lineLength)⟩
  · exact ⟨_, m.lookup_toVector 6 rfl rfl, m'.lookup_toVector 6 rfl
      (congrArg (fun s : Spread => some s.average) h.indentation)⟩
  · exact ⟨_, m.lookup_toVector 7 rfl rfl, m'.lookup_toVector 7 rfl
      (congrArg (fun s : Spread => some s.greatest) h.indentation)⟩
  · refine ⟨_, m.lookup_toVector 15 rfl rfl, m'.lookup_toVector 15 rfl ?_⟩
    show some (m'.spaces.toFloat / m'.codeLines.toFloat) =
      some (m.spaces.toFloat / m.codeLines.toFloat)
    rw [h.spaces, h.codeLines]
  · refine ⟨_, m.lookup_toVector 23 rfl rfl, m'.lookup_toVector 23 rfl ?_⟩
    show some ((m'.allLines - m'.codeLines).toFloat / m'.allLines.toFloat) =
      some ((m.allLines - m.codeLines).toFloat / m.allLines.toFloat)
    rw [h.allLines, h.codeLines]

/-- **Lines that are indented alike keep their layout.** When all lines of a region that show
something get four blanks or a tab as many times in front of them, at least one line being such,
the features of the layout stay the same, bit by bit. Nothing is asked of the two trees but that
they span the same rows and that no node ends before it starts. -/
theorem compute?_indented {m : Nat} {white : List Char}
    (hwhite : white = List.replicate (4 * m) ' ' ∨ white = List.replicate m '\t')
    {lines lines' : List (List Char)} {first last : Nat} (horder : first ≤ last)
    (hlast : last < lines.length)
    (hlines : (lines'.drop first).take (last + 1 - first) =
      ((lines.drop first).take (last + 1 - first)).map fun line =>
        if isCode line then white ++ line else line)
    (hcode : ∃ line ∈ (lines.drop first).take (last + 1 - first), isCode line = true)
    {src src' : SourceText} {parentKind parentKind' : String} {tree tree' : Tree}
    (hordered : ∀ n ∈ tree.nodes, n.start ≤ n.stop)
    (hordered' : ∀ n ∈ tree'.nodes, n.start ≤ n.stop) :
    ∃ v v' : Vector, compute? src lines parentKind tree first last = some (.ok v) ∧
      compute? src' lines' parentKind' tree' first last = some (.ok v') ∧
      ∀ name ∈ layoutNames, ∃ x, v.lookup name = .value x ∧ v'.lookup name = .value x := by
  have hlast' : last < lines'.length := by
    have hlength := congrArg List.length hlines
    rw [List.length_map, List.length_take, List.length_take, List.length_drop,
      List.length_drop] at hlength
    omega
  obtain ⟨r, hr, hrlines⟩ := Region.exists_cut? horder hlast
    (startRow_le_lastRow_of_mem src parentKind hordered)
  obtain ⟨r', hr', hrlines'⟩ := Region.exists_cut? horder hlast'
    (startRow_le_lastRow_of_mem src' parentKind' hordered')
  rw [← hrlines] at hlines hcode
  rw [← hrlines'] at hlines
  have hsame := Stops.sameLayout hwhite hlines hcode
  have hpos := Region.codeLines_pos hcode
  have hpos' := hsame.codeLines ▸ hpos
  refine ⟨r.measures.toVector, r'.measures.toVector, ?_, ?_, fun name hname =>
    hsame.lookup_eq hname⟩
  · rw [compute?_eq, hr, Option.map_some, Region.features_of_code hpos]
  · rw [compute?_eq, hr', Option.map_some, Region.features_of_code hpos']

/-- Two names, the second of which starts at an offset. -/
def twoNames (first second : Nat) : Tree :=
  let leaf (start : Nat) : Tree :=
    .node ⟨"identifier", true, false, false, start, start + 1, .none⟩ []
  .node ⟨"module", true, false, false, first, second + 1, .none⟩ [leaf first, leaf second]

/-- Two tabs may be put in front of a line that is indented by a blank, and of one that is indented
by a tab and a blank that does not break, while a line of blanks stays as it is. -/
theorem compute?_indented_twoStops :
    let lines := [" a".toList, "\t\u00a0b".toList, "  ".toList]
    let lines' := ["\t\t a".toList, "\t\t\t\u00a0b".toList, "  ".toList]
    ∃ v v' : Vector,
      compute? (.ofString " a\n\t\u00a0b\n  ") lines "" (twoNames 1 6) 0 2 = some (.ok v) ∧
      compute? (.ofString "\t\t a\n\t\t\t\u00a0b\n  ") lines' "" (twoNames 3 10) 0 2 =
        some (.ok v') ∧
      ∀ name ∈ layoutNames, ∃ x, v.lookup name = .value x ∧ v'.lookup name = .value x :=
  compute?_indented (m := 2) (.inr (rfl : ['\t', '\t'] = List.replicate 2 '\t')) (by decide)
    (by decide) (by decide) (by decide) (by decide) (by decide)

end Readability.Feature
