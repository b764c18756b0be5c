import Mathlib
import Readability.Proofs.Lines
import Readability.Proofs.ParsedUnits

/-!
# A line feed at the end of a file

A file is cut into lines at every line feed, so that a text that ends with one has an
empty line more. It is blank: it has no tokens, and all that is measured of lines that
show something is as it would be without (`measures_addBlank`). But it counts among the
lines that the blank ones have a share of.

Main statement: `extract?_concat_feed`. With a line feed put behind its text, a file with
`b` blank lines out of `n` has `b + 1` blank ones out of `n + 1`, and this share is the
only feature that changes.
-/

namespace Readability.Text

theorem splitLines_concat_feed (cs : List Char) :
    splitLines (cs ++ ['\n']) = splitLines cs ++ [[]] := by
  rw [splitLines, splitLines, splitFeeds_eq_splitOn, splitFeeds_eq_splitOn,
    List.splitOn_append_cons_self, List.map_append]
  rfl

end Readability.Text

namespace Readability.Source

open Text (byteCount)

/-! ## Nodes of the text -/

/-- The same node but for its end, in a text of so many bytes. -/
structure SameButStop (bytes : Nat) (n n' : NodeInfo) : Prop where
  same : ∃ stop, n' = { n with stop := stop }
  start : n.start ≤ bytes

variable {text text' : String} (htext' : text'.toList = text.toList ++ ['\n'])

include htext'

/-- In front of an offset in the text are the line feeds of the text. -/
theorem feeds_filter_concat_feed {offset : Nat} (hle : offset ≤ byteCount text.toList) :
    (SourceText.ofString text').feeds.filter (· < offset) =
      (SourceText.ofString text).feeds.filter (· < offset) := by
  rw [SourceText.ofString, SourceText.ofChars, htext']
  dsimp only
  rw [Text.feedOffsets_append, List.filter_append, Nat.zero_add]
  -- the line feed that was added lies behind all offsets of the text
  have hlast : (Text.feedOffsets (byteCount text.toList) ['\n']).filter (· < offset) = [] :=
    List.filter_cons_of_neg (by simpa using hle)
  rw [hlast, List.append_nil]
  rfl

theorem row_concat_feed {offset : Nat} (hle : offset ≤ byteCount text.toList) :
    (SourceText.ofString text').row offset = (SourceText.ofString text).row offset := by
  rw [SourceText.row, SourceText.row, rowAt, rowAt, List.countP_eq_length_filter,
    List.countP_eq_length_filter, feeds_filter_concat_feed htext' hle]

theorem column_concat_feed {offset : Nat} (hle : offset ≤ byteCount text.toList) :
    (SourceText.ofString text').column offset = (SourceText.ofString text).column offset := by
  rw [SourceText.column, SourceText.column, columnAt, columnAt,
    feeds_filter_concat_feed htext' hle]

theorem covered_concat_feed {n : NodeInfo} (hn : n.Within 0 (byteCount text.toList)) :
    (SourceText.ofString text').covered n = (SourceText.ofString text).covered n := by
  have hholds : (SourceText.ofString text').Holds 0 text.toList :=
    ⟨[], ['\n'], congrArg SourceText.ofChars htext', rfl⟩
  rw [← Nat.zero_add (byteCount _)] at hn
  rw [hholds.covered hn]
  have hmoved : n.moved 0 0 = n := by simp [NodeInfo.moved]
  rw [hmoved]
  rfl

/-- **A line feed behind the text changes no token.** -/
theorem sameReading_concat_feed :
    Tree.SameReading (.ofString text) (.ofString text')
      (fun n n' => n' = n ∧ n.Within 0 (byteCount text.toList)) Eq where
  kind hn := by rw [hn.1]
  named hn := by rw [hn.1]
  leaf hn := by rw [hn.1, classifyLeaf, classifyLeaf, covered_concat_feed htext' hn.2]
  token hn kind depth parentKind _ := by
    have hstart := hn.2.order.trans hn.2.stop
    rw [hn.1, Token.ofNode, Token.ofNode, covered_concat_feed htext' hn.2,
      row_concat_feed htext' hstart, row_concat_feed htext' hn.2.stop,
      column_concat_feed htext' hn.2.stop]

/-- Faults stay where they were. -/
theorem sameFaults_concat_feed : Tree.SameFaults (SourceText.ofString text).row
    (SourceText.ofString text').row (SameButStop (byteCount text.toList)) := by
  constructor
  · rintro n _ ⟨⟨stop, rfl⟩, -⟩
    rfl
  · rintro n _ ⟨⟨stop, rfl⟩, -⟩
    rfl
  · rintro n _ ⟨⟨stop, rfl⟩, -⟩
    rfl
  · rintro n _ ⟨⟨stop, rfl⟩, hstart⟩
    exact row_concat_feed htext' hstart

end Readability.Source

namespace Readability.Feature

open Readability.Source

/-! ## Regions with a blank line more -/

/-- The region with a blank line behind its lines. -/
def Region.addBlank (r : Region) : Region :=
  { r with lines := r.lines ++ [[]] }

namespace Region

variable (r : Region)

theorem filter_isCode_concat_nil (lines : List (List Char)) :
    (lines ++ [[]]).filter isCode = lines.filter isCode := by
  rw [List.filter_append]
  exact List.append_nil _

theorem codeLines_addBlank : r.addBlank.codeLines = r.codeLines :=
  filter_isCode_concat_nil r.lines

theorem codeRows_addBlank : r.addBlank.codeRows = r.codeRows := by
  rw [codeRows, codeRows, addBlank, List.zipIdx_append, List.filter_append, List.map_append]
  exact List.append_nil _

/-- **A blank line more** counts among all lines, and nowhere else. -/
theorem measures_addBlank :
    r.addBlank.measures = { r.measures with allLines := r.measures.allLines + 1 } := by
  have hbase : baseIndentation r.addBlank.lines = baseIndentation r.lines := by
    rw [baseIndentation, baseIndentation, addBlank, filter_isCode_concat_nil]
  have hall : r.addBlank.lines.length = r.lines.length + 1 := List.length_append
  unfold measures
  rw [hbase, hall, codeLines_addBlank, codeRows_addBlank]
  rfl

/-- Lines that show nothing. -/
def blankLines : Nat :=
  r.lines.countP Text.allBlank

theorem allLines_eq : r.measures.allLines = r.measures.codeLines + r.blankLines := by
  have hblank : r.lines.countP (fun line => decide ¬isCode line = true) = r.blankLines :=
    List.countP_congr fun line _ => by simp [isCode]
  show r.lines.length = (r.lines.filter isCode).length + r.blankLines
  rw [← List.countP_eq_length_filter, ← hblank]
  exact List.length_eq_countP_add_countP isCode

/-- Where the share of blank lines stands among the features. -/
def blankLineRatio : Nat :=
  23

example : names[blankLineRatio]? = some "blank_line_ratio" :=
  rfl

theorem blankLineRatio_values :
    r.measures.values[blankLineRatio]? = some (r.blankLines.toFloat / r.lines.length.toFloat) := by
  have hblank : r.measures.allLines - r.measures.codeLines = r.blankLines := by
    rw [allLines_eq, Nat.add_sub_cancel_left]
  rw [← hblank]
  rfl

/-- A blank line more changes the share of blank lines. -/
theorem values_addBlank :
    r.addBlank.measures.values = r.measures.values.set blankLineRatio
      ((r.blankLines + 1).toFloat / (r.lines.length + 1).toFloat) := by
  have hblank : r.measures.allLines + 1 - r.measures.codeLines = r.blankLines + 1 := by
    rw [allLines_eq, Nat.add_assoc, Nat.add_sub_cancel_left]
  rw [← hblank, measures_addBlank]
  rfl

/-- A text as a region, with the tokens of its tree. -/
def whole (text : String) (tree : Tree) : Region :=
  ⟨0, Text.splitLines text.toList, tree.tokens (.ofString text) ""⟩

end Region

/-- All tokens start on lines of the region, and end no earlier than they start. -/
def Region.Fits (r : Region) : Prop :=
  ∀ t ∈ r.tokens, t.startRow < r.lines.length ∧ t.startRow ≤ t.lastRow

theorem Region.Fits.addBlank {r : Region} (h : r.Fits) : r.addBlank.Fits := by
  intro t ht
  refine ⟨(h t ht).1.trans ?_, (h t ht).2⟩
  show r.lines.length < (r.lines ++ [[]]).length
  rw [List.length_append]
  exact Nat.lt_succ_self _

theorem Region.fits_whole {text : String} {tree : Tree}
    (hordered : ∀ n ∈ tree.nodes, n.start ≤ n.stop) : (Region.whole text tree).Fits := by
  intro t ht
  obtain ⟨n, hn, kind, depth, parentKind, rfl⟩ := Tree.exists_node_of_mem_tokensFrom _ _ ht
  exact ⟨SourceText.row_lt_length_splitLines text n.start,
    startRow_le_lastRow (hordered n hn) kind depth parentKind⟩

/-- All lines of a text are cut out of it, with all tokens of its tree. -/
theorem cut?_whole {text : String} {tree : Tree} (hfits : (Region.whole text tree).Fits) :
    Region.cut? (Text.splitLines text.toList) 0 ((Text.splitLines text.toList).length - 1)
      (tree.tokens (.ofString text) "") = some (Region.whole text tree) := by
  have hlength := Text.length_splitLines text.toList 0
  have hinside : ∀ t ∈ tree.tokens (.ofString text) "",
      (0 ≤ t.startRow && t.startRow ≤ (Text.splitLines text.toList).length - 1 : Bool) = true := by
    intro t ht
    rw [Bool.and_eq_true_iff, decide_eq_true_iff, decide_eq_true_iff]
    exact ⟨Nat.zero_le _, Nat.le_sub_one_of_lt (hfits t ht).1⟩
  have hlines : ((Text.splitLines text.toList).drop 0).take
      ((Text.splitLines text.toList).length - 1 + 1 - 0) = Text.splitLines text.toList :=
    List.take_of_length_le (by rw [List.drop_zero]; omega)
  have hordered : ∀ t ∈ tree.tokens (.ofString text) "", t.startRow ≤ t.lastRow :=
    fun t ht => (hfits t ht).2
  rw [Region.cut?_of_ordered (hlength ▸ Nat.succ_pos _) _ hordered]
  dsimp only
  rw [Nat.max_zero, Nat.min_self, List.filter_eq_self.mpr hinside, hlines]
  rfl

/-- All lines of a text are measured, and all tokens of its tree. -/
theorem compute?_whole {text : String} {tree : Tree} (hfits : (Region.whole text tree).Fits) :
    compute? (.ofString text) (Text.splitLines text.toList) "" tree 0
      ((Text.splitLines text.toList).length - 1) = some (Region.whole text tree).features := by
  rw [compute?_eq, cut?_whole hfits]
  rfl

theorem extract?_of_parsed {parser : Parser} {u : SourceUnit} {text : String} {language : Language}
    {tree : Tree} (hparsed : parsed parser u = .ok (text, language, tree))
    (hfits : (Region.whole text tree).Fits) :
    extract? parser u = some (Region.whole text tree).features := by
  rw [extract?_eq, hparsed]
  exact compute?_whole hfits

/-! ## Units with a line feed more -/

section Units

variable {text text' : String} {info : NodeInfo} {children : List Source.Tree}
  (htext' : text'.toList = text.toList ++ ['\n']) (hchildren : children ≠ [])
  (hcomment : info.isComment = false) (hstring : info.isString = false)
  (hfits : ∀ n ∈ (Source.Tree.node info children).nodes,
    n.Within 0 (Text.byteCount text.toList))

include htext' hchildren hcomment hstring hfits

/-- **A line feed behind the text is a blank line more.** -/
theorem whole_concat_feed (stop : Nat) :
    Region.whole text' (.node { info with stop := stop } children) =
      (Region.whole text (.node info children)).addBlank := by
  have htokens : List.Forall₂ Eq
      (Tree.tokensBelow (.ofString text) (if info.isBlock then 1 else 0) info.kind children)
      (Tree.tokensBelow (.ofString text') (if info.isBlock then 1 else 0) info.kind children) :=
    Tree.forall₂_tokensBelow (sameReading_concat_feed htext') _ _
      (Tree.AlikeAll.refl fun n hn => ⟨rfl, hfits n (List.mem_cons_of_mem _ hn)⟩)
  rw [List.forall₂_eq_eq_eq] at htokens
  -- the root is no token, so where it ends is not read
  have hroot : ∀ src stop, Tree.tokens src "" (.node { info with stop := stop } children) =
      Tree.tokensBelow src (if info.isBlock then 1 else 0) info.kind children :=
    fun src stop =>
      Tree.tokensFrom_of_children (.node { info with stop := stop } children) hcomment hstring
        hchildren 0 ""
  have hlines : Text.splitLines text'.toList = Text.splitLines text.toList ++ [[]] := by
    rw [htext', Text.splitLines_concat_feed]
  rw [Region.whole, Region.whole, Region.addBlank, hlines, hroot, ← htokens]
  exact congrArg _ (hroot (.ofString text) info.stop).symm

/-- **A line feed behind the text changes the share of blank lines, and no other feature.** A
unit whose text has `b` blank lines out of `n` has, with one line feed more and the same nodes but
for the end of the root, the same features but for that share, which goes from `b / n` to
`(b + 1) / (n + 1)`, or the same error. The root has children, and is no token itself. -/
theorem extract?_concat_feed {stop : Nat} {parser parser' : Parser} {u u' : SourceUnit}
    (hpath : u'.id.path = u.id.path) (hcontent : u.content = text.toUTF8)
    (hcontent' : u'.content = text'.toUTF8)
    (hparser : ∀ language, u.language? = some language →
      parser language text = some (.node info children))
    (hparser' : ∀ language, u.language? = some language →
      parser' language text' = some (.node { info with stop := stop } children)) :
    let blank := (Text.splitLines text.toList).countP Text.allBlank
    let lines := (Text.splitLines text.toList).length
    (∃ e, extract? parser u = some (.error e) ∧ extract? parser' u' = some (.error e)) ∨
      ∃ v : Vector, extract? parser u = some (.ok v) ∧
        v.values[Region.blankLineRatio]? = some (blank.toFloat / lines.toFloat) ∧
        extract? parser' u' = some (.ok { v with
          values := v.values.set Region.blankLineRatio
            ((blank + 1).toFloat / (lines + 1).toFloat) }) := by
  intro blank lines
  have htrees : Tree.Alike (SameButStop (Text.byteCount text.toList)) (.node info children)
      (.node { info with stop := stop } children) := by
    have hstart : ∀ n ∈ (Source.Tree.node info children).nodes,
        n.start ≤ Text.byteCount text.toList := fun n hn =>
      (hfits n hn).order.trans (hfits n hn).stop
    refine .node ⟨⟨stop, rfl⟩, hstart info List.mem_cons_self⟩ (Tree.AlikeAll.refl fun n hn => ?_)
    exact ⟨⟨n.stop, rfl⟩, hstart n (List.mem_cons_of_mem _ hn)⟩
  have hzero : text'.toList.any SourceUnit.hasZeroByte =
      text.toList.any SourceUnit.hasZeroByte := by
    rw [htext', List.any_append]
    exact Bool.or_false _
  have hblank : Text.allBlank text'.toList = Text.allBlank text.toList := by
    rw [htext', Text.allBlank, Text.allBlank, List.all_append]
    exact Bool.and_true _
  rcases parsed_alike (sameFaults_concat_feed htext') htrees hpath hcontent hcontent' hzero hblank
      hparser hparser' with ⟨e, hparsed, hparsed'⟩ | ⟨language, hparsed, hparsed'⟩
  · rw [extract?_eq, extract?_eq, hparsed, hparsed']
    exact .inl ⟨e, rfl, rfl⟩
  · have hwhole := whole_concat_feed htext' hchildren hcomment hstring hfits stop
    have hregion : (Region.whole text (.node info children)).Fits :=
      Region.fits_whole fun n hn => (hfits n hn).order
    have hregion' := hwhole ▸ hregion.addBlank
    rw [extract?_of_parsed hparsed hregion, extract?_of_parsed hparsed' hregion', hwhole,
      Region.features, Region.features, Region.codeLines_addBlank]
    split
    · exact .inl ⟨_, rfl, rfl⟩
    · refine .inr ⟨_, rfl, Region.blankLineRatio_values _, ?_⟩
      rw [Measures.toVector, Region.values_addBlank]
      rfl

end Units

/-- The tree of an assignment on one line, up to where the file ends. -/
def oneLineTree (stop : Nat) : Source.Tree :=
  let leaf (kind : String) (named : Bool) (first last : Nat) : Source.Tree :=
    .node ⟨kind, named, false, false, first, last, .none⟩ []
  .node ⟨"module", true, false, false, 0, stop, .none⟩
    [.node ⟨"expression_statement", true, false, false, 0, 5, .none⟩
      [.node ⟨"assignment", true, false, false, 0, 5, .none⟩
        [leaf "identifier" true 0 1, leaf "=" false 2 3, leaf "integer" true 4 5]]]

/-- The assignment is read with its line open or closed. -/
def parseOneLine : Parser := fun _ text =>
  if text = "x = 1" then some (oneLineTree 5)
  else if text = "x = 1\n" then some (oneLineTree 6)
  else none

/-- A file of one line that is open. -/
def openLine : SourceUnit :=
  ⟨.file "m.py" "r", "x = 1".toUTF8⟩

/-- The file with its line closed. -/
def closedLine : SourceUnit :=
  ⟨.file "m.py" "r", "x = 1\n".toUTF8⟩

/-- A file without blank lines has one of two when its only line is closed. -/
theorem extract?_concat_feed_oneLine :
    (∃ e, extract? parseOneLine openLine = some (.error e) ∧
        extract? parseOneLine closedLine = some (.error e)) ∨
      ∃ v : Vector, extract? parseOneLine openLine = some (.ok v) ∧
        v.values[Region.blankLineRatio]? = some (Nat.toFloat 0 / Nat.toFloat 1) ∧
        extract? parseOneLine closedLine = some (.ok { v with
          values := v.values.set Region.blankLineRatio (Nat.toFloat 1 / Nat.toFloat 2) }) := by
  have htext' : "x = 1\n".toList = "x = 1".toList ++ ['\n'] := by decide
  exact extract?_concat_feed htext' (List.cons_ne_nil _ _) (by decide) (by decide) (by decide) rfl
    rfl rfl (fun _ _ => rfl) (fun _ _ => rfl)

theorem parsed_openLine : parsed parseOneLine openLine = .ok ("x = 1", .python, oneLineTree 5) := by
  have hcontent : openLine.content = "x = 1".toUTF8 := rfl
  have hlanguage : openLine.language? = some .python := by decide +kernel
  rw [parsed, SourceUnit.prepare_of_toUTF8 hcontent, hlanguage]
  rfl

theorem parsed_closedLine :
    parsed parseOneLine closedLine = .ok ("x = 1\n", .python, oneLineTree 6) := by
  have hcontent : closedLine.content = "x = 1\n".toUTF8 := rfl
  have hlanguage : closedLine.language? = some .python := by decide +kernel
  rw [parsed, SourceUnit.prepare_of_toUTF8 hcontent, hlanguage]
  rfl

/-- The features are not the same: the one file has no blank line, half of the other is blank. -/
theorem extract?_openLine_ne_closedLine : ∃ v v' : Vector,
    extract? parseOneLine openLine = some (.ok v) ∧
      extract? parseOneLine closedLine = some (.ok v') ∧
      v.values[Region.blankLineRatio]? = some 0 ∧ v'.values[Region.blankLineRatio]? = some 0.5 := by
  refine ⟨(Region.whole "x = 1" (oneLineTree 5)).measures.toVector,
    (Region.whole "x = 1\n" (oneLineTree 6)).measures.toVector, ?_, ?_, ?_, ?_⟩
  · exact extract?_of_parsed parsed_openLine (Region.fits_whole (by decide))
  · exact extract?_of_parsed parsed_closedLine (Region.fits_whole (by decide))
  · rw [Measures.toVector, Region.blankLineRatio_values]
    decide +kernel
  · rw [Measures.toVector, Region.blankLineRatio_values]
    decide +kernel

end Readability.Feature
