import Mathlib
import Readability.Proofs.CheckedTable
import Readability.Proofs.TokenCounts

/-!
# Extraction with checks

A region is measured from its lines and from the table of notes. The widths up to tab stops,
the notes that are looked up, the blank lines and all quotients are taken with checks
(`measures?`, `values?`). They pass, and give the measures of the region and their values
(`measures?_eq`, `values?_eq`), when the region has lines that show something.

Main statements: `extract?_eq` and `extractScopes?_eq`. Where the nodes of a unit's tree lie
in its text, no check fails from the unit's bytes to its features, and these are the ones
that are extracted without checks.
-/

namespace Readability.Checked

open Readability.Source Readability.Feature

/-- If no element fails, all are there. -/
theorem mapM_eq_some {α β : Type} {f : α → Option β} {g : α → β} {l : List α}
    (h : ∀ a ∈ l, f a = some (g a)) : l.mapM f = some (l.map g) := by
  induction l with
  | nil => rfl
  | cons a l ih =>
    obtain ⟨ha, hl⟩ := List.forall_mem_cons.mp h
    rw [List.mapM_cons, ha, ih hl]
    rfl

theorem mapM_id_some {α : Type} (l : List α) : (l.map some).mapM id = some l := by
  induction l with
  | nil => rfl
  | cons a l ih =>
    rw [List.map_cons, List.mapM_cons, ih]
    rfl

/-! ## Layout -/

/-- Width of the blanks and tabs at the start of a line. -/
def indentationFrom? (width : Nat) : List Char → Option Nat
  | ' ' :: rest => indentationFrom? (width + 1) rest
  | '\t' :: rest => do
    let gap ← sub? tabWidth (width % tabWidth)
    indentationFrom? (width + gap) rest
  | _ => some width

/-- Length of a line without the common indentation. -/
def lineLength? (base : Nat) (line : List Char) : Option Nat := do
  let visible := Text.trimEnd line
  let indent ← indentationFrom? 0 visible
  return indent - base + (Text.trimStart visible).length

/-- A tab stop is never behind the next one. -/
theorem indentationFrom?_eq (width : Nat) (line : List Char) :
    indentationFrom? width line = some (indentationFrom width line) := by
  induction width, line using indentationFrom.induct with
  | case1 width rest ih =>
    rw [indentationFrom?, indentationFrom, ih]
  | case2 width rest ih =>
    have hstop : width % tabWidth ≤ tabWidth := Nat.le_of_lt (Nat.mod_lt _ (by decide))
    rw [indentationFrom?, indentationFrom, sub?_of_le hstop]
    exact ih
  | case3 width line hblank htab =>
    rw [indentationFrom?.eq_3, indentationFrom.eq_3]
    all_goals assumption

theorem lineLength?_eq (base : Nat) (line : List Char) :
    lineLength? base line = some (lineLength base line) := by
  rw [lineLength?, indentationFrom?_eq]
  rfl

/-! ## Measures -/

/-- The measures of some lines, from the notes of them. -/
def measures? (lines : List (List Char)) (pass : Pass) : Option Measures := do
  let code := lines.filter isCode
  let rows := (lines.zipIdx.filter fun line => isCode line.1).map (·.2)
  let indents ← code.mapM (indentationFrom? 0)
  let base := indents.min?.getD 0
  let lengths ← code.mapM (lineLength? base)
  let notes ← rows.mapM (pass.notes[·]?)
  let words := vocabulary pass.kept
  return {
    lineLength := .ofList lengths
    indentation := .ofList (indents.map (· - base))
    spaces := (code.map innerSpaces).foldl Nat.add 0
    perLine := fun counter => .ofList (notes.map (·.count counter))
    identifierLength :=
      .ofList ((pass.kept.filter fun t => t.kind == .identifier).map fun t => t.text.length)
    nesting := .ofList (notes.filterMap (·.depth))
    commentLines := notes.countP (·.comment)
    codeLines := code.length
    allLines := lines.length
    words := words.length
    distinctWords := words.eraseDups.length }

/-- **What is read off the notes are the measures** of the region that the table speaks of. -/
theorem measures?_eq (r : Region) : measures? r.lines (passOf r) = some r.measures := by
  have hindents : (r.lines.filter isCode).mapM (indentationFrom? 0) =
      some (r.codeLines.map Feature.indentation) :=
    mapM_eq_some fun line _ => indentationFrom?_eq 0 line
  have hlengths : ∀ base, (r.lines.filter isCode).mapM (lineLength? base) =
      some (r.codeLines.map (lineLength base)) := fun base =>
    mapM_eq_some fun line _ => lineLength?_eq base line
  have hnotes : ((r.lines.zipIdx.filter fun line => isCode line.1).map (·.2)).mapM
      ((passOf r).notes[·]?) = some (r.codeRows.map (noteOf r)) := by
    refine mapM_eq_some fun row hrow => ?_
    obtain ⟨line, hline, -⟩ := r.mem_codeRows.mp hrow
    have hlast : row < r.lines.length := (List.getElem?_eq_some_iff.mp hline).1
    rw [passOf, List.getElem?_map, List.getElem?_range hlast, Option.map_some]
  rw [measures?, hindents]
  simp only [Option.bind_eq_bind, Option.bind_some, hlengths, hnotes, List.map_map,
    List.filterMap_map, List.countP_map]
  rfl

/-! ## Values -/

/-- An average, zero for no values. -/
def mean? (s : Spread) : Option Float :=
  if s.count == 0 then some 0 else quotient? s.sum s.count

/-- A share of the lines that show something. -/
def share? (m : Measures) (part : Nat) : Option Float :=
  quotient? part m.codeLines

/-- An average over the lines that show something. -/
def perLine? (m : Measures) (counter : Counter) : Option Float :=
  share? m (m.perLine counter).sum

/-- The features, in the order of their names. -/
def values? (m : Measures) : Option (List Float) := do
  let blankLines ← sub? m.allLines m.codeLines
  [mean? m.lineLength, some m.lineLength.greatest,
    perLine? m .identifiers, some (m.perLine .identifiers).greatest,
    mean? m.identifierLength, some m.identifierLength.greatest,
    mean? m.indentation, some m.indentation.greatest,
    perLine? m .keywords, some (m.perLine .keywords).greatest,
    perLine? m .numbers, some (m.perLine .numbers).greatest,
    perLine? m .parentheses, perLine? m .periods, perLine? m .commas,
    share? m m.spaces,
    perLine? m .comparisons, perLine? m .assignments, perLine? m .branches, perLine? m .loops,
    mean? m.nesting, some m.nesting.greatest,
    share? m m.commentLines,
    quotient? blankLines m.allLines,
    some m.volume,
    some (Float.log (1 + m.codeLines.toFloat))].mapM id

theorem mean?_eq (s : Spread) : mean? s = some s.average := by
  rw [mean?, Spread.average]
  split
  · rfl
  · next hcount =>
    exact quotient?_of_pos (Nat.pos_of_ne_zero (mt beq_iff_eq.mpr hcount)) _

section Lines

variable {m : Measures} (hcode : 0 < m.codeLines)

include hcode

theorem share?_eq (part : Nat) : share? m part = some (m.share part) :=
  quotient?_of_pos hcode part

theorem perLine?_eq {counter : Counter} (hcount : (m.perLine counter).count = m.codeLines) :
    perLine? m counter = some (m.perLine counter).average := by
  rw [perLine?, share?_eq hcode, Measures.share, Spread.average, hcount,
    beq_false_of_ne (Nat.ne_of_gt hcode), if_neg Bool.false_ne_true]

/-- **No quotient is by zero** where there are lines that show something. -/
theorem values?_eq (hall : m.codeLines ≤ m.allLines)
    (hcount : ∀ counter, (m.perLine counter).count = m.codeLines) :
    values? m = some m.values := by
  have hpos : 0 < m.allLines := Nat.lt_of_lt_of_le hcode hall
  have hmean := fun counter => perLine?_eq hcode (hcount counter)
  rw [values?, sub?_of_le hall, Option.bind_eq_bind, Option.bind_some, share?_eq hcode,
    share?_eq hcode, quotient?_of_pos hpos]
  simp only [mean?_eq, hmean]
  exact mapM_id_some m.values

end Lines

/-! ## Regions -/

/-- The features of some lines from row `first` on, with the tokens that start on them. -/
def features? (first : Nat) (lines : List (List Char)) (tokens : List Token) :
    Option (Except UnitError Vector) := do
  let pass ← tokens.foldlM (visit? first) ⟨List.replicate lines.length .blank, []⟩
  if (lines.filter isCode).isEmpty then return .error (.parse "unit contains no code")
  else
    let m ← measures? lines pass
    let values ← values? m
    return .ok ⟨schema, names, values⟩

/-- The features of the rows `first` to `last` with the tokens of a node. -/
def compute? (src : SourceText) (lines : List (List Char)) (parentKind : String) (tree : Tree)
    (first last : Nat) : Option (Except UnitError Vector) := do
  let last ← clamp? last first (lines.length - 1)
  let region ← slice? lines first last
  let tokens ← tokensFrom? src 0 parentKind tree
  features? first region tokens

/-- A table of nothing says what a region without tokens says. -/
theorem passOf_blank (first : Nat) (lines : List (List Char)) :
    (⟨List.replicate lines.length .blank, []⟩ : Pass) = passOf ⟨first, lines, []⟩ := by
  have hnotes : List.replicate lines.length LineNote.blank =
      (List.range lines.length).map (noteOf ⟨first, lines, []⟩) := by
    refine List.ext_getElem (by rw [List.length_replicate, List.length_map, List.length_range]) ?_
    intro row _ _
    rw [List.getElem_replicate, List.getElem_map]
    rfl
  rw [passOf, ← hnotes]

/-- The values of the measures of a region that has code pass all checks. -/
theorem values?_measures {r : Region} (hcode : 0 < r.measures.codeLines) :
    values? r.measures = some r.measures.values := by
  refine values?_eq hcode (List.length_filter_le _ _) fun counter => ?_
  show (r.codeRows.map _).length = _
  rw [List.length_map, r.length_codeRows]
  rfl

/-- **Measuring lines passes all checks** for tokens that do not end before they start. -/
theorem features?_eq {tokens : List Token} (hordered : ∀ t ∈ tokens, t.startRow ≤ t.lastRow)
    (first : Nat) (lines : List (List Char)) : features? first lines tokens =
      some (Region.features
        ⟨first, lines, tokens.filter (startsIn ⟨first, lines, []⟩)⟩) := by
  have hwalk := foldlM_visit? (r := ⟨first, lines, []⟩) hordered
  rw [List.nil_append] at hwalk
  generalize tokens.filter (startsIn ⟨first, lines, []⟩) = kept at hwalk ⊢
  have hmeasures := measures?_eq ⟨first, lines, kept⟩
  rw [features?, passOf_blank first, hwalk, Option.bind_eq_bind, Option.bind_some, Region.features]
  show _ = some (if (lines.filter isCode).isEmpty then _ else _)
  split
  · rfl
  · next hcode =>
    have hpos : 0 < (Region.mk first lines kept).measures.codeLines :=
      List.length_pos_iff.mpr (mt List.isEmpty_iff.mpr hcode)
    rw [hmeasures, Option.bind_eq_bind, Option.bind_some, values?_measures hpos]
    rfl

/-- **Measuring passes all checks** on rows that start in the text, for nodes that lie in it. -/
theorem compute?_eq {src : SourceText} {lines : List (List Char)} {tree : Tree} {first : Nat}
    (hfirst : first < lines.length) (hnodes : InText src tree.nodes) (parentKind : String)
    (last : Nat) : compute? src lines parentKind tree first last =
      Feature.compute? src lines parentKind tree first last := by
  have hordered := startRow_le_lastRow_of_mem src parentKind fun n hn =>
    (hnodes n hn).order
  rw [Feature.compute?_eq, Region.cut?_of_ordered hfirst last hordered, compute?,
    clamp?_of_le (Nat.le_sub_one_of_lt hfirst)]
  dsimp only
  generalize hclamped : min (max last first) (lines.length - 1) = last'
  have horder : first ≤ last' := by omega
  have hlast : last' < lines.length := by omega
  have hstarts : startsIn ⟨first, (lines.drop first).take (last' + 1 - first), []⟩ =
      fun t => first ≤ t.startRow && t.startRow ≤ last' := by
    funext t
    have hend : t.startRow < first + ((lines.drop first).take (last' + 1 - first)).length ↔
        t.startRow ≤ last' := by
      rw [List.length_take, List.length_drop]
      omega
    exact congrArg (decide (first ≤ t.startRow) && ·) (decide_eq_decide.mpr hend)
  rw [Option.bind_eq_bind, Option.bind_some, slice?_of_le horder hlast, Option.bind_eq_bind,
    Option.bind_some, tokensFrom?_eq 0 parentKind hnodes, Option.bind_eq_bind, Option.bind_some]
  show features? first _ (tree.tokens src parentKind) = _
  rw [features?_eq hordered, hstarts]
  rfl

/-! ## Units -/

/-- The features of a whole unit. -/
def extract? (parser : Parser) (u : SourceUnit) : Option (Except UnitError Vector) :=
  match parsed parser u with
  | .error e => some (.error e)
  | .ok (text, _, tree) =>
    let src := SourceText.ofString text
    let lines := Text.splitLines src.chars
    compute? src lines "" tree 0 (lines.length - 1)

/-- The features of each function of a unit. -/
def extractScopes? (parser : Parser) (u : SourceUnit) :
    Option (Except UnitError (List ScopedFeatures)) :=
  match parsed parser u with
  | .error e => some (.error e)
  | .ok (text, language, tree) => do
    let src := SourceText.ofString text
    let lines := Text.splitLines src.chars
    let scopes ← scopesFrom? src language none tree
    allOk (scopes.map fun scope =>
      let first := src.row scope.tree.info.start
      let last := min (src.row scope.tree.info.stop) (lines.length - 1)
      (compute? src lines scope.parentKind scope.tree first last).map
        (Except.map fun features => ⟨scope.span, features⟩))

section Units

variable {parser : Parser} {u : SourceUnit}
  (hnodes : ∀ {text language tree}, parsed parser u = .ok (text, language, tree) →
    InText (.ofString text) tree.nodes)

include hnodes

/-- **Extraction passes all checks** when the nodes of the tree lie in the text. -/
theorem extract?_eq : extract? parser u = Feature.extract? parser u := by
  rw [extract?, Feature.extract?_eq]
  rcases hparsed : parsed parser u with e | ⟨text, language, tree⟩
  · rfl
  · have hlines : 0 < (Text.splitLines text.toList).length := by
      rw [Text.length_splitLines text.toList 0]
      exact Nat.succ_pos _
    exact compute?_eq hlines (hnodes hparsed) _ _

theorem extractScopes?_eq : extractScopes? parser u = Feature.extractScopes? parser u := by
  rw [extractScopes?, Feature.extractScopes?_eq]
  rcases hparsed : parsed parser u with e | ⟨text, language, tree⟩
  · rfl
  · dsimp only
    rw [scopesFrom?_eq language none nofun (hnodes hparsed), Option.bind_eq_bind, Option.bind_some]
    refine congrArg allOk (List.map_congr_left fun scope hscope => ?_)
    rw [compute?_eq (SourceText.row_lt_length_splitLines _ _) fun n hn =>
      hnodes hparsed n (Tree.nodes_subset_of_mem_scopesFrom none hscope hn)]
    rfl

end Units

end Readability.Checked
