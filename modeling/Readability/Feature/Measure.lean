import Readability.Source.Scope
import Readability.Source.SourceUnit
import Readability.Feature.Layout
import Readability.Feature.Tally
import Readability.Feature.Vector

/-!
Measuring a stretch of lines. The measures are whole numbers, `Measures`; the vector of features is
read off them at the end, so that all laws about counting are laws about natural numbers.

"Per line" means per line that shows something.
-/

namespace Readability.Feature

open Readability.Source

/-- The name of the schema of the features measured here. -/
def schema : String :=
  "readscope.features.v1"

/-- The names of the features, in order. -/
def names : List String :=
  ["line_length_avg", "line_length_max", "identifiers_avg", "identifiers_max",
    "identifier_length_avg", "identifier_length_max", "indentation_avg", "indentation_max",
    "keywords_avg", "keywords_max",
    "numbers_avg", "numbers_max", "parentheses_avg", "periods_avg", "commas_avg", "spaces_avg",
    "comparisons_avg", "assignments_avg", "branches_avg", "loops_avg", "nesting_depth_avg",
    "nesting_depth_max", "comment_density", "blank_line_ratio", "halstead_volume", "code_lines_log"]

/-- Sum, greatest and count of some numbers. -/
structure Spread where
  sum : Nat
  max : Nat
  count : Nat
deriving Repr, DecidableEq

namespace Spread

/-- Sum, greatest and count. -/
def ofList (values : List Nat) : Spread :=
  ⟨values.foldl Nat.add 0, values.foldl Nat.max 0, values.length⟩

/-- A quotient, zero for no values. -/
def average (s : Spread) : Float :=
  if s.count == 0 then 0 else s.sum.toFloat / s.count.toFloat

/-- The greatest value. -/
def greatest (s : Spread) : Float :=
  s.max.toFloat

end Spread

/-- All that is measured of a stretch of lines. -/
structure Measures where
  lineLength : Spread
  indentation : Spread
  /-- Blanks inside the lines. -/
  spaces : Nat
  /-- A counter over the lines that show something. -/
  perLine : Counter → Spread
  identifierLength : Spread
  nesting : Spread
  /-- Lines that a comment reaches. -/
  commentLines : Nat
  /-- Lines that show something. -/
  codeLines : Nat
  /-- All lines. -/
  allLines : Nat
  /-- Words of the text, comments left out. -/
  words : Nat
  /-- Different words among them. -/
  distinctWords : Nat

namespace Measures

/-- Words times the bits that tell one word from another. -/
def volume (m : Measures) : Float :=
  if m.distinctWords < 2 then 0
  else m.words.toFloat * Float.log2 m.distinctWords.toFloat

/-- A share of the lines that show something. -/
def share (m : Measures) (part : Nat) : Float :=
  part.toFloat / m.codeLines.toFloat

/-- The features, in the order of their names. -/
def values (m : Measures) : List Float :=
  [m.lineLength.average, m.lineLength.greatest,
    (m.perLine .identifiers).average, (m.perLine .identifiers).greatest,
    m.identifierLength.average, m.identifierLength.greatest,
    m.indentation.average, m.indentation.greatest,
    (m.perLine .keywords).average, (m.perLine .keywords).greatest,
    (m.perLine .numbers).average, (m.perLine .numbers).greatest,
    (m.perLine .parentheses).average, (m.perLine .periods).average, (m.perLine .commas).average,
    m.share m.spaces,
    (m.perLine .comparisons).average, (m.perLine .assignments).average,
    (m.perLine .branches).average, (m.perLine .loops).average,
    m.nesting.average, m.nesting.greatest,
    m.share m.commentLines,
    (m.allLines - m.codeLines).toFloat / m.allLines.toFloat,
    m.volume,
    Float.log (1 + m.codeLines.toFloat)]

/-- The features as a vector. -/
def toVector (m : Measures) : Vector :=
  ⟨schema, names, m.values⟩

end Measures

/-- A stretch of lines and the tokens that start on them. -/
structure Region where
  /-- Row of the first line in the whole text. -/
  first : Nat
  lines : List (List Char)
  tokens : List Token

namespace Region

/-- The tokens that start on a line, counted from the first one of the region. -/
def tokensOn (r : Region) (line : Nat) : List Token :=
  r.tokens.filter fun t => t.startRow == r.first + line

/-- The numbers of the lines that show something. -/
def codeRows (r : Region) : List Nat :=
  (r.lines.zipIdx.filter fun line => isCode line.1).map (·.2)

/-- The lines that show something. -/
def codeLines (r : Region) : List (List Char) :=
  r.lines.filter isCode

/-- Whether a comment reaches a line. -/
def isCommented (r : Region) (line : Nat) : Bool :=
  r.tokens.any fun t =>
    t.kind == .comment && t.startRow ≤ r.first + line && r.first + line ≤ t.lastRow

/-- A counter on a line. -/
def count (r : Region) (counter : Counter) (line : Nat) : Nat :=
  (r.tokensOn line).countP (counts counter)

/-- The blocks around the first token of a line. -/
def depth? (r : Region) (line : Nat) : Option Nat :=
  (r.tokensOn line).head?.map (·.depth)

/-- All measures of a region. -/
def measures (r : Region) : Measures :=
  let base := baseIndentation r.lines
  let rows := r.codeRows
  let code := r.codeLines
  let words := vocabulary r.tokens
  { lineLength := .ofList (code.map (lineLength base))
    indentation := .ofList (code.map (indentBeyond base))
    spaces := (code.map innerSpaces).foldl Nat.add 0
    perLine := fun counter => .ofList (rows.map (r.count counter))
    identifierLength :=
      .ofList ((r.tokens.filter fun t => t.kind == .identifier).map fun t => t.text.length)
    nesting := .ofList (rows.filterMap r.depth?)
    commentLines := rows.countP r.isCommented
    codeLines := code.length
    allLines := r.lines.length
    words := words.length
    distinctWords := words.eraseDups.length }

/-- The rows `first` to `last` of a text with the tokens on them; nothing when the rows are not rows
of the text or a comment ends before it starts. -/
def cut? (lines : List (List Char)) (first last : Nat) (tokens : List Token) : Option Region :=
  if first ≤ lines.length - 1 then
    let last := min (max last first) (lines.length - 1)
    let inside := tokens.filter fun t => first ≤ t.startRow && t.startRow ≤ last
    if inside.all fun t => t.kind != .comment || t.startRow ≤ t.lastRow then
      some ⟨first, (lines.drop first).take (last + 1 - first), inside⟩
    else none
  else none

end Region

/-- The features of the rows `first` to `last` with the tokens of a node. -/
def compute? (src : SourceText) (lines : List (List Char)) (parentKind : String) (tree : Tree)
    (first last : Nat) : Option (Except UnitError Vector) :=
  (Region.cut? lines first last (tree.tokens src parentKind)).map fun region =>
    if region.codeLines.isEmpty then .error (.parse "unit contains no code")
    else .ok region.measures.toVector

/-- A function and its features. -/
structure ScopedFeatures where
  span : ScopeSpan
  features : Vector
deriving Inhabited

/-- The first fault of a list of results, or all of them. -/
def allOk : List (Option (Except UnitError α)) → Option (Except UnitError (List α))
  | [] => some (.ok [])
  | none :: _ => none
  | some (.error e) :: _ => some (.error e)
  | some (.ok a) :: rest =>
    match allOk rest with
    | none => none
    | some (.error e) => some (.error e)
    | some (.ok as) => some (.ok (a :: as))

/-- The features of a whole unit; nothing when its tree does not fit its text. -/
def extract? (parser : Parser) (u : SourceUnit) : Option (Except UnitError Vector) :=
  match u.prepare with
  | .error e => some (.error e)
  | .ok (text, language) =>
    match parseSource parser language text with
    | .error e => some (.error e)
    | .ok tree =>
      let src := SourceText.ofString text
      let lines := Text.splitLines src.chars
      compute? src lines "" tree 0 (lines.length - 1)

/-- The features of each function of a unit. -/
def extractScopes? (parser : Parser) (u : SourceUnit) :
    Option (Except UnitError (List ScopedFeatures)) :=
  match u.prepare with
  | .error e => some (.error e)
  | .ok (text, language) =>
    match parseSource parser language text with
    | .error e => some (.error e)
    | .ok tree =>
      let src := SourceText.ofString text
      let lines := Text.splitLines src.chars
      allOk ((tree.scopes src language).map fun scope =>
        let first := src.row scope.tree.info.start
        let last := min (src.row scope.tree.info.stop) (lines.length - 1)
        (compute? src lines scope.parentKind scope.tree first last).map fun result =>
          result.map fun features => ⟨scope.span, features⟩)

/-- What a unit is told whose tree does not fit its text, which no parser gives. -/
def misfit : UnitError :=
  .parse "tree does not fit the text"

/-- The features of a whole unit. -/
def extract (parser : Parser) (u : SourceUnit) : Except UnitError Vector :=
  (extract? parser u).getD (.error misfit)

/-- The features of each function of a unit. -/
def extractScopes (parser : Parser) (u : SourceUnit) : Except UnitError (List ScopedFeatures) :=
  (extractScopes? parser u).getD (.error misfit)

end Readability.Feature
