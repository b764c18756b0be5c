import Readability.Source.Token

/-!
What is counted on a line. Each token adds to the counters of the row it starts on; comments add to
none of them, but mark every row they reach.
-/

namespace Readability.Feature

open Readability.Source

/-- Marks that compare two values. -/
def comparisons : List String :=
  ["==", "!=", "===", "!==", "<", ">", "<=", ">=", "<>"]

/-- Marks that assign a value. -/
def assignments : List String :=
  ["=", "+=", "-=", "*=", "/=", "%=", "&=", "|=", "^=", "<<=", ">>=", ">>>=", ":=", "**=", "//=",
    "??=", "&&=", "||="]

/-- Words that branch. -/
def branchWords : List String :=
  ["if", "else", "elif", "switch", "case", "match", "catch", "except", "select", "?"]

/-- Words that loop. -/
def loopWords : List String :=
  ["for", "while", "do", "loop", "foreach"]

/-- Whether angle marks are brackets of type arguments inside nodes of that kind. -/
def isTypeContext (parentKind : String) : Bool :=
  mentions parentKind "type" || mentions parentKind "generic"

/-- Counters of a line. -/
inductive Counter where
  | identifiers
  | keywords
  | numbers
  | parentheses
  | periods
  | commas
  | comparisons
  | assignments
  | branches
  | loops
deriving Repr, DecidableEq

/-- Whether a token adds one to a counter. -/
def counts (counter : Counter) (t : Token) : Bool :=
  let text := String.ofList t.text
  match t.kind, counter with
  | .identifier, .identifiers => true
  | .number, .numbers => true
  | .keyword, .keywords => true
  | .keyword, .branches => branchWords.contains text
  | .keyword, .loops => loopWords.contains text
  | .symbol, .parentheses => text == "("
  | .symbol, .periods => text == "." || text == "?."
  | .symbol, .commas => text == ","
  | .symbol, .branches => text == "?"
  | .symbol, .comparisons => Feature.comparisons.contains text && !isTypeContext t.parentKind
  | .symbol, .assignments => Feature.assignments.contains text
  | _, _ => false

/-- Words that act: keywords and marks. -/
def isOperator (t : Token) : Bool :=
  t.kind == .keyword || t.kind == .symbol

/-- Words that are acted on: names and literals. -/
def isOperand (t : Token) : Bool :=
  t.kind == .identifier || t.kind == .number || t.kind == .string

/-- What the program's text is made of, comments left out. -/
def vocabulary (tokens : List Token) : List (List Char) :=
  (tokens.filter fun t => isOperator t || isOperand t).map (·.text)

end Readability.Feature
