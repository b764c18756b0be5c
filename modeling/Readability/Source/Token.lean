import Readability.Text.Letters
import Readability.Source.Tree

/-!
The tokens of a tree. Comments and string literals are one token each and are not looked into; below
all other nodes the leaves are taken that show something. A token knows how many blocks it stands
in, counted from the node the walk started at.
-/

namespace Readability.Source

/-- What a token is. -/
inductive TokenClass where
  | comment
  | string
  | number
  | identifier
  | keyword
  /-- An operator or a mark. -/
  | symbol
deriving Repr, DecidableEq, Inhabited

/-- A token and where it stands. -/
structure Token where
  kind : TokenClass
  text : List Char
  startRow : Nat
  endRow : Nat
  endColumn : Nat
  /-- Blocks around the token. -/
  depth : Nat
  /-- Kind of the node the token is a child of. -/
  parentKind : String
deriving Repr, DecidableEq, Inhabited

namespace Token

/-- The last row that holds text of the token: one that ends where a row starts ends on the row
before. -/
def lastRow (t : Token) : Nat :=
  if t.endColumn == 0 && t.startRow < t.endRow then t.endRow - 1 else t.endRow

end Token

/-- Whether some characters stand one after the other among others. -/
def occursIn (word : List Char) : List Char → Bool
  | [] => word.isEmpty
  | c :: cs => word.isPrefixOf (c :: cs) || occursIn word cs

/-- Whether a kind contains a word. -/
def mentions (kind word : String) : Bool :=
  occursIn word.toList kind.toList

/-- Whether a kind ends with a word. -/
def endsWith (kind word : String) : Bool :=
  word.toList.isSuffixOf kind.toList

namespace NodeInfo

/-- A comment. -/
def isComment (info : NodeInfo) : Bool :=
  info.kind == "comment" || endsWith info.kind "_comment"

/-- A literal of text or of one character. -/
def isString (info : NodeInfo) : Bool :=
  info.named && (mentions info.kind "string"
    || ["char_literal", "character_literal", "rune_literal", "text_block"].contains info.kind)

/-- A literal of a number. -/
def isNumber (info : NodeInfo) : Bool :=
  mentions info.kind "integer" || mentions info.kind "float" || mentions info.kind "number"
    || ["int_literal", "real_literal", "imaginary_literal"].contains info.kind

/-- A node that opens a level of nesting. -/
def isBlock (info : NodeInfo) : Bool :=
  info.kind == "block" || endsWith info.kind "_block" || endsWith info.kind "_body"
    || ["compound_statement", "declaration_list", "field_declaration_list",
        "enum_variant_list"].contains info.kind

/-- The name of something. -/
def isIdentifier (info : NodeInfo) : Bool :=
  endsWith info.kind "identifier" || info.kind == "name"

end NodeInfo

/-- What a leaf with that text is; nothing if the text does not show. -/
def classifyText (info : NodeInfo) (text : List Char) : Option TokenClass :=
  match text with
  | [] => none
  | first :: _ =>
    if Text.allBlank text then none
    else
      let word := text.all Text.isWordChar
      if info.named then
        if info.isIdentifier then some .identifier
        else if first.isDigit || info.isNumber then some .number
        else if word then some .keyword
        else some .symbol
      else if word && !first.isDigit then some .keyword
      else some .symbol

/-- What a leaf is. -/
def classifyLeaf (src : SourceText) (info : NodeInfo) : Option TokenClass :=
  (src.covered info).bind (classifyText info)

/-- The token that a node as a whole stands for. -/
def Token.ofNode (src : SourceText) (kind : TokenClass) (depth : Nat) (parentKind : String)
    (info : NodeInfo) : Token where
  kind := kind
  text := (src.covered info).getD []
  startRow := src.row info.start
  endRow := src.row info.stop
  endColumn := src.column info.stop
  depth := depth
  parentKind := parentKind

namespace Tree

mutual

/-- The tokens at and below a node. -/
def tokensFrom (src : SourceText) (depth : Nat) (parentKind : String) : Tree → List Token
  | node info children =>
    if info.isComment then [.ofNode src .comment depth parentKind info]
    else if info.isString then [.ofNode src .string depth parentKind info]
    else
      match children with
      | [] =>
        match classifyLeaf src info with
        | some kind => [.ofNode src kind depth parentKind info]
        | none => []
      | first :: rest =>
        tokensBelow src (if info.isBlock then depth + 1 else depth) info.kind (first :: rest)

/-- The tokens of some siblings. -/
def tokensBelow (src : SourceText) (depth : Nat) (parentKind : String) : List Tree → List Token
  | [] => []
  | child :: siblings =>
    tokensFrom src depth parentKind child ++ tokensBelow src depth parentKind siblings

end

/-- The tokens at and below a node whose own parent is of the given kind. -/
def tokens (src : SourceText) (parentKind : String) (t : Tree) : List Token :=
  tokensFrom src 0 parentKind t

end Tree

end Readability.Source
