import Readability.Text.Cut
import Readability.Text.Lines
import Readability.Source.Language
import Readability.Source.UnitError

/-!
Trees over source text. A node covers a range of bytes; rows and columns follow from the line feeds
in front of an offset. A tree with errors is refused with the line of its first one.
-/

namespace Readability.Source

/-- What a node's parent uses it for. -/
inductive Role where
  | none
  | name
  | declarator
deriving Repr, DecidableEq, Inhabited

/-- What is known of a node besides its children. -/
structure NodeInfo where
  kind : String
  named : Bool
  /-- The parser put the node in where the text lacks it. -/
  missing : Bool
  /-- There is an error at or below the node. -/
  hasError : Bool
  /-- Offset of the first byte. -/
  start : Nat
  /-- Offset behind the last byte. -/
  stop : Nat
  role : Role
deriving Repr, DecidableEq, Inhabited

/-- A node and its children. -/
inductive Tree where
  | node (info : NodeInfo) (children : List Tree)
deriving Inhabited

namespace Tree

/-- The node itself. -/
def info : Tree → NodeInfo
  | node info _ => info

/-- The children. -/
def children : Tree → List Tree
  | node _ children => children

/-- The node's kind. -/
def kind (t : Tree) : String :=
  t.info.kind

/-- The tree of nodes in preorder, each with the number of its children. -/
def ofPreorder (nodes : List (NodeInfo × Nat)) : Option Tree :=
  (nodes.foldr (fun n later => .node n.1 (later.take n.2) :: later.drop n.2) []).head?

/-- The first child in that role. -/
def child? (role : Role) (t : Tree) : Option Tree :=
  t.children.find? fun child => child.info.role == role

end Tree

/-- A parser: the tree of a text, if there is one. -/
abbrev Parser := Language → String → Option Tree

/-- Line feeds in front of an offset. -/
def rowAt (feeds : List Nat) (offset : Nat) : Nat :=
  feeds.countP (· < offset)

/-- Bytes between an offset and the last line feed in front of it. -/
def columnAt (feeds : List Nat) (offset : Nat) : Nat :=
  match (feeds.filter (· < offset)).getLast? with
  | some feed => offset - (feed + 1)
  | none => offset

/-- A text with the places of its line feeds. -/
structure SourceText where
  chars : List Char
  feeds : List Nat
deriving Repr

namespace SourceText

/-- A text with the places of its line feeds. -/
def ofChars (chars : List Char) : SourceText :=
  ⟨chars, Text.feedOffsets 0 chars⟩

/-- A string with the places of its line feeds. -/
def ofString (s : String) : SourceText :=
  ofChars s.toList

/-- The row of an offset. -/
def row (src : SourceText) (offset : Nat) : Nat :=
  rowAt src.feeds offset

/-- The column of an offset. -/
def column (src : SourceText) (offset : Nat) : Nat :=
  columnAt src.feeds offset

/-- The characters a node covers. -/
def covered (src : SourceText) (info : NodeInfo) : Option (List Char) :=
  if info.stop < info.start then none
  else (Text.dropBytes info.start src.chars).bind (Text.takeBytes (info.stop - info.start))

end SourceText

namespace Tree

/-- Whether the node stands for text that the grammar could not place or that is missing. -/
def isFault (info : NodeInfo) : Bool :=
  info.kind == "ERROR" || info.missing

mutual

/-- The offset of the first fault, looked for only below nodes that are marked to have one. -/
def firstFault? : Tree → Option Nat
  | node info children => if isFault info then some info.start else firstFaultIn? children

/-- The first fault below some siblings. -/
def firstFaultIn? : List Tree → Option Nat
  | [] => none
  | child :: siblings =>
    if child.info.hasError then
      match firstFault? child with
      | some offset => some offset
      | none => firstFaultIn? siblings
    else firstFaultIn? siblings

end

end Tree

/-- The tree of a text that has no errors. -/
def parseSource (parser : Parser) (language : Language) (text : String) : Except UnitError Tree :=
  match parser language text with
  | none => .error (.parse (language.name ++ " parser produced no tree"))
  | some tree =>
    if tree.info.hasError then
      let line := match tree.firstFault? with
        | some offset => (SourceText.ofString text).row offset + 1
        | none => 1
      .error (.parse (language.name ++ " syntax error near line " ++ toString line))
    else .ok tree

end Readability.Source
