import Readability.Data.Json.Printer
import Readability.Decimal.Fixed
import Readability.Report.Document
import Readability.Text.Blank

/-!
Templates written by users: plain text with tags in double braces. A tag names a field of the
report, or opens or closes a section, which is repeated for each item of a list, shown once for a
value, and left out for none. Inside a section names are looked up in its item first and then
further out.

`Template.parse` takes a text apart into nodes and checks every name against a report that has all
its fields, so that a template that was accepted finds what it asks for.
-/

namespace Readability.Render

open Readability.Data

/-- What a tag is for. -/
inductive Sigil where
  | field
  | openSection
  | closeSection
deriving Repr, DecidableEq

/-- A tag and the path it names. -/
structure Tag where
  sigil : Sigil
  path : List Char
deriving Repr, DecidableEq

/-- A stretch of text between tags, or a tag. -/
inductive Piece where
  | text (chars : List Char)
  | tag (tag : Tag)
deriving Repr, DecidableEq

/-- A part of a template. -/
inductive Node where
  | text (chars : List Char)
  | field (path : List Char)
  | repeated (path : List Char) (body : List Node)
deriving Repr

/-- Why a text is no template. -/
inductive TemplateFault where
  | neverOpened (path : List Char)
  | closedBy (opened path : List Char)
  | neverClosed (opened : List Char)
  | unknownField (path : List Char)
  | unknownSection (path : List Char)
deriving Repr, DecidableEq

namespace TemplateFault

/-- A closing tag as it is written. -/
def closing (path : List Char) : String :=
  "\x7b\x7b/" ++ String.ofList path ++ "\x7d\x7d"

/-- The fault in words. -/
def message : TemplateFault → String
  | neverOpened path => "'" ++ closing path ++ "' closes a section that was never opened"
  | closedBy opened path =>
    "section '" ++ String.ofList opened ++ "' closed by '" ++ closing path ++ "'"
  | neverClosed opened => "section '" ++ String.ofList opened ++ "' is never closed"
  | unknownField path => "unknown field '" ++ String.ofList path ++ "'"
  | unknownSection path => "unknown section '" ++ String.ofList path ++ "'"

end TemplateFault

/-- A letter without accents, or an underscore: what a path may start with. -/
def isPathStart (c : Char) : Bool :=
  c.isAlpha || c == '_'

/-- What a path may go on with. -/
def isPathChar (c : Char) : Bool :=
  c.isAlphanum || c == '_' || c == '.'

/-- The sigil at the front of a tag's inside. -/
def readSigil : List Char → Sigil × List Char
  | '#' :: rest => (.openSection, rest)
  | '/' :: rest => (.closeSection, rest)
  | cs => (.field, cs)

/-- The path at the front of a text, if there is one. -/
def readPath (cs : List Char) : Option (List Char × List Char) :=
  match cs with
  | [] => none
  | c :: _ =>
    if isPathStart c then some (cs.takeWhile isPathChar, cs.dropWhile isPathChar) else none

/-- The tag at the front of a text, and what is behind it. -/
def readTag : List Char → Option (Tag × List Char)
  | '{' :: '{' :: cs =>
    let (sigil, cs) := readSigil (Text.trimStart cs)
    match readPath (Text.trimStart cs) with
    | none => none
    | some (path, cs) =>
      match Text.trimStart cs with
      | '}' :: '}' :: rest => some (⟨sigil, path⟩, rest)
      | _ => none
  | _ => none

/-- Puts a character in front of some pieces. -/
def consChar (c : Char) : List Piece → List Piece
  | .text chars :: rest => .text (c :: chars) :: rest
  | pieces => .text [c] :: pieces

/-- The pieces of a text; `skip` counts characters that belong to a tag already read. -/
def piecesFrom (skip : Nat) : List Char → List Piece
  | [] => []
  | c :: cs =>
    match skip with
    | k + 1 => piecesFrom k cs
    | 0 =>
      match readTag (c :: cs) with
      | some (tag, rest) => .tag tag :: piecesFrom (cs.length - rest.length) cs
      | none => consChar c (piecesFrom 0 cs)

/-- A section that was opened: its path, and the nodes in front of it. -/
structure Opened where
  path : List Char
  before : List Node

/-- Builds nodes from pieces; `opened` holds the open sections, the innermost first, and `nodes`
what was read inside of it so far. -/
def nest (opened : List Opened) (nodes : List Node) : List Piece → Except TemplateFault (List Node)
  | [] =>
    match opened with
    | [] => .ok nodes
    | top :: _ => .error (.neverClosed top.path)
  | .text chars :: rest => nest opened (nodes ++ [.text chars]) rest
  | .tag ⟨.field, path⟩ :: rest => nest opened (nodes ++ [.field path]) rest
  | .tag ⟨.openSection, path⟩ :: rest => nest (⟨path, nodes⟩ :: opened) [] rest
  | .tag ⟨.closeSection, path⟩ :: rest =>
    match opened with
    | [] => .error (.neverOpened path)
    | top :: outer =>
      if top.path == path then nest outer (top.before ++ [.repeated path nodes]) rest
      else .error (.closedBy top.path path)

/-- The nodes of a text. -/
def parseNodes (source : List Char) : Except TemplateFault (List Node) :=
  nest [] [] (piecesFrom 0 source)

/-- The value under a name, if the value is a record that has it. -/
def member? (name : String) : Value → Option Value
  | .record entries => (entries.find? fun e => e.1 == name).map (·.2)
  | _ => none

/-- The names in a path. -/
def segments (path : List Char) : List String :=
  (String.ofList path).splitOn "."

/-- The value a path leads to from the innermost context that has its first name. -/
def lookup? (contexts : List Value) (path : List Char) : Option Value :=
  match segments path with
  | [] => none
  | first :: rest =>
    (contexts.findSome? (member? first)).bind fun v =>
      rest.foldl (fun v? name => v?.bind (member? name)) (some v)

mutual

/-- Checks that a node asks only for what there is. -/
def checkNode (contexts : List Value) : Node → Except TemplateFault Unit
  | .text _ => .ok ()
  | .field path => if (lookup? contexts path).isSome then .ok () else .error (.unknownField path)
  | .repeated path body =>
    match lookup? contexts path with
    | none => .error (.unknownSection path)
    | some (.list (item :: _)) => checkNodes (item :: contexts) body
    | some (.record entries) => checkNodes (.record entries :: contexts) body
    | some _ => checkNodes contexts body

/-- Checks some nodes in order. -/
def checkNodes (contexts : List Value) : List Node → Except TemplateFault Unit
  | [] => .ok ()
  | node :: rest =>
    match checkNode contexts node with
    | .ok () => checkNodes contexts rest
    | .error fault => .error fault

end

mutual

/-- A value with the entries of its records in the order of their names. -/
def sorted : Value → Value
  | .list items => .list (sortedItems items)
  | .record entries => .record ((sortedEntries entries).mergeSort fun a b => a.1 ≤ b.1)
  | v => v

/-- Sorts the records inside some items. -/
def sortedItems : List Value → List Value
  | [] => []
  | item :: rest => sorted item :: sortedItems rest

/-- Sorts the records inside some entries. -/
def sortedEntries : List (String × Value) → List (String × Value)
  | [] => []
  | (name, v) :: rest => (name, sorted v) :: sortedEntries rest

end

/-- A value as a template shows it: numbers with four places, lists and records as JSON. -/
def display : Value → String
  | .null => ""
  | .bool b => if b then "true" else "false"
  | .int n => toString n
  | .float x => if Decimal.isFinite x then Decimal.fixed 4 x else ""
  | .text s => s
  | v => Json.compact (sorted v)

/-- Whether a value that is neither list nor record shows its section. -/
def isShown : Value → Bool
  | .bool b => b
  | .int _ => true
  | .float x => Decimal.isFinite x
  | .text s => s != ""
  | _ => false

mutual

/-- The text of a node. -/
def renderNode (contexts : List Value) : Node → String
  | .text chars => String.ofList chars
  | .field path =>
    match lookup? contexts path with
    | some v => display v
    | none => ""
  | .repeated path body =>
    match lookup? contexts path with
    | some (.list items) => String.join (items.map fun item => renderNodes (item :: contexts) body)
    | some (.record entries) => renderNodes (.record entries :: contexts) body
    | some v => if isShown v then renderNodes contexts body else ""
    | none => ""

/-- The texts of some nodes. -/
def renderNodes (contexts : List Value) : List Node → String
  | [] => ""
  | node :: rest => renderNode contexts node ++ renderNodes contexts rest

end

/-- A report in which every field has a value and every list one item. -/
def fullReport : Report :=
  let unit : Source.UnitId := ⟨"", "", some ⟨"", "", 1, 1⟩⟩
  { runId := ""
    generatedAt := .epoch
    repository := ""
    range := ""
    model := .blank
    state := .aggregating
    isPartial := false
    revisionsWalked := 0
    records := [⟨unit, .rust, ⟨"", [""], [0]⟩, 0, .medium, .epoch⟩]
    failures := [⟨unit, .parse ""⟩]
    summary := ⟨0, 0, some 0, some 0, some 0, some 0, some 0, ⟨0, 0, 0⟩⟩
    files := [⟨"", 0, 0, 0, 0⟩]
    revisions := [⟨"", .epoch, 0, 0, some 0⟩] }

/-- The ending of files that hold templates. -/
def templateExtension : String := "tmpl"

/-- A template that was checked. -/
structure UserTemplate where
  name : String
  nodes : List Node

namespace UserTemplate

/-- Reads a template and checks it. -/
def check (source : String) : Except TemplateFault (List Node) := do
  let nodes ← parseNodes source.toList
  checkNodes [fullReport.toValue] nodes
  return nodes

/-- Reads a template under its name. -/
def parse (name source : String) : Except FatalError UserTemplate :=
  match check source with
  | .ok nodes => .ok ⟨name, nodes⟩
  | .error fault => .error (.template (name ++ "." ++ templateExtension ++ ": " ++ fault.message))

/-- The report as the template shows it. -/
def render (t : UserTemplate) (r : Report) : String :=
  renderNodes [r.toValue] t.nodes

end UserTemplate

end Readability.Render
