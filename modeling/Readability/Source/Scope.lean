import Readability.Source.UnitId
import Readability.Source.Tree

/-!
Functions of a tree, in source order. A function inside another one is listed after it.
-/

namespace Readability.Source

/-- A function: its node, the kind of the node around it, and its span. -/
structure Scope where
  tree : Tree
  parentKind : String
  span : ScopeSpan
deriving Inhabited

namespace Language

/-- Whether a language writes functions as values of variables, under the variable's name. -/
def namesByVariable : Language → Bool
  | javaScript | typeScript | tsx => true
  | _ => false

/-- Whether a node is a function that is rated on its own. A function that is a value counts when a
variable holds it. -/
def isScope (language : Language) (kind parentKind : String) : Bool :=
  match language with
  | rust => kind == "function_item"
  | python | c | cpp => kind == "function_definition"
  | java => ["method_declaration", "constructor_declaration"].contains kind
  | cSharp =>
    ["method_declaration", "constructor_declaration", "local_function_statement"].contains kind
  | go => ["function_declaration", "method_declaration"].contains kind
  | javaScript | typeScript | tsx =>
    ["function_declaration", "generator_function_declaration", "method_definition"].contains kind
      || (["arrow_function", "function_expression", "function"].contains kind
        && parentKind == "variable_declarator")

end Language

namespace Tree

mutual

/-- The innermost declarator inside a declarator. -/
def innermostDeclarator : Tree → NodeInfo
  | node info children => innermostAmong info children

/-- The innermost declarator below the first declarator of some siblings, or the one given. -/
def innermostAmong (own : NodeInfo) : List Tree → NodeInfo
  | [] => own
  | child :: siblings =>
    if child.info.role == .declarator then innermostDeclarator child
    else innermostAmong own siblings

end

/-- The node that holds a function's name. -/
def nameNode? (language : Language) (parent : Option Tree) (t : Tree) : Option NodeInfo :=
  match language with
  | .c | .cpp => (t.child? .declarator).map innermostDeclarator
  | _ =>
    match t.child? .name with
    | some name => some name.info
    | none =>
      if language.namesByVariable then
        (parent.bind (·.child? .name)).map (·.info)
      else none

/-- The name of a function. -/
def scopeName (src : SourceText) (language : Language) (parent : Option Tree) (t : Tree) : String :=
  match (t.nameNode? language parent).bind src.covered with
  | some name => String.ofList name
  | none => "<anonymous>"

/-- A node's span of lines. -/
def span (src : SourceText) (language : Language) (parent : Option Tree) (t : Tree) :
    ScopeSpan where
  name := t.scopeName src language parent
  kind := t.kind
  startLine := src.row t.info.start + 1
  endLine := src.row t.info.stop + 1

/-- The kind of a parent, blank for none. -/
def kindOf (parent : Option Tree) : String :=
  match parent with
  | some t => t.kind
  | none => ""

mutual

/-- The functions at and below a node. -/
def scopesFrom (src : SourceText) (language : Language) (parent : Option Tree) : Tree → List Scope
  | node info children =>
    let below := scopesBelow src language (node info children) children
    if language.isScope info.kind (kindOf parent) then
      ⟨node info children, kindOf parent, span src language parent (node info children)⟩ :: below
    else below

/-- The functions of some siblings. -/
def scopesBelow (src : SourceText) (language : Language) (parent : Tree) : List Tree → List Scope
  | [] => []
  | child :: siblings =>
    scopesFrom src language (some parent) child ++ scopesBelow src language parent siblings

end

/-- The functions of a tree. -/
def scopes (src : SourceText) (language : Language) (t : Tree) : List Scope :=
  scopesFrom src language none t

end Tree

end Readability.Source
