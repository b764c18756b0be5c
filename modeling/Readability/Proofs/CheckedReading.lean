import Mathlib
import Readability.Proofs.NestedNodes

/-!
# Reading a tree with checks

Some operations have no result for some arguments: a difference that would be negative, a
clamp between bounds that are crossed, a quotient by zero, rows that are none, and the text
between two offsets that are crossed or lie behind the text. Here they are made with a
check, and give nothing there (`sub?`, `clamp?`, `quotient?`, `slice?`, `textOf?`).

The walks for tokens and for functions read the text of a node only so. Where all nodes lie
in the text, no check fails, and they come to the tokens (`tokensFrom?_eq`) and to the
functions (`scopesFrom?_eq`) that are found without checks.
-/

namespace Readability.Checked

open Readability.Source

/-! ## Checked operations -/

/-- A difference. -/
def sub? (a b : Nat) : Option Nat :=
  if b ≤ a then some (a - b) else none

/-- A number brought between two bounds. -/
def clamp? (x low high : Nat) : Option Nat :=
  if low ≤ high then some (min (max x low) high) else none

/-- A quotient. -/
def quotient? (a b : Nat) : Option Float :=
  if b = 0 then none else some (a.toFloat / b.toFloat)

/-- The elements from one place to another, of which there is at least one. -/
def slice? {α : Type} (l : List α) (first last : Nat) : Option (List α) :=
  if first ≤ last ∧ last < l.length then some ((l.drop first).take (last + 1 - first)) else none

/-- What a node covers, if it lies in the text; inside there is still none when an offset falls
inside a character. -/
def textOf? (src : SourceText) (info : NodeInfo) : Option (Option (List Char)) :=
  if info.start ≤ info.stop ∧ info.stop ≤ Text.byteCount src.chars then some (src.covered info)
  else none

/-- Nodes that lie in the text, none of which ends before it starts. -/
def InText (src : SourceText) (nodes : List NodeInfo) : Prop :=
  ∀ n ∈ nodes, n.Within 0 (Text.byteCount src.chars)

theorem sub?_of_le {a b : Nat} (h : b ≤ a) : sub? a b = some (a - b) :=
  if_pos h

theorem clamp?_of_le {low high : Nat} (h : low ≤ high) (x : Nat) :
    clamp? x low high = some (min (max x low) high) :=
  if_pos h

theorem quotient?_of_pos {b : Nat} (h : 0 < b) (a : Nat) :
    quotient? a b = some (a.toFloat / b.toFloat) :=
  if_neg (Nat.ne_of_gt h)

theorem slice?_of_le {α : Type} {l : List α} {first last : Nat} (horder : first ≤ last)
    (hlast : last < l.length) :
    slice? l first last = some ((l.drop first).take (last + 1 - first)) :=
  if_pos ⟨horder, hlast⟩

section Texts

variable {src : SourceText} {n : NodeInfo} (h : n.Within 0 (Text.byteCount src.chars))

include h

theorem textOf?_eq : textOf? src n = some (src.covered n) :=
  if_pos ⟨h.order, h.stop⟩

end Texts

/-! ## Tokens -/

/-- The token that a node as a whole stands for. -/
def token? (src : SourceText) (kind : TokenClass) (depth : Nat) (parentKind : String)
    (info : NodeInfo) : Option Token := do
  let text ← textOf? src info
  return {
    kind := kind
    text := text.getD []
    startRow := src.row info.start
    endRow := src.row info.stop
    endColumn := src.column info.stop
    depth := depth
    parentKind := parentKind }

/-- The last row that holds text of a token. -/
def lastRow? (t : Token) : Option Nat :=
  if t.endColumn == 0 && t.startRow < t.endRow then sub? t.endRow 1 else some t.endRow

mutual

/-- The tokens at and below a node. -/
def tokensFrom? (src : SourceText) (depth : Nat) (parentKind : String) :
    Tree → Option (List Token)
  | .node info children =>
    if info.isComment then (token? src .comment depth parentKind info).map ([·])
    else if info.isString then (token? src .string depth parentKind info).map ([·])
    else
      match children with
      | [] => do
        let text ← textOf? src info
        match text.bind (classifyText info) with
        | some kind => (token? src kind depth parentKind info).map ([·])
        | none => some []
      | first :: rest =>
        tokensBelow? src (if info.isBlock then depth + 1 else depth) info.kind (first :: rest)

/-- The tokens of some siblings. -/
def tokensBelow? (src : SourceText) (depth : Nat) (parentKind : String) :
    List Tree → Option (List Token)
  | [] => some []
  | child :: siblings => do
    let own ← tokensFrom? src depth parentKind child
    let others ← tokensBelow? src depth parentKind siblings
    return own ++ others

end

/-- A row behind another has one in front of it. -/
theorem lastRow?_eq (t : Token) : lastRow? t = some t.lastRow := by
  rw [lastRow?, Token.lastRow]
  split
  · next hlater =>
    have hlt := of_decide_eq_true (Bool.and_eq_true_iff.mp hlater).2
    exact sub?_of_le (Nat.succ_le_of_lt (Nat.lt_of_le_of_lt (Nat.zero_le _) hlt))
  · rfl

variable {src : SourceText}

theorem token?_eq {n : NodeInfo} (h : n.Within 0 (Text.byteCount src.chars)) (kind : TokenClass)
    (depth : Nat) (parentKind : String) :
    token? src kind depth parentKind n = some (.ofNode src kind depth parentKind n) := by
  rw [token?, textOf?_eq h]
  rfl

mutual

/-- **The walk for tokens passes all checks** when the nodes lie in the text. -/
theorem tokensFrom?_eq (depth : Nat) (parentKind : String) :
    ∀ {t : Tree}, InText src t.nodes →
      tokensFrom? src depth parentKind t = some (t.tokensFrom src depth parentKind)
  | .node info children, h => by
    obtain ⟨hinfo, hbelow⟩ := List.forall_mem_cons.mp h
    unfold tokensFrom? Tree.tokensFrom
    split
    · rw [token?_eq hinfo]
      rfl
    · split
      · rw [token?_eq hinfo]
        rfl
      · cases children with
        | nil =>
          dsimp only
          rw [textOf?_eq hinfo, classifyLeaf]
          rcases hleaf : (src.covered info).bind (classifyText info) with _ | kind
          · simp only [Option.bind_eq_bind, Option.bind_some, hleaf]
          · simp only [Option.bind_eq_bind, Option.bind_some, hleaf, token?_eq hinfo,
              Option.map_some]
        | cons first rest => exact tokensBelow?_eq _ _ hbelow

theorem tokensBelow?_eq (depth : Nat) (parentKind : String) :
    ∀ {ts : List Tree}, InText src (Tree.nodesBelow ts) →
      tokensBelow? src depth parentKind ts = some (Tree.tokensBelow src depth parentKind ts)
  | [], _ => by rw [tokensBelow?, Tree.tokensBelow]
  | _ :: _, h => by
    obtain ⟨hchild, hsiblings⟩ := List.forall_mem_append.mp h
    rw [tokensBelow?, tokensFrom?_eq depth parentKind hchild,
      tokensBelow?_eq depth parentKind hsiblings, Tree.tokensBelow]
    rfl

end

/-! ## Functions -/

/-- The name of a function. -/
def scopeName? (src : SourceText) (language : Language) (parent : Option Tree) (t : Tree) :
    Option String :=
  match t.nameNode? language parent with
  | some n => (textOf? src n).map fun
    | some name => String.ofList name
    | none => "<anonymous>"
  | none => some "<anonymous>"

mutual

/-- The functions at and below a node. -/
def scopesFrom? (src : SourceText) (language : Language) (parent : Option Tree) :
    Tree → Option (List Scope)
  | .node info children =>
    if language.isScope info.kind (Tree.kindOf parent) then do
      let name ← scopeName? src language parent (.node info children)
      let below ← scopesBelow? src language (.node info children) children
      return ⟨.node info children, Tree.kindOf parent,
        ⟨name, info.kind, src.row info.start + 1, src.row info.stop + 1⟩⟩ :: below
    else scopesBelow? src language (.node info children) children

/-- The functions of some siblings. -/
def scopesBelow? (src : SourceText) (language : Language) (parent : Tree) :
    List Tree → Option (List Scope)
  | [] => some []
  | child :: siblings => do
    let own ← scopesFrom? src language (some parent) child
    let others ← scopesBelow? src language parent siblings
    return own ++ others

end

mutual

theorem innermostDeclarator_mem : ∀ t : Tree, t.innermostDeclarator ∈ t.nodes
  | .node info children => by
    rw [Tree.innermostDeclarator, Tree.nodes, List.mem_cons]
    exact innermostAmong_mem info children

theorem innermostAmong_mem (own : NodeInfo) :
    ∀ ts : List Tree, Tree.innermostAmong own ts = own ∨
      Tree.innermostAmong own ts ∈ Tree.nodesBelow ts
  | [] => .inl (by rw [Tree.innermostAmong])
  | child :: siblings => by
    rw [Tree.innermostAmong, Tree.nodesBelow]
    split
    · exact .inr (List.mem_append_left _ (innermostDeclarator_mem child))
    · exact (innermostAmong_mem own siblings).imp_right (List.mem_append_right _)

end

/-- The name of a function stands in the function or in the node around it. -/
theorem mem_of_nameNode? {language : Language} {parent : Option Tree} {t : Tree} {n : NodeInfo}
    (h : t.nameNode? language parent = some n) :
    n ∈ t.nodes ∨ ∃ p, parent = some p ∧ n ∈ p.nodes := by
  have hchild : ∀ {role} {t child : Tree}, t.child? role = some child → child.nodes ⊆ t.nodes :=
    fun hfound => Tree.nodes_subset_of_mem_children (List.mem_of_find?_eq_some hfound)
  have hdeclarator : (t.child? .declarator).map Tree.innermostDeclarator = some n →
      n ∈ t.nodes := by
    intro hmap
    obtain ⟨child, hfound, rfl⟩ := Option.map_eq_some_iff.mp hmap
    exact hchild hfound (innermostDeclarator_mem child)
  unfold Tree.nameNode? at h
  split at h
  · exact .inl (hdeclarator h)
  · exact .inl (hdeclarator h)
  · split at h
    · next name hfound =>
      obtain rfl := Option.some.inj h
      exact .inl (hchild hfound name.info_mem_nodes)
    · split at h
      · obtain ⟨name, hbind, rfl⟩ := Option.map_eq_some_iff.mp h
        obtain ⟨p, hp, hfound⟩ := Option.bind_eq_some_iff.mp hbind
        exact .inr ⟨p, hp, hchild hfound name.info_mem_nodes⟩
      · cases h

theorem scopeName?_eq {parent : Option Tree} {t : Tree} (language : Language)
    (h : InText src t.nodes) (hparent : ∀ p, parent = some p → InText src p.nodes) :
    scopeName? src language parent t = some (t.scopeName src language parent) := by
  rw [scopeName?, Tree.scopeName]
  rcases hname : t.nameNode? language parent with _ | n
  · rfl
  · have hn : n.Within 0 (Text.byteCount src.chars) := by
      rcases mem_of_nameNode? hname with hmem | ⟨p, hp, hmem⟩
      · exact h n hmem
      · exact hparent p hp n hmem
    rcases hcovered : src.covered n with _ | name <;>
      simp only [textOf?_eq hn, hcovered, Option.map_some, Option.bind_some]

mutual

/-- **The walk for functions passes all checks** when the nodes lie in the text. -/
theorem scopesFrom?_eq (language : Language) (parent : Option Tree)
    (hparent : ∀ p, parent = some p → InText src p.nodes) :
    ∀ {t : Tree}, InText src t.nodes →
      scopesFrom? src language parent t = some (t.scopesFrom src language parent)
  | .node info children, h => by
    have hbelow := scopesBelow?_eq language (.node info children) h
      (List.forall_mem_cons.mp h).2
    rw [scopesFrom?, Tree.scopesFrom, hbelow]
    split
    · rw [scopeName?_eq language h hparent]
      rfl
    · rfl

theorem scopesBelow?_eq (language : Language) (parent : Tree)
    (hparent : InText src parent.nodes) :
    ∀ {ts : List Tree}, InText src (Tree.nodesBelow ts) →
      scopesBelow? src language parent ts = some (Tree.scopesBelow src language parent ts)
  | [], _ => by rw [scopesBelow?, Tree.scopesBelow]
  | _ :: _, h => by
    obtain ⟨hchild, hsiblings⟩ := List.forall_mem_append.mp h
    have howner : ∀ p, some parent = some p → InText src p.nodes := fun p hp =>
      Option.some.inj hp ▸ hparent
    rw [scopesBelow?, scopesFrom?_eq language (some parent) howner hchild,
      scopesBelow?_eq language parent hparent hsiblings, Tree.scopesBelow]
    rfl

end

end Readability.Checked
