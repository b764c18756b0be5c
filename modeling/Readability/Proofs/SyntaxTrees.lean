import Mathlib
import Readability.Source.Scope
import Readability.Source.Token

/-!
# Trees of one shape

Two trees are alike under a relation of nodes when they have one shape and each node is
related to the one in its place. A walk over a tree that reads of a node only what related
nodes have in common comes to the same in both: tokens correspond one to one
(`forall₂_tokensFrom`), so do functions (`forall₂_scopesFrom`), and the first fault is in
the same place (`map_firstFault?`).
-/

namespace Readability.Source

namespace Tree

mutual

/-- The nodes at and below a node, in source order. -/
def nodes : Tree → List NodeInfo
  | node info children => info :: nodesBelow children

/-- The nodes of some siblings. -/
def nodesBelow : List Tree → List NodeInfo
  | [] => []
  | child :: siblings => nodes child ++ nodesBelow siblings

end

mutual

/-- Trees of one shape, each node related to the one in its place. -/
inductive Alike (R : NodeInfo → NodeInfo → Prop) : Tree → Tree → Prop
  | node {info info' : NodeInfo} {children children' : List Tree} (hinfo : R info info')
    (hchildren : AlikeAll R children children') :
    Alike R (.node info children) (.node info' children')

/-- As many siblings, each alike the one in its place. -/
inductive AlikeAll (R : NodeInfo → NodeInfo → Prop) : List Tree → List Tree → Prop
  | nil : AlikeAll R [] []
  | cons {child child' : Tree} {siblings siblings' : List Tree} (hchild : Alike R child child')
    (hsiblings : AlikeAll R siblings siblings') :
    AlikeAll R (child :: siblings) (child' :: siblings')

end

variable {R : NodeInfo → NodeInfo → Prop}

theorem Alike.info {t t' : Tree} (h : Alike R t t') : R t.info t'.info := by
  cases h with
  | node hinfo => exact hinfo

theorem Alike.children {t t' : Tree} (h : Alike R t t') : AlikeAll R t.children t'.children := by
  cases h with
  | node _ hchildren => exact hchildren

theorem AlikeAll.ne_nil {ts ts' : List Tree} (h : AlikeAll R ts ts') (hne : ts ≠ []) :
    ts' ≠ [] := by
  cases h with
  | nil => exact absurd rfl hne
  | cons => exact List.cons_ne_nil _ _

mutual

/-- A relation may be changed by what holds of all nodes of the first tree. -/
theorem Alike.imp {S : NodeInfo → NodeInfo → Prop} {P : NodeInfo → Prop}
    (himp : ∀ {n n'}, R n n' → P n → S n n') :
    ∀ {t t' : Tree}, Alike R t t' → (∀ n ∈ t.nodes, P n) → Alike S t t'
  | .node _ _, .node _ _, h, hall => by
    cases h with
    | node hinfo hchildren =>
      obtain ⟨hhead, hbelow⟩ := List.forall_mem_cons.mp hall
      exact .node (himp hinfo hhead) (hchildren.imp himp hbelow)

theorem AlikeAll.imp {S : NodeInfo → NodeInfo → Prop} {P : NodeInfo → Prop}
    (himp : ∀ {n n'}, R n n' → P n → S n n') :
    ∀ {ts ts' : List Tree}, AlikeAll R ts ts' → (∀ n ∈ nodesBelow ts, P n) → AlikeAll S ts ts'
  | [], _, h, _ => by
    cases h with
    | nil => exact .nil
  | _ :: _, _, h, hall => by
    cases h with
    | cons hchild hsiblings =>
      obtain ⟨hhead, hbelow⟩ := List.forall_mem_append.mp hall
      exact .cons (hchild.imp himp hhead) (hsiblings.imp himp hbelow)

end

mutual

/-- A tree is alike itself when its nodes are related to themselves. -/
theorem Alike.refl : ∀ {t : Tree}, (∀ n ∈ t.nodes, R n n) → Alike R t t
  | .node _ _, h => by
    obtain ⟨hhead, hbelow⟩ := List.forall_mem_cons.mp h
    exact .node hhead (AlikeAll.refl hbelow)

theorem AlikeAll.refl : ∀ {ts : List Tree}, (∀ n ∈ nodesBelow ts, R n n) → AlikeAll R ts ts
  | [], _ => .nil
  | _ :: _, h => by
    obtain ⟨hhead, hbelow⟩ := List.forall_mem_append.mp h
    exact .cons (Alike.refl hhead) (AlikeAll.refl hbelow)

end

/-! ## Tokens -/

/-- What a walk for tokens reads of related nodes is the same, up to what they cover, and
the tokens that they stand for correspond. -/
structure SameReading (src src' : SourceText) (R : NodeInfo → NodeInfo → Prop)
    (Q : Token → Token → Prop) : Prop where
  kind : ∀ {n n'}, R n n' → n'.kind = n.kind
  named : ∀ {n n'}, R n n' → n'.named = n.named
  leaf : ∀ {n n'}, R n n' → classifyLeaf src' n' = classifyLeaf src n
  token : ∀ {n n'}, R n n' → ∀ kind depth parentKind,
    (kind = .identifier → n.isIdentifier = true) →
      Q (.ofNode src kind depth parentKind n) (.ofNode src' kind depth parentKind n')

/-- Only names are read as names. -/
theorem isIdentifier_of_classifyLeaf {src : SourceText} {n : NodeInfo}
    (h : classifyLeaf src n = some .identifier) : n.isIdentifier = true := by
  obtain ⟨text, -, htext⟩ := Option.bind_eq_some_iff.mp h
  unfold classifyText at htext
  grind

variable {src src' : SourceText} {Q : Token → Token → Prop}

mutual

/-- **Trees that read the same have corresponding tokens.** -/
theorem forall₂_tokensFrom (hreading : SameReading src src' R Q) (depth : Nat)
    (parentKind : String) : ∀ {t t' : Tree}, Alike R t t' →
      List.Forall₂ Q (tokensFrom src depth parentKind t) (tokensFrom src' depth parentKind t')
  | .node info children, .node info' children', h => by
    cases h with
    | node hinfo hchildren =>
      have hkind := hreading.kind hinfo
      have hcomment : info'.isComment = info.isComment := by
        rw [NodeInfo.isComment, NodeInfo.isComment, hkind]
      have hstring : info'.isString = info.isString := by
        rw [NodeInfo.isString, NodeInfo.isString, hkind, hreading.named hinfo]
      have hblock : info'.isBlock = info.isBlock := by
        rw [NodeInfo.isBlock, NodeInfo.isBlock, hkind]
      unfold tokensFrom
      rw [hcomment, hstring, hblock, hkind]
      split
      · exact .cons (hreading.token hinfo _ _ _ nofun) .nil
      · split
        · exact .cons (hreading.token hinfo _ _ _ nofun) .nil
        · cases hchildren with
          | nil =>
            -- the only tokens that can be names are leaves
            dsimp only
            rw [hreading.leaf hinfo]
            rcases hleaf : classifyLeaf src info with _ | kind
            · exact .nil
            · refine .cons (hreading.token hinfo _ _ _ ?_) .nil
              rintro rfl
              exact isIdentifier_of_classifyLeaf hleaf
          | cons hchild hsiblings =>
            exact forall₂_tokensBelow hreading _ _ (.cons hchild hsiblings)

theorem forall₂_tokensBelow (hreading : SameReading src src' R Q) (depth : Nat)
    (parentKind : String) : ∀ {ts ts' : List Tree}, AlikeAll R ts ts' →
      List.Forall₂ Q (tokensBelow src depth parentKind ts) (tokensBelow src' depth parentKind ts')
  | [], _, h => by
    cases h with
    | nil => exact .nil
  | _ :: _, _, h => by
    cases h with
    | cons hchild hsiblings =>
      exact List.rel_append (forall₂_tokensFrom hreading depth parentKind hchild)
        (forall₂_tokensBelow hreading depth parentKind hsiblings)

end

mutual

/-- Each token stands for a node. -/
theorem exists_node_of_mem_tokensFrom {token : Token} (depth : Nat) (parentKind : String) :
    ∀ {t : Tree}, token ∈ tokensFrom src depth parentKind t →
      ∃ n ∈ t.nodes, ∃ kind depth parentKind, token = .ofNode src kind depth parentKind n
  | .node info children, htoken => by
    have hown : ∀ kind, token ∈ [Token.ofNode src kind depth parentKind info] →
        ∃ n ∈ (node info children).nodes, ∃ kind depth parentKind,
          token = .ofNode src kind depth parentKind n := fun kind hmem =>
      ⟨info, List.mem_cons_self, kind, depth, parentKind, List.mem_singleton.mp hmem⟩
    unfold tokensFrom at htoken
    split at htoken
    · exact hown _ htoken
    · split at htoken
      · exact hown _ htoken
      · split at htoken
        · split at htoken
          · exact hown _ htoken
          · cases htoken
        · obtain ⟨n, hn, hnode⟩ := exists_node_of_mem_tokensBelow _ _ htoken
          exact ⟨n, List.mem_cons_of_mem _ hn, hnode⟩

theorem exists_node_of_mem_tokensBelow {token : Token} (depth : Nat) (parentKind : String) :
    ∀ {ts : List Tree}, token ∈ tokensBelow src depth parentKind ts →
      ∃ n ∈ nodesBelow ts, ∃ kind depth parentKind, token = .ofNode src kind depth parentKind n
  | [], htoken => by
    rw [tokensBelow] at htoken
    cases htoken
  | _ :: _, htoken => by
    rw [tokensBelow] at htoken
    rcases List.mem_append.mp htoken with hchild | hsiblings
    · obtain ⟨n, hn, hnode⟩ := exists_node_of_mem_tokensFrom _ _ hchild
      exact ⟨n, List.mem_append_left _ hn, hnode⟩
    · obtain ⟨n, hn, hnode⟩ := exists_node_of_mem_tokensBelow _ _ hsiblings
      exact ⟨n, List.mem_append_right _ hn, hnode⟩

end

/-- A node with children that is read as no token has the tokens of its children. -/
theorem tokensFrom_of_children (t : Tree) (hcomment : t.info.isComment = false)
    (hstring : t.info.isString = false) (hchildren : t.children ≠ []) (depth : Nat)
    (parentKind : String) :
    tokensFrom src depth parentKind t =
      tokensBelow src (if t.info.isBlock then depth + 1 else depth) t.kind t.children := by
  obtain ⟨info, _ | ⟨first, rest⟩⟩ := t
  · exact absurd rfl hchildren
  · change info.isComment = false at hcomment
    change info.isString = false at hstring
    unfold tokensFrom
    rw [hcomment, hstring]
    rfl

/-! ## Faults -/

/-- What a walk for faults reads of related nodes is the same, and they start in the same
place. -/
structure SameFaults {α : Type} (place place' : Nat → α) (R : NodeInfo → NodeInfo → Prop) :
    Prop where
  kind : ∀ {n n'}, R n n' → n'.kind = n.kind
  missing : ∀ {n n'}, R n n' → n'.missing = n.missing
  hasError : ∀ {n n'}, R n n' → n'.hasError = n.hasError
  start : ∀ {n n'}, R n n' → place' n'.start = place n.start

variable {α : Type} {place place' : Nat → α}

mutual

/-- **The first fault is in the same place.** -/
theorem map_firstFault? (hfaults : SameFaults place place' R) : ∀ {t t' : Tree}, Alike R t t' →
    t'.firstFault?.map place' = t.firstFault?.map place
  | .node info children, .node info' children', h => by
    cases h with
    | node hinfo hchildren =>
      have hfault : isFault info' = isFault info := by
        rw [isFault, isFault, hfaults.kind hinfo, hfaults.missing hinfo]
      rw [firstFault?, firstFault?, hfault]
      split
      · exact congrArg some (hfaults.start hinfo)
      · exact map_firstFaultIn? hfaults hchildren

theorem map_firstFaultIn? (hfaults : SameFaults place place' R) :
    ∀ {ts ts' : List Tree}, AlikeAll R ts ts' →
      (firstFaultIn? ts').map place' = (firstFaultIn? ts).map place
  | [], _, h => by
    cases h with
    | nil => rfl
  | child :: _, child' :: _, h => by
    cases h with
    | cons hchild hsiblings =>
      have hfirst := map_firstFault? hfaults hchild
      have hrest := map_firstFaultIn? hfaults hsiblings
      rw [firstFaultIn?, firstFaultIn?, hfaults.hasError hchild.info]
      split
      · rcases hfault : child.firstFault? with _ | offset <;>
          rcases hfault' : child'.firstFault? with _ | offset' <;> rw [hfault, hfault'] at hfirst
        · exact hrest
        · cases hfirst
        · cases hfirst
        · exact hfirst
      · exact hrest

end

/-! ## Functions -/

mutual

/-- Whatever is listed is a function for what it and the node around it are. -/
theorem isScope_of_mem_scopesFrom {language : Language} {s : Scope} (parent : Option Tree) :
    ∀ {t : Tree}, s ∈ scopesFrom src language parent t →
      language.isScope s.tree.kind s.parentKind = true
  | .node info children, hs => by
    rw [scopesFrom] at hs
    split at hs
    · next hscope =>
      rcases List.mem_cons.mp hs with rfl | hbelow
      · exact hscope
      · exact isScope_of_mem_scopesBelow _ hbelow
    · exact isScope_of_mem_scopesBelow _ hs

theorem isScope_of_mem_scopesBelow {language : Language} {s : Scope} (parent : Tree) :
    ∀ {ts : List Tree}, s ∈ scopesBelow src language parent ts →
      language.isScope s.tree.kind s.parentKind = true
  | [], hs => by
    rw [scopesBelow] at hs
    cases hs
  | _ :: _, hs => by
    rw [scopesBelow] at hs
    rcases List.mem_append.mp hs with hchild | hsiblings
    · exact isScope_of_mem_scopesFrom _ hchild
    · exact isScope_of_mem_scopesBelow _ hsiblings

end

mutual

/-- The nodes of a function are nodes of the tree it is in. -/
theorem nodes_subset_of_mem_scopesFrom {language : Language} {s : Scope} (parent : Option Tree) :
    ∀ {t : Tree}, s ∈ scopesFrom src language parent t → s.tree.nodes ⊆ t.nodes
  | .node info children, hs => by
    have hbelow : s ∈ scopesBelow src language (node info children) children →
        s.tree.nodes ⊆ (node info children).nodes := fun hmem _ hn =>
      List.mem_cons_of_mem _ (nodes_subset_of_mem_scopesBelow _ hmem hn)
    rw [scopesFrom] at hs
    split at hs
    · rcases List.mem_cons.mp hs with rfl | hmem
      · exact List.Subset.refl _
      · exact hbelow hmem
    · exact hbelow hs

theorem nodes_subset_of_mem_scopesBelow {language : Language} {s : Scope} (parent : Tree) :
    ∀ {ts : List Tree}, s ∈ scopesBelow src language parent ts → s.tree.nodes ⊆ nodesBelow ts
  | [], hs => by
    rw [scopesBelow] at hs
    cases hs
  | _ :: _, hs => by
    rw [scopesBelow] at hs
    rcases List.mem_append.mp hs with hchild | hsiblings
    · exact List.Subset.trans (nodes_subset_of_mem_scopesFrom _ hchild)
        (List.subset_append_left _ _)
    · exact List.Subset.trans (nodes_subset_of_mem_scopesBelow _ hsiblings)
        (List.subset_append_right _ _)

end

/-- The kinds of functions in some language. -/
def scopeKinds : List String :=
  ["function_item", "function_definition", "method_declaration", "constructor_declaration",
    "local_function_statement", "function_declaration", "generator_function_declaration",
    "method_definition", "arrow_function", "function_expression", "function"]

/-- No function is a comment or a literal. -/
theorem not_token_of_isScope {language : Language} {n : NodeInfo} {parentKind : String}
    (h : language.isScope n.kind parentKind = true) :
    n.isComment = false ∧ n.isString = false := by
  have hkind : n.kind ∈ scopeKinds := by
    cases language <;> simp only [Language.isScope, List.contains_cons, List.contains_nil,
      Bool.or_eq_true, Bool.and_eq_true, beq_iff_eq, Bool.or_false] at h <;>
      simp only [scopeKinds, List.mem_cons, List.not_mem_nil] <;> tauto
  have hnone : ∀ kind ∈ scopeKinds, (kind == "comment" || endsWith kind "_comment") = false ∧
      (mentions kind "string" || ["char_literal", "character_literal", "rune_literal",
        "text_block"].contains kind) = false := by decide +kernel
  obtain ⟨hcomment, hstring⟩ := hnone _ hkind
  refine ⟨hcomment, ?_⟩
  rw [NodeInfo.isString, hstring, Bool.and_false]

/-- Functions that are alike, on the same lines. -/
structure SameScope (R : NodeInfo → NodeInfo → Prop) (s s' : Scope) : Prop where
  tree : Alike R s.tree s'.tree
  parentKind : s'.parentKind = s.parentKind
  kind : s'.span.kind = s.span.kind
  startLine : s'.span.startLine = s.span.startLine
  endLine : s'.span.endLine = s.span.endLine

/-- What a walk for functions reads of related nodes is the same, and they lie on the same
rows. -/
structure SameRows (src src' : SourceText) (R : NodeInfo → NodeInfo → Prop) : Prop where
  kind : ∀ {n n'}, R n n' → n'.kind = n.kind
  start : ∀ {n n'}, R n n' → src'.row n'.start = src.row n.start
  stop : ∀ {n n'}, R n n' → src'.row n'.stop = src.row n.stop

mutual

/-- **Trees that are alike have functions that are alike.** -/
theorem forall₂_scopesFrom (hrows : SameRows src src' R) (language : Language)
    (parent parent' : Option Tree) (hparent : kindOf parent' = kindOf parent) :
    ∀ {t t' : Tree}, Alike R t t' →
      List.Forall₂ (SameScope R) (scopesFrom src language parent t)
        (scopesFrom src' language parent' t')
  | .node info children, .node info' children', h => by
    cases h with
    | node hinfo hchildren =>
      have hkind := hrows.kind hinfo
      have hbelow := forall₂_scopesBelow hrows language (.node info children)
        (.node info' children') hkind hchildren
      rw [scopesFrom, scopesFrom, hkind, hparent]
      split
      · refine .cons ⟨.node hinfo hchildren, rfl, hkind, ?_, ?_⟩ hbelow
        · exact congrArg (· + 1) (hrows.start hinfo)
        · exact congrArg (· + 1) (hrows.stop hinfo)
      · exact hbelow

theorem forall₂_scopesBelow (hrows : SameRows src src' R) (language : Language)
    (parent parent' : Tree) (hparent : parent'.kind = parent.kind) :
    ∀ {ts ts' : List Tree}, AlikeAll R ts ts' →
      List.Forall₂ (SameScope R) (scopesBelow src language parent ts)
        (scopesBelow src' language parent' ts')
  | [], _, h => by
    cases h with
    | nil => exact .nil
  | _ :: _, _, h => by
    cases h with
    | cons hchild hsiblings =>
      exact List.rel_append
        (forall₂_scopesFrom hrows language (some parent) (some parent') hparent hchild)
        (forall₂_scopesBelow hrows language parent parent' hparent hsiblings)

end

end Tree

end Readability.Source
