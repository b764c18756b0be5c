import Mathlib
import Readability.Proofs.Addresses
import Readability.Proofs.CommentedLines

/-!
# Tokens as a flattened tree

Comments and literals are opaque: they are tokens, and nothing below them is. Elsewhere the
tokens are the leaves that show something (`Tree.isTokenAt`). The walk for tokens, which
carries the depth and the kind of the parent down with it, is a walk along the addresses of
the tree that reads both off the nodes above an address (`tokensFrom_eq_filterMap`).

Main statement: `tokens_flattened`. The tokens of a tree are those of its nodes that are
tokens, in order and each once, and they do not depend on what is below the opaque nodes.
-/

namespace Readability.Source

/-- Whether a walk for tokens does not look below a node. -/
def NodeInfo.isOpaque (info : NodeInfo) : Bool :=
  info.isComment || info.isString

namespace Tree

/-- What a node is as a token, if no node above it is opaque. -/
def tokenClass? (src : SourceText) (t : Tree) : Option TokenClass :=
  if t.info.isComment then some .comment
  else if t.info.isString then some .string
  else if t.children.isEmpty then classifyLeaf src t.info
  else none

/-- The token at an address, in a walk that starts at a depth and below a parent of a kind. -/
def tokenAt? (src : SourceText) (depth : Nat) (parentKind : String) (t : Tree) (p : List Nat) :
    Option Token :=
  if (t.above p).any fun a => a.info.isOpaque then none
  else (t.at? p).bind fun n => (n.tokenClass? src).map fun kind =>
    .ofNode src kind (depth + (t.above p).countP fun a => a.info.isBlock)
      (((t.above p).getLast?.map Tree.kind).getD parentKind) n.info

/-- Whether the node at an address is a token: no node above it is a comment or a literal, and it is
a comment, a literal, or a leaf that shows something. -/
def isTokenAt (src : SourceText) (t : Tree) (p : List Nat) : Bool :=
  ((t.above p).all fun a => !a.info.isComment && !a.info.isString) &&
    (t.at? p).any fun n => n.info.isComment || n.info.isString ||
      n.children.isEmpty && (classifyLeaf src n.info).isSome

/-- The token is that of the node at an address: it covers what the node covers, and its depth is
the number of blocks above. -/
def IsTokenOf (src : SourceText) (parentKind : String) (t : Tree) (p : List Nat) (token : Token) :
    Prop :=
  ∃ n kind, t.at? p = some n ∧ n.tokenClass? src = some kind ∧
    token = .ofNode src kind ((t.above p).countP fun a => a.info.isBlock)
      (((t.above p).getLast?.map Tree.kind).getD parentKind) n.info

mutual

/-- The tree without what is below its comments and literals. -/
def pruned : Tree → Tree
  | node info children => node info (if info.isOpaque then [] else prunedAll children)

/-- Each of some trees without what is below its comments and literals. -/
def prunedAll : List Tree → List Tree
  | [] => []
  | child :: siblings => child.pruned :: prunedAll siblings

end

variable {src : SourceText}

theorem tokenAt?_nil (depth : Nat) (parentKind : String) (t : Tree) :
    t.tokenAt? src depth parentKind [] =
      (t.tokenClass? src).map fun kind => .ofNode src kind depth parentKind t.info := rfl

/-- Below an opaque node is no token. -/
theorem tokenAt?_cons_of_isOpaque {t : Tree} (h : t.info.isOpaque = true) (depth : Nat)
    (parentKind : String) (i : Nat) (p : List Nat) :
    t.tokenAt? src depth parentKind (i :: p) = none := by
  rw [tokenAt?, above, List.any_cons, h]
  rfl

/-- Below another node tokens are those of its children, which stand deeper below a block. -/
theorem tokenAt?_cons {t child : Tree} (h : t.info.isOpaque = false) (depth : Nat)
    (parentKind : String) {i : Nat} (hchild : t.children[i]? = some child) (p : List Nat) :
    t.tokenAt? src depth parentKind (i :: p) =
      child.tokenAt? src (if t.info.isBlock then depth + 1 else depth) t.kind p := by
  rw [tokenAt?, tokenAt?, above_cons hchild, at?_cons_of_getElem? hchild, List.any_cons, h,
    Bool.false_or, List.countP_cons, List.getLast?_cons]
  have hdepth : ∀ blocks : Nat, depth + (blocks + if t.info.isBlock = true then 1 else 0) =
      (if t.info.isBlock = true then depth + 1 else depth) + blocks := by
    intro blocks
    split <;> omega
  have hparent : ((some ((child.above p).getLast?.getD t)).map Tree.kind).getD parentKind =
      (((child.above p).getLast?.map Tree.kind).getD t.kind) := by
    cases (child.above p).getLast? <;> rfl
  rw [hdepth, hparent]

/-- **The walk for tokens is a walk along the addresses.** -/
theorem tokensFrom_eq_filterMap (t : Tree) (depth : Nat) (parentKind : String) :
    t.tokensFrom src depth parentKind =
      t.addresses.filterMap (t.tokenAt? src depth parentKind) := by
  induction t using byChildren generalizing depth parentKind with
  | node info children ih =>
    rcases hclosed : info.isOpaque with _ | _
    · obtain ⟨hcomment, hstring⟩ := Bool.or_eq_false_iff.mp hclosed
      have hwalk := filterMap_addresses info children
        (f := (node info children).tokenAt? src depth parentKind) fun hchild p =>
          tokenAt?_cons (t := node info children) hclosed depth parentKind hchild p
      have hclass : (node info children).tokenClass? src =
          if children.isEmpty then classifyLeaf src info else none := by
        rw [tokenClass?, Tree.info, Tree.children, hcomment, hstring]
        rfl
      rw [hwalk, tokenAt?_nil, hclass]
      rcases hchildren : children.isEmpty with _ | _
      · have hne : (node info children).children ≠ [] := List.isEmpty_eq_false_iff.mp hchildren
        rw [tokensFrom_of_children (node info children) hcomment hstring hne,
          tokensBelow_eq_flatMap]
        exact List.flatMap_congr fun child hchild => ih child hchild _ _
      · obtain rfl := List.isEmpty_iff.mp hchildren
        unfold tokensFrom
        rw [hcomment, hstring]
        dsimp only
        rcases classifyLeaf src info with _ | kind <;> rfl
    · have hwalk := filterMap_addresses info children
        (f := (node info children).tokenAt? src depth parentKind) (g := fun _ _ => none)
        fun {i _} _ p =>
          tokenAt?_cons_of_isOpaque (t := node info children) hclosed depth parentKind i p
      have hnone : (children.flatMap fun child => child.addresses.filterMap fun _ =>
          (none : Option Token)) = [] :=
        List.flatMap_eq_nil_iff.mpr fun child _ => List.filterMap_eq_nil_iff.mpr fun _ _ => rfl
      rw [hwalk, hnone, List.append_nil, tokenAt?_nil, tokenClass?]
      unfold tokensFrom
      rw [Tree.info]
      rcases hcomment : info.isComment with _ | _
      · rw [NodeInfo.isOpaque, hcomment, Bool.false_or] at hclosed
        rw [hclosed]
        rfl
      · rfl

/-! ## What stands for a token -/

theorem isSome_tokenClass? (t : Tree) : (t.tokenClass? src).isSome =
    (t.info.isComment || t.info.isString ||
      t.children.isEmpty && (classifyLeaf src t.info).isSome) := by
  rw [tokenClass?]
  cases t.info.isComment <;> cases t.info.isString <;> cases t.children.isEmpty <;> rfl

theorem isSome_tokenAt? (depth : Nat) (parentKind : String) (t : Tree) (p : List Nat) :
    (t.tokenAt? src depth parentKind p).isSome = t.isTokenAt src p := by
  have hopen : ((t.above p).all fun a => !a.info.isComment && !a.info.isString) =
      !(t.above p).any fun a => a.info.isOpaque := by
    rw [List.not_any_eq_all_not]
    simp only [NodeInfo.isOpaque, Bool.not_or]
  rw [tokenAt?, isTokenAt, hopen]
  rcases (t.above p).any fun a => a.info.isOpaque with _ | _
  · rcases t.at? p with _ | n
    · rfl
    · rw [if_neg Bool.false_ne_true, Option.bind_some, Option.isSome_map, isSome_tokenClass?]
      rfl
  · rfl

theorem isTokenOf_of_tokenAt? {parentKind : String} {t : Tree} {p : List Nat} {token : Token}
    (h : t.tokenAt? src 0 parentKind p = some token) : t.IsTokenOf src parentKind p token := by
  rw [tokenAt?] at h
  split at h
  · cases h
  · obtain ⟨n, hn, h⟩ := Option.bind_eq_some_iff.mp h
    obtain ⟨kind, hkind, rfl⟩ := Option.map_eq_some_iff.mp h
    rw [Nat.zero_add]
    exact ⟨n, kind, hn, hkind, rfl⟩

/-! ## What is below comments and literals -/

theorem prunedAll_eq_map (ts : List Tree) : prunedAll ts = ts.map pruned := by
  induction ts with
  | nil => rfl
  | cons t ts ih => rw [prunedAll, ih, List.map_cons]

/-- **Tokens do not depend on what is below comments and literals.** -/
theorem tokensFrom_pruned (t : Tree) (depth : Nat) (parentKind : String) :
    t.pruned.tokensFrom src depth parentKind = t.tokensFrom src depth parentKind := by
  induction t using byChildren generalizing depth parentKind with
  | node info children ih =>
    rw [pruned]
    rcases hclosed : info.isOpaque with _ | _
    · obtain ⟨hcomment, hstring⟩ := Bool.or_eq_false_iff.mp hclosed
      rw [if_neg Bool.false_ne_true, prunedAll_eq_map]
      rcases eq_or_ne children [] with rfl | hne
      · rfl
      · rw [tokensFrom_of_children (node info (children.map pruned)) hcomment hstring
            (mt List.map_eq_nil_iff.mp hne),
          tokensFrom_of_children (node info children) hcomment hstring hne,
          tokensBelow_eq_flatMap, tokensBelow_eq_flatMap]
        show (children.map pruned).flatMap _ = _
        rw [List.flatMap_map]
        exact List.flatMap_congr fun child hchild => ih child hchild _ _
    · rw [if_pos rfl]
      unfold tokensFrom
      rcases hcomment : info.isComment with _ | _
      · rw [NodeInfo.isOpaque, hcomment, Bool.false_or] at hclosed
        rw [hclosed]
        rfl
      · rfl

/-- **The tokens are the flattened tree.** There is one for each node that is a token, that is, for
each comment, each literal and each leaf that shows something, unless a comment or a literal is
above it. They stand in preorder, which is the order of their rows where the nodes are nested, and
the depth of each is the number of blocks above it, from the root on. Trees that are the same but
for what is below comments and literals have the same tokens. -/
theorem tokens_flattened (src : SourceText) (parentKind : String) (t : Tree) :
    (∃ entries, Enumerates entries (t.isTokenAt src) (t.tokens src parentKind) ∧
        ∀ e ∈ entries, t.IsTokenOf src parentKind e.1 e.2) ∧
      (∀ first last, t.Nested first last →
        (t.tokens src parentKind).Pairwise fun token later => token.startRow ≤ later.startRow) ∧
      ∀ t' : Tree, t'.pruned = t.pruned → t'.tokens src parentKind = t.tokens src parentKind := by
  have hplace : ∀ p, (t.tokenAt? src 0 parentKind p).isSome → (t.at? p).isSome := by
    intro p hp
    rw [isSome_tokenAt?, isTokenAt, Bool.and_eq_true, Option.any_eq_true] at hp
    obtain ⟨-, n, hn, -⟩ := hp
    exact Option.isSome_of_eq_some hn
  have hwalk : t.tokens src parentKind =
      t.addresses.filterMap (t.tokenAt? src 0 parentKind) := t.tokensFrom_eq_filterMap 0 parentKind
  have henumerates := enumerates_entriesOf hplace
  rw [← hwalk, funext fun p => isSome_tokenAt? 0 parentKind t p] at henumerates
  refine ⟨⟨_, henumerates, fun e he => isTokenOf_of_tokenAt? ((mem_entriesOf hplace).mp he)⟩,
    fun first last hnested => ?_, fun t' hpruned => ?_⟩
  · have hordered := henumerates.ordered
    rw [← henumerates.elements, List.pairwise_map]
    rw [List.pairwise_map] at hordered
    refine hordered.imp_of_mem fun {e e'} he he' hlt => ?_
    obtain ⟨n, _, hn, -, hnode⟩ := isTokenOf_of_tokenAt? ((mem_entriesOf hplace).mp he)
    obtain ⟨m, _, hm, -, hlater⟩ := isTokenOf_of_tokenAt? ((mem_entriesOf hplace).mp he')
    rw [hnode, hlater]
    exact src.row_mono (hnested.start_le_of_lt hn hm hlt)
  · calc t'.tokens src parentKind
        = t'.pruned.tokens src parentKind := (t'.tokensFrom_pruned 0 parentKind).symm
      _ = t.pruned.tokens src parentKind := by rw [hpruned]
      _ = t.tokens src parentKind := t.tokensFrom_pruned 0 parentKind

/-- A block with a literal and a name, and a comment behind it, over `{"q" x}//c`. -/
def quotedBlock (inLiteral inComment : List Tree) : Tree :=
  let leaf (kind : String) (named : Bool) (start stop : Nat) : Tree :=
    .node ⟨kind, named, false, false, start, stop, .none⟩ []
  .node ⟨"source_file", true, false, false, 0, 10, .none⟩
    [.node ⟨"block", true, false, false, 0, 7, .none⟩
      [leaf "\x7b" false 0 1,
        .node ⟨"string_literal", true, false, false, 1, 4, .none⟩ inLiteral,
        leaf "identifier" true 5 6, leaf "\x7d" false 6 7],
      .node ⟨"line_comment", true, false, false, 7, 10, .none⟩ inComment]

/-- The text of the literal is a node of its own. -/
def quotedContent : Tree :=
  .node ⟨"string_content", true, false, false, 2, 3, .none⟩ []

/-- The literal is one token in the block, whether its text is a node or not. -/
theorem tokens_flattened_quotedBlock :
    let src := SourceText.ofString "\x7b\"q\" x\x7d//c"
    let t := quotedBlock [quotedContent] []
    (t.tokens src "").map (fun token => (token.kind, token.text, token.depth)) =
        [(.symbol, ['\x7b'], 1), (.string, ['"', 'q', '"'], 1), (.identifier, ['x'], 1),
          (.symbol, ['\x7d'], 1), (.comment, ['/', '/', 'c'], 0)] ∧
      (∃ entries, Enumerates entries (t.isTokenAt src) (t.tokens src "") ∧
        ∀ e ∈ entries, t.IsTokenOf src "" e.1 e.2) ∧
      (t.tokens src "").Pairwise (fun token later => token.startRow ≤ later.startRow) ∧
      (quotedBlock [] [quotedContent]).tokens src "" = t.tokens src "" := by
  intro src t
  have hnested : t.Nested 0 10 := by decide
  have hpruned : (quotedBlock [] [quotedContent]).pruned = t.pruned := by rfl
  obtain ⟨hentries, hrows, hsame⟩ := tokens_flattened src "" t
  exact ⟨by decide +kernel, hentries, hrows 0 10 hnested, hsame _ hpruned⟩

end Tree

end Readability.Source
