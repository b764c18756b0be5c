import Mathlib
import Readability.Proofs.FinalFeed
import Readability.Proofs.Relocation

/-!
# Nodes in each other

A tree is nested when each node lies in the one around it and siblings lie side by side
(`Tree.Nested`). Then every node lies in its root, so that all tokens of a node start and
end on its rows. A region of these rows shows the node (`Region.Shows`): nothing of it is
passed over, be it the root (`Region.shows_whole`) or a function
(`Region.shows_ofScope`).
-/

namespace Readability.Source

namespace Tree

mutual

/-- A tree between two offsets, its nodes in each other, and siblings side by side. -/
def Nested (first last : Nat) : Tree → Prop
  | node info children => info.Within first last ∧ NestedBelow info.start info.stop children

/-- Siblings side by side between two offsets. -/
def NestedBelow (first last : Nat) : List Tree → Prop
  | [] => True
  | child :: siblings => Nested first last child ∧ NestedBelow child.info.stop last siblings

end

mutual

/-- Whether a tree is nested can be decided. -/
def decidableNested : ∀ (first last : Nat) (t : Tree), Decidable (t.Nested first last)
  | first, last, node info children =>
    @instDecidableAnd (info.Within first last) _ inferInstance
      (decidableNestedBelow info.start info.stop children)

/-- Whether siblings are nested can be decided. -/
def decidableNestedBelow : ∀ (first last : Nat) (ts : List Tree),
    Decidable (NestedBelow first last ts)
  | _, _, [] => isTrue trivial
  | first, last, child :: siblings =>
    @instDecidableAnd _ _ (decidableNested first last child)
      (decidableNestedBelow child.info.stop last siblings)

end

instance (first last : Nat) (t : Tree) : Decidable (t.Nested first last) :=
  decidableNested first last t

theorem info_mem_nodes (t : Tree) : t.info ∈ t.nodes := by
  obtain ⟨info, children⟩ := t
  exact List.mem_cons_self

theorem nodesBelow_eq_flatMap (ts : List Tree) : nodesBelow ts = ts.flatMap nodes := by
  induction ts with
  | nil => rfl
  | cons t ts ih => rw [nodesBelow, ih, List.flatMap_cons]

/-- The nodes of a child are nodes of the tree. -/
theorem nodes_subset_of_mem_children {t child : Tree} (h : child ∈ t.children) :
    child.nodes ⊆ t.nodes := by
  obtain ⟨info, children⟩ := t
  intro n hn
  rw [nodes, nodesBelow_eq_flatMap]
  exact List.mem_cons_of_mem _ (List.mem_flatMap.mpr ⟨child, h, hn⟩)

theorem Nested.info {first last : Nat} {t : Tree} (h : t.Nested first last) :
    t.info.Within first last := by
  obtain ⟨info, children⟩ := t
  exact h.1

/-- A nested tree stays one between offsets further apart. -/
theorem Nested.mono {first last first' last' : Nat} {t : Tree} (h : t.Nested first last)
    (hfirst : first' ≤ first) (hlast : last ≤ last') : t.Nested first' last' := by
  obtain ⟨info, children⟩ := t
  exact ⟨⟨hfirst.trans h.1.start, h.1.order, h.1.stop.trans hlast⟩, h.2⟩

mutual

/-- **All nodes lie between the offsets.** -/
theorem Nested.within {first last : Nat} :
    ∀ {t : Tree}, t.Nested first last → ∀ n ∈ t.nodes, n.Within first last
  | node info children, ⟨hinfo, hbelow⟩, n, hn => by
    rcases List.mem_cons.mp hn with rfl | hn
    · exact hinfo
    · have hwithin := NestedBelow.within hbelow n hn
      exact ⟨hinfo.start.trans hwithin.start, hwithin.order, hwithin.stop.trans hinfo.stop⟩

theorem NestedBelow.within {first last : Nat} :
    ∀ {ts : List Tree}, NestedBelow first last ts → ∀ n ∈ nodesBelow ts, n.Within first last
  | [], _, n, hn => nomatch hn
  | child :: siblings, ⟨hchild, hsiblings⟩, n, hn => by
    rcases List.mem_append.mp hn with hn | hn
    · exact Nested.within hchild n hn
    · have hwithin := NestedBelow.within hsiblings n hn
      have hbefore := hchild.info
      exact ⟨(hbefore.start.trans hbefore.order).trans hwithin.start, hwithin.order,
        hwithin.stop⟩

end

/-- All nodes lie in the root. -/
theorem Nested.within_root {first last : Nat} {t : Tree} (h : t.Nested first last) :
    ∀ n ∈ t.nodes, n.Within t.info.start t.info.stop := by
  obtain ⟨info, children⟩ := t
  have hself : (node info children).Nested info.start info.stop :=
    ⟨⟨le_rfl, h.1.order, le_rfl⟩, h.2⟩
  exact hself.within

mutual

/-- A function of a nested tree is a nested tree. -/
theorem Nested.scope {src : SourceText} {language : Language} {s : Scope} {first last : Nat}
    (parent : Option Tree) : ∀ {t : Tree}, t.Nested first last →
      s ∈ scopesFrom src language parent t → s.tree.Nested first last
  | node info children, h, hs => by
    have hbelow : s ∈ scopesBelow src language (node info children) children →
        s.tree.Nested first last := fun hmem =>
      (NestedBelow.scope (node info children) h.2 hmem).mono h.1.start h.1.stop
    rw [scopesFrom] at hs
    split at hs
    · rcases List.mem_cons.mp hs with rfl | hmem
      · exact h
      · exact hbelow hmem
    · exact hbelow hs

theorem NestedBelow.scope {src : SourceText} {language : Language} {s : Scope} {first last : Nat}
    (parent : Tree) : ∀ {ts : List Tree}, NestedBelow first last ts →
      s ∈ scopesBelow src language parent ts → s.tree.Nested first last
  | [], _, hs => by
    rw [scopesBelow] at hs
    cases hs
  | child :: siblings, h, hs => by
    rw [scopesBelow] at hs
    rcases List.mem_append.mp hs with hchild | hsiblings
    · exact Nested.scope _ h.1 hchild
    · have hbefore := h.1.info
      exact (NestedBelow.scope parent h.2 hsiblings).mono (hbefore.start.trans hbefore.order) le_rfl

end

end Tree

end Readability.Source

namespace Readability.Feature

open Readability.Source

namespace Region

/-- The rows of a function, with all its tokens. -/
def ofScope (src : SourceText) (s : Scope) : Region :=
  ⟨src.row s.tree.info.start, spannedLines src s.tree.info, s.tree.tokens src s.parentKind⟩

/-- The region takes in all tokens of a node and consists of rows of the text, and every node below
starts and ends on them. -/
structure Shows (r : Region) (src : SourceText) (parentKind : String) (root : Tree) : Prop where
  tokens : r.tokens = root.tokens src parentKind
  line : ∀ row < r.lines.length, r.lines[row]? = (Text.splitLines src.chars)[r.first + row]?
  rows : ∀ n ∈ root.nodes, r.first ≤ src.row n.start ∧ src.row n.start ≤ src.row n.stop ∧
    src.row n.stop < r.first + r.lines.length

/-- All lines show the root. -/
theorem shows_whole {text : String} {tree : Tree}
    (hordered : ∀ n ∈ tree.nodes, n.start ≤ n.stop) :
    (whole text tree).Shows (.ofString text) "" tree where
  tokens := rfl
  line row _ := by
    show (Text.splitLines text.toList)[row]? = (Text.splitLines text.toList)[0 + row]?
    rw [Nat.zero_add]
  rows n hn := by
    refine ⟨Nat.zero_le _, SourceText.row_mono _ (hordered n hn), ?_⟩
    show _ < 0 + (Text.splitLines text.toList).length
    rw [Nat.zero_add]
    exact SourceText.row_lt_length_splitLines text n.stop

theorem length_spannedLines (text : String) (n : NodeInfo) :
    (spannedLines (.ofString text) n).length =
      (SourceText.ofString text).row n.stop + 1 - (SourceText.ofString text).row n.start := by
  have hlast := SourceText.row_lt_length_splitLines text n.stop
  rw [spannedLines, List.length_take, List.length_drop]
  omega

section Scopes

variable {text : String} {s : Scope}
  (hinside : ∀ n ∈ s.tree.nodes, n.Within s.tree.info.start s.tree.info.stop)

include hinside

/-- The rows of a function show it. -/
theorem shows_ofScope :
    (ofScope (.ofString text) s).Shows (.ofString text) s.parentKind s.tree := by
  have hlength := length_spannedLines text s.tree.info
  refine ⟨rfl, fun row hrow => ?_, fun n hn => ?_⟩
  · show (spannedLines (.ofString text) s.tree.info)[row]? = _
    change row < (spannedLines (.ofString text) s.tree.info).length at hrow
    rw [hlength] at hrow
    rw [spannedLines, List.getElem?_take_of_lt hrow, List.getElem?_drop]
    rfl
  · have hwithin := hinside n hn
    have hstart := (SourceText.ofString text).row_mono hwithin.start
    have horder := (SourceText.ofString text).row_mono hwithin.order
    have hstop := (SourceText.ofString text).row_mono hwithin.stop
    refine ⟨hstart, horder, ?_⟩
    show _ < (SourceText.ofString text).row s.tree.info.start +
      (spannedLines (.ofString text) s.tree.info).length
    rw [hlength]
    omega

/-- The rows of a function are cut out of the text, with all its tokens. -/
theorem cut?_ofScope :
    cut? (Text.splitLines text.toList) ((SourceText.ofString text).row s.tree.info.start)
      (min ((SourceText.ofString text).row s.tree.info.stop)
        ((Text.splitLines text.toList).length - 1))
      (s.tree.tokens (.ofString text) s.parentKind) = some (ofScope (.ofString text) s) := by
  have hordered := startRow_le_lastRow_of_mem (.ofString text) s.parentKind fun n hn =>
    (hinside n hn).order
  have hlast : (SourceText.ofString text).row s.tree.info.stop <
      (Text.splitLines text.toList).length := SourceText.row_lt_length_splitLines text _
  have hrows : ∀ n ∈ s.tree.nodes, (SourceText.ofString text).row s.tree.info.start ≤
      (SourceText.ofString text).row n.start ∧ (SourceText.ofString text).row n.start ≤
      (SourceText.ofString text).row s.tree.info.stop := fun n hn =>
    ⟨SourceText.row_mono _ (hinside n hn).start,
      SourceText.row_mono _ ((hinside n hn).order.trans (hinside n hn).stop)⟩
  have horder := hrows s.tree.info (Tree.info_mem_nodes s.tree)
  have hfilter : ∀ t ∈ s.tree.tokens (.ofString text) s.parentKind,
      ((SourceText.ofString text).row s.tree.info.start ≤ t.startRow &&
        t.startRow ≤ (SourceText.ofString text).row s.tree.info.stop : Bool) = true := by
    intro t ht
    obtain ⟨n, hn, kind, depth, parentKind, rfl⟩ := Tree.exists_node_of_mem_tokensFrom _ _ ht
    rw [Bool.and_eq_true_iff, decide_eq_true_iff, decide_eq_true_iff]
    exact hrows n hn
  rw [Nat.min_eq_left (Nat.le_sub_one_of_lt hlast),
    cut?_of_ordered (Nat.lt_of_le_of_lt horder.2 hlast) _ hordered]
  dsimp only
  rw [Nat.max_eq_left horder.2, Nat.min_eq_left (Nat.le_sub_one_of_lt hlast),
    List.filter_eq_self.mpr hfilter]
  rfl

/-- **A function is measured on all its rows, with all its tokens.** -/
theorem scopeFeatures?_eq_features :
    scopeFeatures? (.ofString text) s = some (ofScope (.ofString text) s).features :=
  congrArg (Option.map features) (cut?_ofScope hinside)

end Scopes

end Region

end Readability.Feature
