import Mathlib
import Readability.Proofs.TokenCounts

/-!
# Lines that comments reach

Comments are found below nodes that are neither comments nor literals
(`Tree.Exposed`). Each one found is a token (`Exposed.exists_mem_tokensFrom`), and no other
token is a comment (`exists_exposed_of_mem_tokensFrom`). It marks the rows from the one it
starts on to the last one that holds text of it. These are the rows
that have a byte of it, a line feed being a byte of the row that it ends
(`isCommented_iff`). So a comment that ends with a line feed does not mark the row behind
it, although its end lies there.

Main statement: `comments_counted`. The lines behind the share of comments are the lines
that show something and hold a byte of a comment.
-/

namespace Readability.Source.Tree

/-- What a walk for tokens comes to from a node: no node above it, from that node on, is a comment
or a literal. -/
inductive Exposed : Tree → Tree → Prop
  | self (t : Tree) : Exposed t t
  | descend {info : NodeInfo} {children : List Tree} {child t : Tree}
    (hcomment : info.isComment = false) (hstring : info.isString = false)
    (hchild : child ∈ children) (ht : Exposed child t) : Exposed (.node info children) t

theorem tokensBelow_eq_flatMap (src : SourceText) (depth : Nat) (parentKind : String)
    (ts : List Tree) :
    tokensBelow src depth parentKind ts = ts.flatMap (tokensFrom src depth parentKind) := by
  induction ts with
  | nil => rw [tokensBelow, List.flatMap_nil]
  | cons t ts ih => rw [tokensBelow, ih, List.flatMap_cons]

theorem Exposed.info_mem_nodes {root t : Tree} (h : Exposed root t) : t.info ∈ root.nodes := by
  induction h with
  | self t => exact t.info_mem_nodes
  | descend _ _ hchild _ ih =>
    rw [nodes, nodesBelow_eq_flatMap]
    exact List.mem_cons_of_mem _ (List.mem_flatMap.mpr ⟨_, hchild, ih⟩)

/-- No leaf is read as a comment. -/
theorem classifyLeaf_ne_comment {src : SourceText} {n : NodeInfo} :
    classifyLeaf src n ≠ some .comment := by
  intro h
  obtain ⟨text, -, htext⟩ := Option.bind_eq_some_iff.mp h
  unfold classifyText at htext
  grind

/-- A comment that a walk comes to is a token. -/
theorem Exposed.exists_mem_tokensFrom (src : SourceText) {root t : Tree} (h : Exposed root t)
    (ht : t.info.isComment = true) (depth : Nat) (parentKind : String) :
    ∃ depth' parentKind', Token.ofNode src .comment depth' parentKind' t.info ∈
      tokensFrom src depth parentKind root := by
  induction h generalizing depth parentKind with
  | self t =>
    obtain ⟨info, children⟩ := t
    change info.isComment = true at ht
    refine ⟨depth, parentKind, ?_⟩
    unfold tokensFrom
    rw [if_pos ht]
    exact List.mem_singleton_self _
  | @descend info children child t hcomment hstring hchild _ ih =>
    obtain ⟨depth', parentKind', hmem⟩ :=
      ih ht (if info.isBlock then depth + 1 else depth) info.kind
    refine ⟨depth', parentKind', ?_⟩
    rw [tokensFrom_of_children (.node info children) hcomment hstring
      (List.ne_nil_of_mem hchild), tokensBelow_eq_flatMap]
    exact List.mem_flatMap.mpr ⟨child, hchild, hmem⟩

variable {src : SourceText}

mutual

/-- A comment among the tokens is one that the walk comes to. -/
theorem exists_exposed_of_mem_tokensFrom {token : Token} (hkind : token.kind = .comment)
    (depth : Nat) (parentKind : String) : ∀ {root : Tree},
      token ∈ tokensFrom src depth parentKind root → ∃ t, Exposed root t ∧
        t.info.isComment = true ∧
          ∃ depth parentKind, token = .ofNode src .comment depth parentKind t.info
  | node info children, htoken => by
    unfold tokensFrom at htoken
    split at htoken
    · next hcomment =>
      exact ⟨_, .self _, hcomment, depth, parentKind, List.mem_singleton.mp htoken⟩
    · next hcomment =>
      split at htoken
      · rw [List.mem_singleton.mp htoken] at hkind
        cases hkind
      · next hstring =>
        split at htoken
        · split at htoken
          · next kind hleaf =>
            rw [List.mem_singleton.mp htoken] at hkind
            change kind = .comment at hkind
            exact absurd (hkind ▸ hleaf) classifyLeaf_ne_comment
          · cases htoken
        · obtain ⟨child, hchild, t, ht, hnode⟩ := exists_exposed_of_mem_tokensBelow hkind _ _ htoken
          exact ⟨t, .descend (Bool.not_eq_true _ ▸ hcomment) (Bool.not_eq_true _ ▸ hstring) hchild
            ht, hnode⟩

theorem exists_exposed_of_mem_tokensBelow {token : Token} (hkind : token.kind = .comment)
    (depth : Nat) (parentKind : String) : ∀ {ts : List Tree},
      token ∈ tokensBelow src depth parentKind ts → ∃ child ∈ ts, ∃ t, Exposed child t ∧
        t.info.isComment = true ∧
          ∃ depth parentKind, token = .ofNode src .comment depth parentKind t.info
  | [], htoken => by
    rw [tokensBelow] at htoken
    cases htoken
  | child :: siblings, htoken => by
    rw [tokensBelow] at htoken
    rcases List.mem_append.mp htoken with hmem | hmem
    · exact ⟨child, List.mem_cons_self, exists_exposed_of_mem_tokensFrom hkind _ _ hmem⟩
    · obtain ⟨other, hother, hnode⟩ := exists_exposed_of_mem_tokensBelow hkind _ _ hmem
      exact ⟨other, List.mem_cons_of_mem _ hother, hnode⟩

end

end Readability.Source.Tree

namespace Readability.Feature

open Readability.Source

theorem countP_eq_ncard {rows : List Nat} (hrows : rows.Nodup) (p : Nat → Bool) :
    rows.countP p = Set.ncard {row | row ∈ rows ∧ p row = true} := by
  have hset : {row | row ∈ rows ∧ p row = true} = ↑(rows.filter p).toFinset := by
    ext row
    rw [Finset.mem_coe, List.mem_toFinset, List.mem_filter]
    rfl
  rw [hset, Set.ncard_coe_finset, List.toFinset_card_of_nodup (hrows.filter p),
    List.countP_eq_length_filter]

/-- A comment with a byte on a row of the text. -/
def HasCommentOn (src : SourceText) (root : Tree) (row : Nat) : Prop :=
  ∃ c, root.Exposed c ∧ c.info.isComment = true ∧
    ∃ byte, c.info.start ≤ byte ∧ byte < c.info.stop ∧ src.row byte = row

/-- The lines that the region counts as commented are those with a byte of a comment. -/
structure Region.CountsComments (r : Region) (src : SourceText) (root : Tree) : Prop where
  /-- So many lines show something and hold a byte of a comment. -/
  lines : r.measures.commentLines = Set.ncard {row |
    (∃ line, r.lines[row]? = some line ∧ isCode line = true) ∧
      HasCommentOn src root (r.first + row)}
  /-- The share of comments is made of this number. -/
  density : ∀ v, r.features = .ok v → v.lookup "comment_density" =
    .value (r.measures.commentLines.toFloat / r.codeLines.length.toFloat)
  /-- A comment that ends where a row starts does not mark this row. -/
  closed : ∀ c, root.Exposed c → c.info.isComment = true → src.column c.info.stop = 0 →
    ∀ depth parentKind row, r.first + row = src.row c.info.stop →
      Region.isCommented { r with tokens := [.ofNode src .comment depth parentKind c.info] } row =
        false

section Region

variable {r : Region} {text : String} {parentKind : String} {root : Tree}
  (h : r.Shows (.ofString text) parentKind root)
  (hcomments : ∀ n ∈ root.nodes, n.isComment = true → n.start < n.stop)

include hcomments

/-- **A comment marks the rows that it has bytes on.** -/
theorem marks_iff {c : Tree} (hc : root.Exposed c) (hcomment : c.info.isComment = true)
    (depth : Nat) (parentKind : String) (row : Nat) :
    let t := Token.ofNode (.ofString text) .comment depth parentKind c.info
    (t.startRow ≤ row ∧ row ≤ t.lastRow) ↔
      ∃ byte, c.info.start ≤ byte ∧ byte < c.info.stop ∧
        (SourceText.ofString text).row byte = row := by
  intro t
  have hpos := hcomments _ hc.info_mem_nodes hcomment
  rw [show t.lastRow = _ from SourceText.lastRow_ofNode hpos .comment depth parentKind]
  exact (SourceText.exists_byte_iff hpos row).symm

include h

/-- **A row is commented if it has a byte of a comment.** -/
theorem isCommented_iff (row : Nat) :
    r.isCommented row = true ↔ HasCommentOn (.ofString text) root (r.first + row) := by
  rw [Region.isCommented, List.any_eq_true, h.tokens]
  simp only [Bool.and_eq_true, beq_iff_eq, decide_eq_true_eq]
  constructor
  · rintro ⟨t, ht, ⟨hkind, hstart⟩, hlast⟩
    obtain ⟨c, hc, hcomment, depth, parentKind, rfl⟩ :=
      Tree.exists_exposed_of_mem_tokensFrom hkind _ _ ht
    exact ⟨c, hc, hcomment,
      (marks_iff hcomments hc hcomment depth parentKind _).mp ⟨hstart, hlast⟩⟩
  · rintro ⟨c, hc, hcomment, hbyte⟩
    obtain ⟨depth, parentKind', hmem⟩ :=
      hc.exists_mem_tokensFrom (.ofString text) hcomment 0 parentKind
    obtain ⟨hstart, hlast⟩ := (marks_iff hcomments hc hcomment depth parentKind' _).mpr hbyte
    exact ⟨_, hmem, ⟨rfl, hstart⟩, hlast⟩

theorem countsComments : r.CountsComments (.ofString text) root where
  lines := by
    show r.codeRows.countP r.isCommented = _
    rw [countP_eq_ncard r.nodup_codeRows]
    refine congrArg Set.ncard (Set.ext fun row => ?_)
    exact and_congr r.mem_codeRows (isCommented_iff h hcomments row)
  density v hv := by
    obtain ⟨-, rfl⟩ := Region.eq_of_features hv
    exact r.measures.lookup_toVector 22 rfl rfl
  closed c hc hcomment hcolumn depth parentKind row hrow := by
    have hpos := hcomments _ hc.info_mem_nodes hcomment
    have hlast : (Token.ofNode (.ofString text) .comment depth parentKind c.info).lastRow =
        (SourceText.ofChars text.toList).row (c.info.stop - 1) :=
      SourceText.lastRow_ofNode hpos .comment depth parentKind
    -- the last byte is a line feed, so the row goes up behind it
    have hstop : c.info.stop = c.info.stop - 1 + 1 := (Nat.sub_add_cancel (by omega)).symm
    rw [hstop] at hcolumn
    have hfeed := (SourceText.column_succ_eq_zero_iff text.toList _).mp hcolumn
    have hstep := SourceText.row_succ text.toList (c.info.stop - 1)
    rw [if_pos hfeed, ← hstop, ← hlast] at hstep
    rw [Region.isCommented, List.any_cons, List.any_nil, Bool.or_false, hrow]
    refine Bool.and_eq_false_imp.mpr fun _ => decide_eq_false ?_
    exact fun hle => absurd (hstep ▸ hle) (Nat.not_succ_le_self _)

end Region

/-- **The share of comments counts the lines that hold a byte of a comment.** In a nested tree
whose comments are not empty, this holds of the rows of the root and of every function: so many
lines that show something hold a byte of a comment that the walk for tokens comes to, a line feed
being a byte of the line that it ends. A comment that ends with a line feed does not mark the row
behind it. -/
theorem comments_counted {text : String} {tree : Tree}
    (hnested : tree.Nested 0 (Text.byteCount text.toList))
    (hcomments : ∀ n ∈ tree.nodes, n.isComment = true → n.start < n.stop) (language : Language) :
    let src := SourceText.ofString text
    let lines := Text.splitLines text.toList
    (∃ r, Region.cut? lines 0 (lines.length - 1) (tree.tokens src "") = some r ∧
        compute? src lines "" tree 0 (lines.length - 1) = some r.features ∧
        r.CountsComments src tree) ∧
      ∀ s ∈ tree.scopes src language,
        ∃ r, Region.cut? lines (src.row s.tree.info.start)
            (min (src.row s.tree.info.stop) (lines.length - 1))
            (s.tree.tokens src s.parentKind) = some r ∧
          scopeFeatures? src s = some r.features ∧ r.CountsComments src s.tree := by
  intro src lines
  have hordered : ∀ n ∈ tree.nodes, n.start ≤ n.stop := fun n hn => (hnested.within n hn).order
  have hfits : (Region.whole text tree).Fits := Region.fits_whole hordered
  refine ⟨?_, fun s hs => ?_⟩
  · exact ⟨Region.whole text tree, cut?_whole hfits, compute?_whole hfits,
      countsComments (Region.shows_whole hordered) hcomments⟩
  · have hinside := (hnested.scope none hs).within_root
    exact ⟨Region.ofScope src s, Region.cut?_ofScope hinside,
      Region.scopeFeatures?_eq_features hinside, countsComments (Region.shows_ofScope hinside)
        fun n hn => hcomments n (Tree.nodes_subset_of_mem_scopesFrom none hs hn)⟩

/-- A file with a comment that ends with its line, and with a function. -/
def docCommentedFile : Tree :=
  fileOf 5 [.node ⟨"line_comment", true, false, false, 0, 5, .none⟩ []]

/-- The comment ends where the function's row starts, and does not mark it. -/
theorem comments_counted_docCommentedFile :
    let src := SourceText.ofString commentedText
    let lines := Text.splitLines commentedText.toList
    (∃ r, Region.cut? lines 0 (lines.length - 1) (docCommentedFile.tokens src "") = some r ∧
        compute? src lines "" docCommentedFile 0 (lines.length - 1) = some r.features ∧
        r.CountsComments src docCommentedFile) ∧
      ∃ r, Region.cut? lines (src.row commentedScope.tree.info.start)
          (min (src.row commentedScope.tree.info.stop) (lines.length - 1))
          (commentedScope.tree.tokens src commentedScope.parentKind) = some r ∧
        scopeFeatures? src commentedScope = some r.features ∧
        r.CountsComments src commentedScope.tree := by
  have hnested : docCommentedFile.Nested 0 (Text.byteCount commentedText.toList) := by decide
  have hs : commentedScope ∈ docCommentedFile.scopes (.ofString commentedText) .rust :=
    List.mem_singleton.mpr rfl
  obtain ⟨hroot, hscopes⟩ := comments_counted hnested (by decide) .rust
  exact ⟨hroot, hscopes commentedScope hs⟩

end Readability.Feature
