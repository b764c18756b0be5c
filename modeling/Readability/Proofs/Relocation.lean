import Mathlib
import Readability.Proofs.ParsedUnits

/-!
# Functions that move

A function is measured with the offsets and rows that it has in its file. When the same
function stands elsewhere, be it in another file, its nodes cover the same texts, and
their rows are as far from the function's first row as before (`sameReading_moved`): the
nodes of a function lie inside of it, and a stretch of text fixes what lies inside.

Main statement: `scopeFeatures?_moved`. A function has the features it had before it
moved. Its first column plays no part: a token asks for a column only on a later row.
-/

namespace Readability.Feature

open Readability.Source

/-- The lines of a text on the rows of a node. -/
def spannedLines (src : SourceText) (n : NodeInfo) : List (List Char) :=
  ((Text.splitLines src.chars).drop (src.row n.start)).take
    (src.row n.stop + 1 - src.row n.start)

/-! ## Nodes that move -/

/-- The node moves along with the offset `origin`, and it lies inside of a stretch. -/
structure MovesInside (origin last target : Nat) (n n' : NodeInfo) : Prop where
  moved : n' = n.moved origin target
  within : n.Within origin last

section Moved

variable {src src' : SourceText} {origin target : Nat} {cs : List Char} {n n' : NodeInfo}
  (h : src.Holds origin cs) (h' : src'.Holds target cs)
  (hn : MovesInside origin (origin + Text.byteCount cs) target n n')

include h h'

theorem row_moved {offset : Nat} (hfirst : origin ≤ offset)
    (hlast : offset ≤ origin + Text.byteCount cs) :
    src'.row (target + (offset - origin)) + src.row origin = src.row offset + src'.row target := by
  obtain ⟨count, rfl⟩ := Nat.exists_eq_add_of_le hfirst
  have hcount : count ≤ Text.byteCount cs := Nat.le_of_add_le_add_left hlast
  rw [Nat.add_sub_cancel_left, h.row hcount, h'.row hcount]
  omega

include hn

theorem covered_moved : src'.covered n' = src.covered n := by
  have hwithin := hn.within.moved target
  rw [← hn.moved] at hwithin
  rw [h.covered hn.within, h'.covered hwithin, hn.moved, NodeInfo.moved_moved]

theorem start_moved : src'.row n'.start + src.row origin = src.row n.start + src'.row target := by
  rw [hn.moved]
  exact row_moved h h' hn.within.start (hn.within.order.trans hn.within.stop)

theorem stop_moved : src'.row n'.stop + src.row origin = src.row n.stop + src'.row target := by
  rw [hn.moved]
  exact row_moved h h' (hn.within.start.trans hn.within.order) hn.within.stop

/-- A node that ends on a later row ends in the same column as before. -/
theorem column_moved (hlater : src.row n.start < src.row n.stop) :
    src'.column n'.stop = src.column n.stop := by
  have hrow := row_moved h h' (hn.within.start.trans hn.within.order) hn.within.stop
  have hfirst := src.row_mono hn.within.start
  obtain ⟨count, hcount⟩ := Nat.exists_eq_add_of_le (hn.within.start.trans hn.within.order)
  have hle : count ≤ Text.byteCount cs := by
    have hstop := hn.within.stop
    omega
  have hstop : n'.stop = target + count := by
    rw [hn.moved]
    show target + (n.stop - origin) = target + count
    rw [hcount, Nat.add_sub_cancel_left]
  rw [hcount, Nat.add_sub_cancel_left] at hrow
  rw [hcount] at hlater
  rw [hstop, hcount, h'.column hle (by omega), h.column hle (by omega)]

theorem lastRow_moved (kind : TokenClass) (depth : Nat) (parentKind : String) :
    (Token.ofNode src' kind depth parentKind n').lastRow + src.row origin =
      (Token.ofNode src kind depth parentKind n).lastRow + src'.row target := by
  have hstart := start_moved h h' hn
  have hstop := stop_moved h h' hn
  unfold Token.lastRow Token.ofNode
  dsimp only
  by_cases hlater : src.row n.start < src.row n.stop
  · have hlater' : src'.row n'.start < src'.row n'.stop := by omega
    rw [column_moved h h' hn hlater, decide_eq_true hlater, decide_eq_true hlater']
    split <;> omega
  · have hlater' : ¬src'.row n'.start < src'.row n'.stop := by omega
    rw [decide_eq_false hlater, decide_eq_false hlater', Bool.and_false, Bool.and_false]
    exact hstop

omit hn

/-- **A stretch of text fixes what a walk reads of the nodes in it.** -/
theorem sameReading_moved :
    Tree.SameReading src src' (MovesInside origin (origin + Text.byteCount cs) target)
      (Token.Matches id (src.row origin) (src'.row target)) where
  kind hn := by rw [hn.moved]; rfl
  named hn := by rw [hn.moved]; rfl
  leaf hn := by
    rw [classifyLeaf, classifyLeaf, covered_moved h h' hn, hn.moved]
    rfl
  token hn kind depth parentKind _ := by
    have htext := congrArg (·.getD []) (covered_moved h h' hn)
    exact ⟨rfl, htext, fun _ => htext, rfl, rfl, start_moved h h' hn,
      lastRow_moved h h' hn kind depth parentKind⟩

end Moved

/-! ## Functions that move -/

/-- The tokens of a function are those of the nodes below it. -/
theorem tokens_eq_tokensBelow {src : SourceText} {root : Tree} {language : Language} {s : Scope}
    (hs : s ∈ root.scopes src language) (hchildren : s.tree.children ≠ []) :
    s.tree.tokens src s.parentKind =
      Tree.tokensBelow src (if s.tree.info.isBlock then 1 else 0) s.tree.kind s.tree.children := by
  obtain ⟨hcomment, hstring⟩ := Tree.not_token_of_isScope (Tree.isScope_of_mem_scopesFrom none hs)
  exact Tree.tokensFrom_of_children s.tree hcomment hstring hchildren 0 s.parentKind

/-- **A function that moves keeps its features.** Two functions, in whatever files, whose nodes
are the same but for the place of the first one, that cover the same text and have the same
lines on their rows, have the same features, or the same error. -/
theorem scopeFeatures?_moved {text text' : String} {language language' : Language}
    {root root' : Tree} {s s' : Scope} {cs : List Char}
    (hs : s ∈ root.scopes (.ofString text) language)
    (hs' : s' ∈ root'.scopes (.ofString text') language')
    (hchildren : s.tree.children ≠ [])
    (hnested : ∀ n ∈ s.tree.nodes, n.Within s.tree.info.start s.tree.info.stop)
    (hmoved : Tree.Alike (fun n n' => n' = n.moved s.tree.info.start s'.tree.info.start)
      s.tree s'.tree)
    (hcovered : (SourceText.ofString text).covered s.tree.info = some cs)
    (hcovered' : (SourceText.ofString text').covered s'.tree.info = some cs)
    (hlines : spannedLines (.ofString text') s'.tree.info =
      spannedLines (.ofString text) s.tree.info) :
    ∃ result, scopeFeatures? (.ofString text) s = some result ∧
      scopeFeatures? (.ofString text') s' = some result := by
  obtain ⟨h, hstop⟩ := SourceText.holds_of_covered hcovered
  obtain ⟨h', hstop'⟩ := SourceText.holds_of_covered hcovered'
  have hinside : Tree.Alike (MovesInside s.tree.info.start
      (s.tree.info.start + Text.byteCount cs) s'.tree.info.start) s.tree s'.tree := by
    rw [hstop]
    exact hmoved.imp (fun hmove hwithin => ⟨hmove, hwithin⟩) hnested
  have hkind : s'.tree.info.kind = s.tree.info.kind := by rw [hinside.info.moved]; rfl
  have htokens : List.Forall₂ (Token.Matches id
      ((SourceText.ofString text).row s.tree.info.start)
      ((SourceText.ofString text').row s'.tree.info.start))
      (s.tree.tokens (.ofString text) s.parentKind)
      (s'.tree.tokens (.ofString text') s'.parentKind) := by
    rw [tokens_eq_tokensBelow hs hchildren,
      tokens_eq_tokensBelow hs' (hinside.children.ne_nil hchildren), Tree.kind, Tree.kind,
      NodeInfo.isBlock, NodeInfo.isBlock, hkind]
    exact Tree.forall₂_tokensBelow (sameReading_moved h h') _ _ hinside.children
  -- both functions end on rows of their texts, as far from where they start
  have horder := (SourceText.ofString text).row_mono (Nat.le.intro hstop)
  have hlast := SourceText.row_lt_length_splitLines text s.tree.info.stop
  have hlast' := SourceText.row_lt_length_splitLines text' s'.tree.info.stop
  have hrows := stop_moved h h' hinside.info
  rw [scopeFeatures?, scopeFeatures?, Nat.min_eq_left (Nat.le_sub_one_of_lt hlast),
    Nat.min_eq_left (Nat.le_sub_one_of_lt hlast')]
  obtain ⟨result, hresult⟩ := Option.isSome_iff_exists.mp (compute?_isSome
    (SourceText.row_lt_length_splitLines text s.tree.info.start) fun n hn => (hnested n hn).order)
  refine ⟨result, hresult, Eq.trans ?_ hresult⟩
  exact compute?_eq_of_matches rewriting_id horder hlast hlast' hrows hlines htokens

/-- A function of nine bytes, `fn a() {}`, that starts at an offset. -/
def functionAt (start : Nat) : Tree :=
  let leaf (kind : String) (first last : Nat) : Tree :=
    .node ⟨kind, false, false, false, start + first, start + last, .none⟩ []
  .node ⟨"function_item", true, false, false, start, start + 9, .none⟩
    [leaf "fn" 0 2, .node ⟨"identifier", true, false, false, start + 3, start + 4, .name⟩ [],
      .node ⟨"parameters", true, false, false, start + 4, start + 6, .none⟩
        [leaf "(" 4 5, leaf ")" 5 6],
      .node ⟨"block", true, false, false, start + 7, start + 9, .none⟩
        [leaf "\x7b" 7 8, leaf "\x7d" 8 9]]

/-- A file with that function behind other nodes. -/
def fileOf (start : Nat) (others : List Tree) : Tree :=
  .node ⟨"source_file", true, false, false, 0, start + 9, .none⟩ (others ++ [functionAt start])

/-- The first line of a text may go, and the function behind it comes to stand there. -/
theorem scopeFeatures?_moved_up : ∃ result,
    scopeFeatures? (.ofString "// x\nfn a() \x7b\x7d")
      ⟨functionAt 5, "source_file", ⟨"a", "function_item", 2, 2⟩⟩ = some result ∧
    scopeFeatures? (.ofString "fn a() \x7b\x7d")
      ⟨functionAt 0, "source_file", ⟨"a", "function_item", 1, 1⟩⟩ = some result := by
  have hs : ⟨functionAt 5, "source_file", ⟨"a", "function_item", 2, 2⟩⟩ ∈
      (fileOf 5 [.node ⟨"line_comment", true, false, false, 0, 4, .none⟩ []]).scopes
        (.ofString "// x\nfn a() \x7b\x7d") .rust := List.mem_singleton.mpr rfl
  have hs' : ⟨functionAt 0, "source_file", ⟨"a", "function_item", 1, 1⟩⟩ ∈
      (fileOf 0 []).scopes (.ofString "fn a() \x7b\x7d") .rust := List.mem_singleton.mpr rfl
  have hcovered : (SourceText.ofString "// x\nfn a() \x7b\x7d").covered (functionAt 5).info =
      some "fn a() \x7b\x7d".toList := by decide
  have hmoved : Tree.Alike (fun n n' => n' = n.moved 5 0) (functionAt 5) (functionAt 0) := by
    repeat constructor
  exact scopeFeatures?_moved hs hs' (List.cons_ne_nil _ _) (by decide) hmoved hcovered (by decide)
    (by decide)

end Readability.Feature
