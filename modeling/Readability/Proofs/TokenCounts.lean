import Mathlib
import Readability.Proofs.NestedNodes
import Readability.Proofs.Rows

/-!
# Every token is counted once

Tokens are counted on the row they start on, and counts are added up over the lines that
show something. A token that starts with a visible character starts on such a line
(`isCode_of_startsVisibly`), so that the sum over these lines is the number of all tokens
that a counter counts (`sum_count`).

Main statement: `tokens_counted`. In a nested tree no token of the root or of a function is
passed over, and the averages per line come from the numbers of tokens.
-/

namespace Readability.Source

/-- Whether the token starts with a visible character. -/
def Token.startsVisibly (t : Token) : Bool :=
  t.text.head?.any fun c => !Text.isBlank c

/-- A token that starts with a visible character stands for a node that does. -/
theorem covered_of_startsVisibly {src : SourceText} {kind : TokenClass} {depth : Nat}
    {parentKind : String} {n : NodeInfo}
    (h : (Token.ofNode src kind depth parentKind n).startsVisibly = true) :
    ∃ c cs, src.covered n = some (c :: cs) ∧ Text.isBlank c = false := by
  rw [Token.startsVisibly, Token.ofNode] at h
  dsimp only at h
  rcases hcovered : src.covered n with _ | _ | ⟨c, cs⟩
  · rw [hcovered] at h
    cases h
  · rw [hcovered] at h
    cases h
  · rw [hcovered] at h
    change (!Text.isBlank c) = true at h
    rw [Bool.not_eq_true'] at h
    exact ⟨c, cs, rfl, h⟩

end Readability.Source

namespace Readability.Feature

open Readability.Source

/-! ## Counting by rows -/

theorem sum_indicator (rows : List Nat) (row : Nat) :
    (rows.map fun other => if row = other then 1 else 0).sum = rows.count row := by
  induction rows with
  | nil => rfl
  | cons other rows ih =>
    rw [List.map_cons, List.sum_cons, ih, List.count_cons, Nat.add_comm]
    refine congrArg (rows.count row + ·) ?_
    simp only [beq_iff_eq, eq_comm (a := other)]

/-- **Each token is counted on one row.** -/
theorem sum_countP_rows {rows : List Nat} (hrows : rows.Nodup) (p : Token → Bool)
    {place : Token → Nat} {tokens : List Token} (hplace : ∀ t ∈ tokens, place t ∈ rows) :
    (rows.map fun row => (tokens.filter fun t => place t == row).countP p).sum =
      tokens.countP p := by
  induction tokens with
  | nil => simp
  | cons t tokens ih =>
    obtain ⟨ht, htokens⟩ := List.forall_mem_cons.mp hplace
    have hrow : ∀ row, ((t :: tokens).filter fun t => place t == row).countP p =
        (tokens.filter fun t => place t == row).countP p +
          if p t then if place t = row then 1 else 0 else 0 := by
      intro row
      rw [List.countP_filter, List.countP_filter, List.countP_cons]
      simp only [Bool.and_eq_true, beq_iff_eq]
      split_ifs <;> simp_all
    rw [List.map_congr_left fun row _ => hrow row, List.sum_map_add, ih htokens, List.countP_cons]
    split
    · rw [sum_indicator, List.count_eq_one_of_mem hrows ht]
    · rw [List.map_const', List.sum_replicate_nat, Nat.mul_zero]

namespace Region

variable (r : Region)

theorem mem_codeRows {row : Nat} :
    row ∈ r.codeRows ↔ ∃ line, r.lines[row]? = some line ∧ isCode line = true := by
  rw [codeRows, List.mem_map]
  constructor
  · rintro ⟨⟨line, row⟩, hmem, rfl⟩
    obtain ⟨hline, hshows⟩ := List.mem_filter.mp hmem
    exact ⟨line, List.mem_zipIdx_iff_getElem?.mp hline, hshows⟩
  · rintro ⟨line, hline, hshows⟩
    exact ⟨(line, row), List.mem_filter.mpr ⟨List.mem_zipIdx_iff_getElem?.mpr hline, hshows⟩, rfl⟩

/-- No row is counted twice. -/
theorem nodup_codeRows : r.codeRows.Nodup := by
  have hrows : (r.lines.zipIdx.map (·.2)).Nodup := by
    rw [List.zipIdx_map_snd]
    exact List.nodup_range'
  exact hrows.sublist (List.filter_sublist.map _)

theorem length_codeRows : r.codeRows.length = r.codeLines.length := by
  have hlines : (r.lines.zipIdx.filter fun line => isCode line.1).map (·.1) = r.codeLines := by
    rw [codeLines, ← List.zipIdx_map_fst 0 r.lines, List.filter_map, List.zipIdx_map_fst]
    rfl
  rw [← hlines, codeRows, List.length_map, List.length_map]

end Region

/-! ## Regions that show a node -/

/-- All words but the comments are counted among the words of a text. -/
theorem isWord_eq (t : Token) : (isOperator t || isOperand t) = (t.kind != .comment) := by
  rw [isOperator, isOperand]
  rcases t.kind <;> rfl

namespace Region.Shows

variable {r : Region} {text : String} {parentKind : String} {root : Tree}
  (h : r.Shows (.ofString text) parentKind root)

include h

/-- **A token that starts with a visible character starts on a line that shows something.** -/
theorem isCode_of_startsVisibly {t : Token} (ht : t ∈ root.tokens (.ofString text) parentKind)
    (hvisible : t.startsVisibly = true) :
    r.first ≤ t.startRow ∧
      ∃ line, r.lines[t.startRow - r.first]? = some line ∧ isCode line = true := by
  obtain ⟨n, hn, kind, depth, parentKind, rfl⟩ := Tree.exists_node_of_mem_tokensFrom _ _ ht
  obtain ⟨c, cs, hcovered, hc⟩ := covered_of_startsVisibly hvisible
  obtain ⟨hfirst, horder, hlast⟩ := h.rows n hn
  obtain ⟨line, hline, hshows⟩ := SourceText.exists_line_of_covered hcovered hc
  refine ⟨hfirst, line, ?_, ?_⟩
  · show r.lines[(SourceText.ofString text).row n.start - r.first]? = some line
    rw [h.line _ (by omega), Nat.add_sub_cancel' hfirst]
    exact hline
  · rw [isCode, hshows]
    rfl

variable (hvisible : ∀ t ∈ root.tokens (.ofString text) parentKind, t.startsVisibly = true)

include hvisible

/-- **A counter adds up to all tokens that it counts.** -/
theorem sum_perLine (counter : Counter) :
    (r.measures.perLine counter).sum =
      (root.tokens (.ofString text) parentKind).countP (counts counter) := by
  have hplace : ∀ t ∈ r.tokens, t.startRow - r.first ∈ r.codeRows := by
    rw [h.tokens]
    intro t ht
    exact r.mem_codeRows.mpr (h.isCode_of_startsVisibly ht (hvisible t ht)).2
  have hrow : ∀ row, r.count counter row =
      (r.tokens.filter fun t => t.startRow - r.first == row).countP (counts counter) := by
    intro row
    have hsame : r.tokensOn row = r.tokens.filter fun t => t.startRow - r.first == row := by
      refine List.filter_congr fun t ht => ?_
      rw [h.tokens] at ht
      have hfirst := (h.isCode_of_startsVisibly ht (hvisible t ht)).1
      rw [Bool.eq_iff_iff, beq_iff_eq, beq_iff_eq]
      omega
    rw [count, hsame]
  show List.foldl Nat.add 0 _ = _
  rw [List.map_congr_left fun row _ => hrow row, ← h.tokens,
    ← sum_countP_rows r.nodup_codeRows (counts counter) hplace]
  exact List.sum_eq_foldl_nat.symm

end Region.Shows

/-- The averages per line of what a counter counts. -/
def averages : List (String × Counter) :=
  [("identifiers_avg", .identifiers), ("keywords_avg", .keywords), ("numbers_avg", .numbers),
    ("parentheses_avg", .parentheses), ("periods_avg", .periods), ("commas_avg", .commas),
    ("comparisons_avg", .comparisons), ("assignments_avg", .assignments),
    ("branches_avg", .branches), ("loops_avg", .loops)]

theorem lookup_averages (m : Measures) {named : String × Counter} (hnamed : named ∈ averages) :
    m.toVector.lookup named.1 = .value (m.perLine named.2).average := by
  simp only [averages, List.mem_cons, List.not_mem_nil, or_false] at hnamed
  rcases hnamed with rfl | rfl | rfl | rfl | rfl | rfl | rfl | rfl | rfl | rfl
  · exact m.lookup_toVector 2 rfl rfl
  · exact m.lookup_toVector 8 rfl rfl
  · exact m.lookup_toVector 10 rfl rfl
  · exact m.lookup_toVector 12 rfl rfl
  · exact m.lookup_toVector 13 rfl rfl
  · exact m.lookup_toVector 14 rfl rfl
  · exact m.lookup_toVector 16 rfl rfl
  · exact m.lookup_toVector 17 rfl rfl
  · exact m.lookup_toVector 18 rfl rfl
  · exact m.lookup_toVector 19 rfl rfl

/-- The region loses none of some tokens. -/
structure Region.CountsAll (r : Region) (tokens : List Token) : Prop where
  /-- None is passed over. -/
  kept : r.tokens = tokens
  /-- Each starts on a line of the region that shows something. -/
  onCode : ∀ t ∈ tokens, r.first ≤ t.startRow ∧
    ∃ line, r.lines[t.startRow - r.first]? = some line ∧ isCode line = true
  /-- What is counted on lines that show something is counted of all tokens. -/
  sum : ∀ counter, (r.measures.perLine counter).sum = tokens.countP (counts counter)
  /-- The averages per line are made of these sums. -/
  average : ∀ v, r.features = .ok v → ∀ named ∈ averages, v.lookup named.1 =
    .value ((tokens.countP (counts named.2)).toFloat / r.codeLines.length.toFloat)
  /-- The words are all tokens but the comments. -/
  words : r.measures.words = tokens.countP fun t => t.kind != .comment

/-- A region that shows a node counts all of its tokens, if they start with visible characters. -/
theorem Region.Shows.countsAll {r : Region} {text : String} {parentKind : String} {root : Tree}
    (h : r.Shows (.ofString text) parentKind root)
    (hvisible : ∀ t ∈ root.tokens (.ofString text) parentKind, t.startsVisibly = true) :
    r.CountsAll (root.tokens (.ofString text) parentKind) where
  kept := h.tokens
  onCode t ht := h.isCode_of_startsVisibly ht (hvisible t ht)
  sum := h.sum_perLine hvisible
  average v hv named hnamed := by
    obtain ⟨hpos, rfl⟩ := eq_of_features hv
    have hcode : r.codeLines.length ≠ 0 := Nat.ne_of_gt hpos
    have hcount : (r.measures.perLine named.2).count = r.codeLines.length := by
      show (r.codeRows.map _).length = _
      rw [List.length_map, length_codeRows]
    rw [lookup_averages _ hnamed, Spread.average, hcount, beq_false_of_ne hcode,
      h.sum_perLine hvisible]
    rfl
  words := by
    show (vocabulary r.tokens).length = _
    rw [vocabulary, List.length_map, h.tokens, ← List.countP_eq_length_filter]
    exact congrArg (List.countP · _) (funext isWord_eq)

/-- **No token is lost.** In a nested tree, the rows of the root, and of every function, are cut out
of the text with all tokens of the node, if these start with visible characters. Each of them
starts on a line that shows something, the sums over these lines are the numbers of tokens that
each counter counts, and the words are all tokens but the comments. -/
theorem tokens_counted {text : String} {tree : Tree}
    (hnested : tree.Nested 0 (Text.byteCount text.toList)) (language : Language) :
    let src := SourceText.ofString text
    let lines := Text.splitLines text.toList
    ((∀ t ∈ tree.tokens src "", t.startsVisibly = true) →
      ∃ r, Region.cut? lines 0 (lines.length - 1) (tree.tokens src "") = some r ∧
        compute? src lines "" tree 0 (lines.length - 1) = some r.features ∧
        r.CountsAll (tree.tokens src "")) ∧
      ∀ s ∈ tree.scopes src language,
        (∀ t ∈ s.tree.tokens src s.parentKind, t.startsVisibly = true) →
        ∃ r, Region.cut? lines (src.row s.tree.info.start)
            (min (src.row s.tree.info.stop) (lines.length - 1))
            (s.tree.tokens src s.parentKind) = some r ∧
          scopeFeatures? src s = some r.features ∧
          r.CountsAll (s.tree.tokens src s.parentKind) := by
  intro src lines
  have hordered : ∀ n ∈ tree.nodes, n.start ≤ n.stop := fun n hn => (hnested.within n hn).order
  have hfits : (Region.whole text tree).Fits := Region.fits_whole hordered
  refine ⟨fun hvisible => ?_, fun s hs hvisible => ?_⟩
  · exact ⟨Region.whole text tree, cut?_whole hfits, compute?_whole hfits,
      (Region.shows_whole hordered).countsAll hvisible⟩
  · have hinside := (hnested.scope none hs).within_root
    exact ⟨Region.ofScope src s, Region.cut?_ofScope hinside,
      Region.scopeFeatures?_eq_features hinside, (Region.shows_ofScope hinside).countsAll hvisible⟩

/-- The function with a comment in front of it. -/
def commentedText : String :=
  "// x\nfn a() \x7b\x7d"

/-- Its file. -/
def commentedFile : Tree :=
  fileOf 5 [.node ⟨"line_comment", true, false, false, 0, 4, .none⟩ []]

/-- The function in the file. -/
def commentedScope : Scope :=
  ⟨functionAt 5, "source_file", ⟨"a", "function_item", 2, 2⟩⟩

theorem commentedScope_mem :
    commentedScope ∈ commentedFile.scopes (.ofString commentedText) .rust :=
  List.mem_singleton.mpr rfl

/-- All tokens of the file are counted, and those of the function. -/
theorem tokens_counted_commentedFile :
    let src := SourceText.ofString commentedText
    let lines := Text.splitLines commentedText.toList
    (∃ r, Region.cut? lines 0 (lines.length - 1) (commentedFile.tokens src "") = some r ∧
        compute? src lines "" commentedFile 0 (lines.length - 1) = some r.features ∧
        r.CountsAll (commentedFile.tokens src "")) ∧
      ∃ r, Region.cut? lines (src.row commentedScope.tree.info.start)
          (min (src.row commentedScope.tree.info.stop) (lines.length - 1))
          (commentedScope.tree.tokens src commentedScope.parentKind) = some r ∧
        scopeFeatures? src commentedScope = some r.features ∧
        r.CountsAll (commentedScope.tree.tokens src commentedScope.parentKind) := by
  have hnested : commentedFile.Nested 0 (Text.byteCount commentedText.toList) := by decide
  obtain ⟨hroot, hscopes⟩ := tokens_counted hnested .rust
  exact ⟨hroot (by decide +kernel), hscopes commentedScope commentedScope_mem (by decide +kernel)⟩

end Readability.Feature
