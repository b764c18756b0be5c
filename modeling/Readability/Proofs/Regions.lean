import Mathlib
import Readability.Feature.Measure
import Readability.Proofs.Threads

/-!
# What the measures of a region depend on

A region is measured by its lines and by its tokens, and of these only rows relative to
its first row count, and of texts that are no words of the language only which of them
are the same. So two regions with the same lines have the same measures when their tokens
correspond (`Token.Matches`): from one region to the other rows move along with the first
row, and texts are rewritten by a function that keeps different texts apart and leaves
texts on one line alone (`Rewriting`).

Main statement: `compute?_eq_of_matches`. Stretches of the same lines with tokens that
correspond have the same features.
-/

namespace Readability.Feature

open Readability.Source (Token)

/-- Different texts stay different, and texts on one line stay as they are. -/
structure Rewriting (rewrite : List Char → List Char) : Prop where
  injective : Function.Injective rewrite
  fixes : ∀ {text}, '\n' ∉ text → rewrite text = text

theorem rewriting_id : Rewriting id :=
  ⟨Function.injective_id, fun _ => rfl⟩

/-- Tokens of the same kind that lie on the same rows, counted from `first` and `first'`. -/
structure Token.Matches (rewrite : List Char → List Char) (first first' : Nat) (t t' : Token) :
    Prop where
  kind : t'.kind = t.kind
  text : t'.text = rewrite t.text
  name : t.kind = .identifier → t'.text = t.text
  depth : t'.depth = t.depth
  parentKind : t'.parentKind = t.parentKind
  startRow : t'.startRow + first = t.startRow + first'
  lastRow : t'.lastRow + first = t.lastRow + first'

/-! ## Lists that correspond -/

section Lists

variable {α β γ : Type} {R : α → β → Prop} {l : List α} {l' : List β} (h : List.Forall₂ R l l')

include h

theorem map_eq_of_forall₂ {f : α → γ} {g : β → γ} (hfg : ∀ {a b}, R a b → g b = f a) :
    l'.map g = l.map f := by
  induction h with
  | nil => rfl
  | cons hab _ ih => rw [List.map_cons, List.map_cons, hfg hab, ih]

theorem countP_eq_of_forall₂ {p : α → Bool} {q : β → Bool} (hpq : ∀ {a b}, R a b → q b = p a) :
    l'.countP q = l.countP p := by
  induction h with
  | nil => rfl
  | cons hab _ ih => rw [List.countP_cons, List.countP_cons, hpq hab, ih]

theorem any_eq_of_forall₂ {p : α → Bool} {q : β → Bool} (hpq : ∀ {a b}, R a b → q b = p a) :
    l'.any q = l.any p := by
  induction h with
  | nil => rfl
  | cons hab _ ih => rw [List.any_cons, List.any_cons, hpq hab, ih]

theorem all_eq_of_forall₂ {p : α → Bool} {q : β → Bool} (hpq : ∀ {a b}, R a b → q b = p a) :
    l'.all q = l.all p := by
  induction h with
  | nil => rfl
  | cons hab _ ih => rw [List.all_cons, List.all_cons, hpq hab, ih]

theorem forall₂_filter {p : α → Bool} {q : β → Bool} (hpq : ∀ {a b}, R a b → q b = p a) :
    List.Forall₂ R (l.filter p) (l'.filter q) := by
  refine List.rel_filter ?_ h
  intro a b hab
  show p a = true ↔ q b = true
  rw [hpq hab]

end Lists

/-! ## Tokens that correspond -/

namespace Rewriting

variable {rewrite : List Char → List Char} (h : Rewriting rewrite)

include h

/-- Words are told from other texts as before. -/
theorem ofList_beq (word : String) (hword : '\n' ∉ word.toList) (text : List Char) :
    (String.ofList (rewrite text) == word) = (String.ofList text == word) := by
  rw [Bool.eq_iff_iff, beq_iff_eq, beq_iff_eq, String.ofList_eq, String.ofList_eq]
  constructor
  · intro hsame
    exact h.injective (hsame.trans (h.fixes hword).symm)
  · rintro rfl
    exact h.fixes hword

theorem contains_ofList (words : List String) (hwords : ∀ word ∈ words, '\n' ∉ word.toList)
    (text : List Char) :
    words.contains (String.ofList (rewrite text)) = words.contains (String.ofList text) := by
  induction words with
  | nil => rfl
  | cons word words ih =>
    obtain ⟨hword, hwords⟩ := List.forall_mem_cons.mp hwords
    rw [List.contains_cons, List.contains_cons, h.ofList_beq word hword, ih hwords]

end Rewriting

namespace Token.Matches

variable {rewrite : List Char → List Char} {first first' : Nat} {t t' : Token}

/-- Tokens that correspond add to the same counters. -/
theorem counts_eq (hrewrite : Rewriting rewrite) (h : Matches rewrite first first' t t')
    (counter : Counter) : counts counter t' = counts counter t := by
  have hcomparisons := hrewrite.contains_ofList Feature.comparisons (by decide) t.text
  have hassignments := hrewrite.contains_ofList Feature.assignments (by decide) t.text
  have hbranches := hrewrite.contains_ofList branchWords (by decide) t.text
  have hloops := hrewrite.contains_ofList loopWords (by decide) t.text
  have hparenthesis := hrewrite.ofList_beq "(" (by decide) t.text
  have hperiod := hrewrite.ofList_beq "." (by decide) t.text
  have hsafe := hrewrite.ofList_beq "?." (by decide) t.text
  have hcomma := hrewrite.ofList_beq "," (by decide) t.text
  have hquestion := hrewrite.ofList_beq "?" (by decide) t.text
  unfold counts
  rw [h.kind, h.text, h.parentKind]
  -- apart from the kind, a counter only compares the text with words
  cases t.kind <;> cases counter <;> dsimp only <;>
    simp only [hcomparisons, hassignments, hbranches, hloops, hparenthesis, hperiod, hsafe, hcomma,
      hquestion]

variable (h : Matches rewrite first first' t t')

include h

theorem startRow_beq (line : Nat) :
    (t'.startRow == first' + line) = (t.startRow == first + line) := by
  have hrow := h.startRow
  rw [Bool.eq_iff_iff, beq_iff_eq, beq_iff_eq]
  omega

/-- Tokens that correspond reach lines that correspond. -/
theorem reaches_eq (line : Nat) :
    (t'.kind == .comment && t'.startRow ≤ first' + line && first' + line ≤ t'.lastRow) =
      (t.kind == .comment && t.startRow ≤ first + line && first + line ≤ t.lastRow) := by
  have hrow := h.startRow
  have hlast := h.lastRow
  have hstarts : t'.startRow ≤ first' + line ↔ t.startRow ≤ first + line := by omega
  have hends : first' + line ≤ t'.lastRow ↔ first + line ≤ t.lastRow := by omega
  rw [h.kind, decide_eq_decide.mpr hstarts, decide_eq_decide.mpr hends]

/-- Tokens that correspond start inside of stretches that correspond. -/
theorem inside_eq {last last' : Nat} (hlast : last' + first = last + first') :
    (first' ≤ t'.startRow && t'.startRow ≤ last' : Bool) =
      (first ≤ t.startRow && t.startRow ≤ last : Bool) := by
  have hrow := h.startRow
  have hstarts : first' ≤ t'.startRow ↔ first ≤ t.startRow := by omega
  have hends : t'.startRow ≤ last' ↔ t.startRow ≤ last := by omega
  rw [decide_eq_decide.mpr hstarts, decide_eq_decide.mpr hends]

theorem ordered_eq :
    (t'.kind != .comment || t'.startRow ≤ t'.lastRow : Bool) =
      (t.kind != .comment || t.startRow ≤ t.lastRow : Bool) := by
  have hrow := h.startRow
  have hlast := h.lastRow
  have hordered : t'.startRow ≤ t'.lastRow ↔ t.startRow ≤ t.lastRow := by omega
  rw [h.kind, decide_eq_decide.mpr hordered]

end Token.Matches

/-- Names are as long as before. -/
theorem nameLengths_eq {rewrite : List Char → List Char} {first first' : Nat}
    {tokens tokens' : List Token}
    (h : List.Forall₂ (Token.Matches rewrite first first') tokens tokens') :
    ((tokens'.filter fun t => t.kind == .identifier).map fun t => t.text.length) =
      (tokens.filter fun t => t.kind == .identifier).map fun t => t.text.length := by
  induction h with
  | nil => rfl
  | cons ht _ ih =>
    rw [List.filter_cons, List.filter_cons, ht.kind]
    split
    · next hname =>
      rw [List.map_cons, List.map_cons, ih, ht.name (beq_iff_eq.mp hname)]
    · exact ih

/-! ## Regions that correspond -/

/-- The features of a region, if it has code. -/
def Region.features (r : Region) : Except Source.UnitError Vector :=
  if r.codeLines.isEmpty then .error (.parse "unit contains no code")
  else .ok r.measures.toVector

/-- A region has code if one of its lines shows something. -/
theorem Region.codeLines_pos {r : Region} (hcode : ∃ line ∈ r.lines, isCode line = true) :
    0 < r.measures.codeLines := by
  obtain ⟨line, hline, hshows⟩ := hcode
  exact List.length_pos_of_mem (List.mem_filter.mpr ⟨hline, hshows⟩)

theorem Region.features_of_code {r : Region} (hcode : 0 < r.measures.codeLines) :
    r.features = .ok r.measures.toVector := by
  have hne : r.codeLines ≠ [] := List.ne_nil_of_length_pos hcode
  rw [features, if_neg (mt List.isEmpty_iff.mp hne)]

/-- Features are those of the measures, and there are none without code. -/
theorem Region.eq_of_features {r : Region} {v : Vector} (h : r.features = .ok v) :
    0 < r.measures.codeLines ∧ v = r.measures.toVector := by
  rw [features] at h
  split at h
  · cases h
  · next hcode =>
    exact ⟨List.length_pos_iff.mpr (mt List.isEmpty_iff.mpr hcode), (Except.ok.inj h).symm⟩

theorem compute?_eq (src : Source.SourceText) (lines : List (List Char)) (parentKind : String)
    (tree : Source.Tree) (first last : Nat) : compute? src lines parentKind tree first last =
      (Region.cut? lines first last (tree.tokens src parentKind)).map Region.features :=
  rfl

/-- A feature is found under its name. -/
theorem Measures.lookup_toVector (m : Measures) (place : Nat) {name : String} {x : Float}
    (hname : names[place]? = some name) (hvalue : m.values[place]? = some x) :
    m.toVector.lookup name = .value x := by
  have hdistinct : names.Nodup := by decide
  obtain ⟨hplace, rfl⟩ := List.getElem?_eq_some_iff.mp hname
  have hfind : names.findIdx? (· == names[place]) = some place := by
    refine List.findIdx?_eq_some_iff_getElem.mpr
      ⟨hplace, beq_self_eq_true _, fun before hbefore => ?_⟩
    rw [beq_iff_eq, hdistinct.getElem_inj_iff]
    exact Nat.ne_of_lt hbefore
  rw [Vector.lookup, toVector]
  dsimp only
  rw [hfind]
  dsimp only
  rw [hvalue]

/-- Regions of the same lines with tokens that correspond. -/
structure Region.Matches (rewrite : List Char → List Char) (r r' : Region) : Prop where
  lines : r'.lines = r.lines
  tokens : List.Forall₂ (Token.Matches rewrite r.first r'.first) r.tokens r'.tokens

namespace Region.Matches

variable {rewrite : List Char → List Char} {r r' : Region} (h : Matches rewrite r r')

include h

theorem codeLines_eq : r'.codeLines = r.codeLines := by
  rw [codeLines, codeLines, h.lines]

theorem tokensOn (line : Nat) :
    List.Forall₂ (Token.Matches rewrite r.first r'.first) (r.tokensOn line) (r'.tokensOn line) :=
  forall₂_filter h.tokens fun ht => ht.startRow_beq line

/-- The words of the one text are those of the other, rewritten. -/
theorem vocabulary_eq : vocabulary r'.tokens = (vocabulary r.tokens).map rewrite := by
  have hwords : List.Forall₂ (Token.Matches rewrite r.first r'.first)
      (r.tokens.filter fun t => isOperator t || isOperand t)
      (r'.tokens.filter fun t => isOperator t || isOperand t) := by
    refine forall₂_filter h.tokens fun ht => ?_
    rw [isOperator, isOperand, ht.kind]
    rfl
  rw [vocabulary, vocabulary, List.map_map]
  exact map_eq_of_forall₂ hwords fun ht => ht.text

/-- **Regions that correspond have the same measures.** -/
theorem measures_eq (hrewrite : Rewriting rewrite) : r'.measures = r.measures := by
  have hrows : r'.codeRows = r.codeRows := by rw [codeRows, codeRows, h.lines]
  have hcount : ∀ counter, r'.count counter = r.count counter := fun counter => funext fun line =>
    countP_eq_of_forall₂ (h.tokensOn line) fun ht => ht.counts_eq hrewrite counter
  have hdepth : r'.depth? = r.depth? := funext fun line => by
    rw [depth?, depth?, ← List.head?_map, ← List.head?_map,
      map_eq_of_forall₂ (h.tokensOn line) fun ht => ht.depth]
  have hcomment : r'.isCommented = r.isCommented := funext fun line =>
    any_eq_of_forall₂ h.tokens fun ht => ht.reaches_eq line
  have hdistinct : (vocabulary r'.tokens).eraseDups.length =
      (vocabulary r.tokens).eraseDups.length := by
    rw [h.vocabulary_eq, Report.eraseDups_map _ fun _ _ _ _ hsame => hrewrite.injective hsame,
      List.length_map]
  unfold measures
  simp only [hrows, h.codeLines_eq, h.lines, hcount, hdepth, hcomment, hdistinct,
    nameLengths_eq h.tokens]
  rw [h.vocabulary_eq, List.length_map]

theorem features_eq (hrewrite : Rewriting rewrite) : r'.features = r.features := by
  rw [features, features, h.codeLines_eq, h.measures_eq hrewrite]

end Region.Matches

/-- Stretches of the same lines are cut alike. -/
theorem Region.cut?_matches {rewrite : List Char → List Char} {lines lines' : List (List Char)}
    {first last first' last' : Nat} {tokens tokens' : List Token} (horder : first ≤ last)
    (hlast : last < lines.length) (hlast' : last' < lines'.length)
    (hrows : last' + first = last + first')
    (hlines : (lines'.drop first').take (last' + 1 - first') =
      (lines.drop first).take (last + 1 - first))
    (htokens : List.Forall₂ (Token.Matches rewrite first first') tokens tokens') :
    Option.Rel (Region.Matches rewrite) (Region.cut? lines first last tokens)
      (Region.cut? lines' first' last' tokens') := by
  -- both stretches lie within their texts, so nothing is cut short
  have hclamp : min (max last first) (lines.length - 1) = last := by omega
  have hclamp' : min (max last' first') (lines'.length - 1) = last' := by omega
  have hinside : List.Forall₂ (Token.Matches rewrite first first')
      (tokens.filter fun t => first ≤ t.startRow && t.startRow ≤ last)
      (tokens'.filter fun t => first' ≤ t.startRow && t.startRow ≤ last') :=
    forall₂_filter htokens fun ht => ht.inside_eq hrows
  have hall := all_eq_of_forall₂ hinside fun ht => ht.ordered_eq
  rw [cut?, cut?, if_pos (by omega : first ≤ lines.length - 1),
    if_pos (by omega : first' ≤ lines'.length - 1)]
  dsimp only
  rw [hclamp, hclamp', hall]
  split
  · exact .some ⟨hlines, hinside⟩
  · exact .none

/-- **Stretches of the same lines with tokens that correspond have the same features.** -/
theorem compute?_eq_of_matches {rewrite : List Char → List Char} (hrewrite : Rewriting rewrite)
    {src src' : Source.SourceText} {lines lines' : List (List Char)}
    {parentKind parentKind' : String} {tree tree' : Source.Tree} {first last first' last' : Nat}
    (horder : first ≤ last) (hlast : last < lines.length) (hlast' : last' < lines'.length)
    (hrows : last' + first = last + first')
    (hlines : (lines'.drop first').take (last' + 1 - first') =
      (lines.drop first).take (last + 1 - first))
    (htokens : List.Forall₂ (Token.Matches rewrite first first') (tree.tokens src parentKind)
      (tree'.tokens src' parentKind')) :
    compute? src' lines' parentKind' tree' first' last' =
      compute? src lines parentKind tree first last := by
  have hcut := Region.cut?_matches horder hlast hlast' hrows hlines htokens
  rw [compute?_eq, compute?_eq]
  generalize Region.cut? lines first last (tree.tokens src parentKind) = cut at hcut ⊢
  generalize Region.cut? lines' first' last' (tree'.tokens src' parentKind') = cut' at hcut ⊢
  cases hcut with
  | none => rfl
  | some h => exact congrArg some (h.features_eq hrewrite)

end Readability.Feature
