import Mathlib
import Readability.Proofs.Lines
import Readability.Proofs.ParsedUnits

/-!
# Line endings

A text may end its lines with a carriage return and a line feed instead of a line feed
alone. Lines are then the same (`splitLines_withReturns`), and different texts stay
different (`withReturns_injective`), so that a string of several lines is another word
than before, but one as often and as seldom as before.

Main statement: `extract?_withReturns`. A text without carriage returns has the features,
functions and faults that it has with a carriage return in front of each line feed, if
the trees of both have their nodes on the same rows and no name has a line feed in it.
-/

namespace Readability.Text

/-- The text with a carriage return in front of each line feed. -/
def withReturns (cs : List Char) : List Char :=
  cs.flatMap fun c => if c = '\n' then ['\r', '\n'] else [c]

theorem withReturns_feed (cs : List Char) :
    withReturns ('\n' :: cs) = '\r' :: '\n' :: withReturns cs :=
  rfl

theorem withReturns_cons {c : Char} (hc : c ≠ '\n') (cs : List Char) :
    withReturns (c :: cs) = c :: withReturns cs := by
  rw [withReturns, List.flatMap_cons, if_neg hc]
  rfl

theorem head?_withReturns (cs : List Char) : (withReturns cs).head? ≠ some '\n' := by
  rcases cs with _ | ⟨c, cs⟩
  · exact nofun
  · by_cases hc : c = '\n'
    · rw [hc, withReturns_feed, List.head?_cons]
      decide
    · rw [withReturns_cons hc]
      exact fun hhead => hc (Option.some.inj hhead)

/-- A text on one line stays as it is. -/
theorem withReturns_eq_self {cs : List Char} (h : '\n' ∉ cs) : withReturns cs = cs := by
  induction cs with
  | nil => rfl
  | cons c cs ih =>
    rw [List.mem_cons, not_or] at h
    rw [withReturns_cons (Ne.symm h.1), ih h.2]

/-- The text without the carriage returns in front of line feeds. -/
def withoutReturns : List Char → List Char
  | '\r' :: '\n' :: rest => '\n' :: withoutReturns rest
  | c :: rest => c :: withoutReturns rest
  | [] => []

theorem withoutReturns_cons {rest : List Char} (h : rest.head? ≠ some '\n') (c : Char) :
    withoutReturns (c :: rest) = c :: withoutReturns rest := by
  rw [withoutReturns]
  rintro behind - rfl
  exact h rfl

theorem withoutReturns_withReturns (cs : List Char) : withoutReturns (withReturns cs) = cs := by
  induction cs with
  | nil => rfl
  | cons c cs ih =>
    by_cases hc : c = '\n'
    · rw [hc, withReturns_feed, withoutReturns, ih]
    · rw [withReturns_cons hc, withoutReturns_cons (head?_withReturns cs), ih]

/-- **Different texts stay different.** -/
theorem withReturns_injective : Function.Injective withReturns :=
  Function.LeftInverse.injective withoutReturns_withReturns

theorem all_withReturns {p : Char → Bool} (hp : p '\r' = p '\n') (cs : List Char) :
    (withReturns cs).all p = cs.all p := by
  induction cs with
  | nil => rfl
  | cons c cs ih =>
    by_cases hc : c = '\n'
    · rw [hc, withReturns_feed, List.all_cons, List.all_cons, List.all_cons, hp, ih,
        ← Bool.and_assoc, Bool.and_self]
    · rw [withReturns_cons hc, List.all_cons, List.all_cons, ih]

theorem any_withReturns {p : Char → Bool} (hp : p '\r' = p '\n') (cs : List Char) :
    (withReturns cs).any p = cs.any p := by
  rw [List.any_eq_not_all_not, List.any_eq_not_all_not, all_withReturns]
  rw [hp]

theorem dropReturn_concat_return (line : List Char) : dropReturn (line ++ ['\r']) = line := by
  unfold dropReturn
  rw [List.reverse_concat]
  exact List.reverse_reverse line

theorem dropReturn_cons {c : Char} (hc : c ≠ '\r') (line : List Char) :
    dropReturn (c :: line) = c :: dropReturn line := by
  rcases line.eq_nil_or_concat' with rfl | ⟨front, d, rfl⟩
  · exact dropReturn_concat hc []
  · by_cases hd : d = '\r'
    · rw [hd, dropReturn_concat_return, ← List.cons_append, dropReturn_concat_return]
    · rw [dropReturn_concat hd, ← List.cons_append, dropReturn_concat hd, List.cons_append]

theorem splitLines_feed (cs : List Char) : splitLines ('\n' :: cs) = [] :: splitLines cs :=
  rfl

/-- A character that ends no line goes in front of the first one. -/
theorem splitLines_cons {c : Char} (hfeed : c ≠ '\n') (hreturn : c ≠ '\r') (cs : List Char) :
    splitLines (c :: cs) = (splitLines cs).modifyHead (c :: ·) := by
  rw [splitLines, splitLines, splitFeeds, if_neg (mt beq_iff_eq.mp hfeed)]
  rcases hpieces : splitFeeds cs with _ | ⟨piece, rest⟩
  · exact absurd hpieces (splitFeeds_ne_nil cs)
  · exact congrArg (· :: rest.map dropReturn) (dropReturn_cons hreturn piece)

/-- **Lines are the same as before.** -/
theorem splitLines_withReturns {cs : List Char} (h : '\r' ∉ cs) :
    splitLines (withReturns cs) = splitLines cs := by
  induction cs with
  | nil => rfl
  | cons c cs ih =>
    rw [List.mem_cons, not_or] at h
    by_cases hc : c = '\n'
    · rw [hc, withReturns_feed, splitLines_feed, ← ih h.2]
      rfl
    · rw [withReturns_cons hc, splitLines_cons hc (Ne.symm h.1), splitLines_cons hc (Ne.symm h.1),
        ih h.2]

end Readability.Text

namespace Readability.Feature

open Readability.Source

/-! ## Nodes over the text with carriage returns -/

/-- The same node over the text with carriage returns: it covers what it covered, starts and ends
on the rows it did, and ends at the start of a row if it did. -/
structure Returned (src src' : SourceText) (n n' : NodeInfo) : Prop where
  kind : n'.kind = n.kind
  named : n'.named = n.named
  missing : n'.missing = n.missing
  hasError : n'.hasError = n.hasError
  covered : src'.covered n' = (src.covered n).map Text.withReturns
  startRow : src'.row n'.start = src.row n.start
  stopRow : src'.row n'.stop = src.row n.stop
  stopColumn : src'.column n'.stop = 0 ↔ src.column n.stop = 0

/-- The node has no line feed in it if it is a name. -/
def NamesOnOneLine (src : SourceText) (n : NodeInfo) : Prop :=
  n.isIdentifier = true → '\n' ∉ (src.covered n).getD []

instance (src : SourceText) (n : NodeInfo) : Decidable (NamesOnOneLine src n) :=
  inferInstanceAs (Decidable (_ → _))

theorem rewriting_withReturns : Rewriting Text.withReturns :=
  ⟨Text.withReturns_injective, Text.withReturns_eq_self⟩

/-- Carriage returns do not change what a leaf is. -/
theorem classifyText_withReturns {n n' : NodeInfo} (hkind : n'.kind = n.kind)
    (hnamed : n'.named = n.named) (text : List Char) :
    classifyText n' (Text.withReturns text) = classifyText n text := by
  rcases text with _ | ⟨c, cs⟩
  · rfl
  · have hblank : Text.allBlank (Text.withReturns (c :: cs)) = Text.allBlank (c :: cs) :=
      Text.all_withReturns (by decide) _
    have hword : (Text.withReturns (c :: cs)).all Text.isWordChar = (c :: cs).all Text.isWordChar :=
      Text.all_withReturns (by decide +kernel) _
    -- a line feed in front gives way to a carriage return, which is no digit either
    have hhead : ∃ d ds, Text.withReturns (c :: cs) = d :: ds ∧ d.isDigit = c.isDigit := by
      by_cases hc : c = '\n'
      · exact ⟨'\r', '\n' :: Text.withReturns cs, by rw [hc]; rfl, by rw [hc]; decide⟩
      · exact ⟨c, Text.withReturns cs, Text.withReturns_cons hc cs, rfl⟩
    obtain ⟨d, ds, hcons, hdigit⟩ := hhead
    rw [hcons] at hblank hword ⊢
    unfold classifyText
    dsimp only
    rw [hblank, hword, hdigit, hnamed, NodeInfo.isIdentifier, NodeInfo.isIdentifier,
      NodeInfo.isNumber, NodeInfo.isNumber, hkind]

/-- What is used of related nodes, with what the trees have to be like. -/
structure Reread (src src' : SourceText) (n n' : NodeInfo) : Prop where
  returned : Returned src src' n n'
  name : NamesOnOneLine src n
  ordered : n.start ≤ n.stop

section Reread

variable {src src' : SourceText}

theorem lastRow_returned {n n' : NodeInfo} (h : Returned src src' n n') (kind : TokenClass)
    (depth : Nat) (parentKind : String) :
    (Token.ofNode src' kind depth parentKind n').lastRow =
      (Token.ofNode src kind depth parentKind n).lastRow := by
  have hcolumn : (src'.column n'.stop == 0) = (src.column n.stop == 0) := by
    rw [Bool.eq_iff_iff, beq_iff_eq, beq_iff_eq]
    exact h.stopColumn
  unfold Token.lastRow Token.ofNode
  dsimp only
  rw [hcolumn, h.startRow, h.stopRow]

/-- **Carriage returns change no token** but for its text. -/
theorem sameReading_returned (first : Nat) :
    Tree.SameReading src src' (Reread src src')
      (Token.Matches Text.withReturns first first) where
  kind hn := hn.returned.kind
  named hn := hn.returned.named
  leaf hn := by
    rw [classifyLeaf, classifyLeaf, hn.returned.covered, Option.bind_map]
    refine congrArg (Option.bind _) (funext fun text => ?_)
    exact classifyText_withReturns hn.returned.kind hn.returned.named text
  token {n n'} hn kind depth parentKind hname := by
    have htext : (src'.covered n').getD [] = Text.withReturns ((src.covered n).getD []) := by
      rw [hn.returned.covered]
      rcases src.covered n <;> rfl
    exact ⟨rfl, htext, fun hkind => htext.trans (Text.withReturns_eq_self (hn.name (hname hkind))),
      rfl, rfl, congrArg (· + first) hn.returned.startRow,
      congrArg (· + first) (lastRow_returned hn.returned kind depth parentKind)⟩

theorem sameFaults_returned : Tree.SameFaults src.row src'.row (Reread src src') :=
  ⟨fun hn => hn.returned.kind, fun hn => hn.returned.missing, fun hn => hn.returned.hasError,
    fun hn => hn.returned.startRow⟩

theorem sameRows_returned : Tree.SameRows src src' (Reread src src') :=
  ⟨fun hn => hn.returned.kind, fun hn => hn.returned.startRow, fun hn => hn.returned.stopRow⟩

end Reread

/-! ## Units with other line endings -/

/-- What is listed of a function besides its name. -/
def ScopedFeatures.entry (s : ScopedFeatures) : String × Nat × Nat × Vector :=
  (s.span.kind, s.span.startLine, s.span.endLine, s.features)

theorem map_allOk {α β : Type} (f : α → β) : ∀ results : List (Option (Except UnitError α)),
    (allOk results).map (Except.map (List.map f)) =
      allOk (results.map (Option.map (Except.map f)))
  | [] => rfl
  | none :: _ => rfl
  | some (.error _) :: _ => rfl
  | some (.ok a) :: rest => by
    have hrest := map_allOk f rest
    rw [List.map_cons, Option.map_some, Except.map, allOk, allOk, ← hrest]
    rcases allOk rest with _ | _ | _ <;> rfl

section Units

variable {text text' : String} {tree tree' : Tree}

/-- A stretch of rows has the features it had. -/
theorem compute?_returned
    (htrees : Tree.Alike (Reread (.ofString text) (.ofString text')) tree tree')
    (parentKind : String) {first last : Nat} (horder : first ≤ last)
    (hlast : last < (Text.splitLines text.toList).length) :
    compute? (.ofString text') (Text.splitLines text.toList) parentKind tree' first last =
      compute? (.ofString text) (Text.splitLines text.toList) parentKind tree first last :=
  compute?_eq_of_matches rewriting_withReturns horder hlast hlast rfl rfl
    (Tree.forall₂_tokensFrom (sameReading_returned first) 0 parentKind htrees)

variable (hlines : Text.splitLines text'.toList = Text.splitLines text.toList)

include hlines

/-- A function has the features it had. -/
theorem scopeFeatures?_returned {s s' : Scope}
    (h : Tree.SameScope (Reread (.ofString text) (.ofString text')) s s') :
    scopeFeatures? (.ofString text') s' = scopeFeatures? (.ofString text) s := by
  have hinfo := h.tree.info
  have hlast := SourceText.row_lt_length_splitLines text s.tree.info.stop
  have hlines' : Text.splitLines (SourceText.ofString text').chars =
      Text.splitLines (SourceText.ofString text).chars := hlines
  rw [scopeFeatures?, scopeFeatures?, h.parentKind, hinfo.returned.startRow,
    hinfo.returned.stopRow, hlines', Nat.min_eq_left (Nat.le_sub_one_of_lt hlast)]
  exact compute?_returned h.tree s.parentKind (SourceText.row_mono _ hinfo.ordered) hlast

/-- The functions are listed as before, with the features they had. -/
theorem entries_returned
    (htrees : Tree.Alike (Reread (.ofString text) (.ofString text')) tree tree')
    (language : Language) :
    (allOk ((tree'.scopes (.ofString text') language).map fun scope =>
        (scopeFeatures? (.ofString text') scope).map
          (Except.map fun features => ⟨scope.span, features⟩))).map
        (Except.map (List.map ScopedFeatures.entry)) =
      (allOk ((tree.scopes (.ofString text) language).map fun scope =>
        (scopeFeatures? (.ofString text) scope).map
          (Except.map fun features => ⟨scope.span, features⟩))).map
        (Except.map (List.map ScopedFeatures.entry)) := by
  have hscopes := Tree.forall₂_scopesFrom sameRows_returned language none none rfl htrees
  rw [map_allOk, map_allOk, List.map_map, List.map_map]
  refine congrArg allOk (map_eq_of_forall₂ hscopes fun {s s'} hs => ?_)
  rw [Function.comp_apply, Function.comp_apply, scopeFeatures?_returned hlines hs]
  rcases scopeFeatures? (.ofString text) s with _ | _ | features
  · rfl
  · rfl
  · show some (Except.ok (s'.span.kind, s'.span.startLine, s'.span.endLine, features)) = _
    rw [hs.kind, hs.startLine, hs.endLine]
    rfl

end Units

/-- **Line endings do not change the features.** A unit whose text has no carriage return, and
one whose text has one in front of each line feed, have the same features, and the same functions
with the same features, or the same error. -/
theorem extract?_withReturns {text text' : String} {tree tree' : Tree} {parser parser' : Parser}
    {u u' : SourceUnit} (hpath : u'.id.path = u.id.path) (hcontent : u.content = text.toUTF8)
    (hcontent' : u'.content = text'.toUTF8) (hreturn : '\r' ∉ text.toList)
    (htext' : text'.toList = Text.withReturns text.toList)
    (hparser : ∀ language, u.language? = some language → parser language text = some tree)
    (hparser' : ∀ language, u.language? = some language → parser' language text' = some tree')
    (hnames : ∀ n ∈ tree.nodes, NamesOnOneLine (.ofString text) n)
    (hordered : ∀ n ∈ tree.nodes, n.start ≤ n.stop)
    (htrees : Tree.Alike (Returned (.ofString text) (.ofString text')) tree tree') :
    (∃ result, extract? parser u = some result ∧ extract? parser' u' = some result) ∧
      ∃ entries, (extractScopes? parser u).map (Except.map (List.map ScopedFeatures.entry)) =
          some entries ∧
        (extractScopes? parser' u').map (Except.map (List.map ScopedFeatures.entry)) =
          some entries := by
  have hlines : Text.splitLines text'.toList = Text.splitLines text.toList := by
    rw [htext', Text.splitLines_withReturns hreturn]
  have hreread : Tree.Alike (Reread (.ofString text) (.ofString text')) tree tree' :=
    htrees.imp (fun hn hnode => ⟨hn, hnode.1, hnode.2⟩)
      fun n hn => And.intro (hnames n hn) (hordered n hn)
  have hzero : text'.toList.any SourceUnit.hasZeroByte =
      text.toList.any SourceUnit.hasZeroByte := by
    rw [htext', Text.any_withReturns (by decide)]
  have hblank : Text.allBlank text'.toList = Text.allBlank text.toList := by
    rw [htext', Text.allBlank, Text.allBlank, Text.all_withReturns (by decide)]
  -- both texts are refused for one reason, or both have their trees
  rcases parsed_alike sameFaults_returned hreread hpath hcontent hcontent' hzero hblank hparser
      hparser' with ⟨e, hparsed, hparsed'⟩ | ⟨language, hparsed, hparsed'⟩
  · rw [extract?_eq, extract?_eq, extractScopes?_eq, extractScopes?_eq, hparsed, hparsed']
    exact ⟨⟨_, rfl, rfl⟩, _, rfl, rfl⟩
  · have hall : ∀ {text₁ language₁ tree₁}, parsed parser u = .ok (text₁, language₁, tree₁) →
        ∀ n ∈ tree₁.nodes, n.start ≤ n.stop := by
      intro _ _ _ h
      rw [hparsed] at h
      cases h
      exact hordered
    have hlast := Nat.sub_one_lt_of_lt (SourceText.row_lt_length_splitLines text 0)
    have hfeatures : extract? parser' u' = extract? parser u := by
      rw [extract?_eq, extract?_eq, hparsed, hparsed']
      dsimp only
      rw [hlines]
      exact compute?_returned hreread "" (Nat.zero_le _) hlast
    have hentries : (extractScopes? parser' u').map (Except.map (List.map ScopedFeatures.entry)) =
        (extractScopes? parser u).map (Except.map (List.map ScopedFeatures.entry)) := by
      rw [extractScopes?_eq, extractScopes?_eq, hparsed, hparsed']
      exact entries_returned hlines hreread language
    obtain ⟨result, hresult⟩ := Option.isSome_iff_exists.mp (extract?_isSome hall)
    obtain ⟨scopes, hscopes⟩ := Option.isSome_iff_exists.mp (extractScopes?_isSome hall)
    rw [hfeatures, hentries, hscopes]
    exact ⟨⟨result, hresult, hresult⟩, _, rfl, rfl⟩

/-- A function on two lines, the second of which starts at byte `second`. -/
def functionOnTwoLines (second : Nat) : Tree :=
  let leaf (kind : String) (first last : Nat) : Tree :=
    .node ⟨kind, false, false, false, first, last, .none⟩ []
  .node ⟨"source_file", true, false, false, 0, second + 1, .none⟩
    [.node ⟨"function_item", true, false, false, 0, second + 1, .none⟩
      [leaf "fn" 0 2, .node ⟨"identifier", true, false, false, 3, 4, .name⟩ [],
        .node ⟨"parameters", true, false, false, 4, 6, .none⟩ [leaf "(" 4 5, leaf ")" 5 6],
        .node ⟨"block", true, false, false, 7, second + 1, .none⟩
          [leaf "\x7b" 7 8, leaf "\x7d" second (second + 1)]]]

/-- The function is read with either line ending. -/
def parseTwoLines : Parser := fun _ text =>
  if text = "fn a() \x7b\n\x7d" then some (functionOnTwoLines 9)
  else if text = "fn a() \x7b\r\n\x7d" then some (functionOnTwoLines 10)
  else none

/-- A file on two lines may be stored with either line ending. -/
theorem extract?_withReturns_twoLines :
    let u : SourceUnit := ⟨.file "a.rs" "r", "fn a() \x7b\n\x7d".toUTF8⟩
    let u' : SourceUnit := ⟨.file "a.rs" "r", "fn a() \x7b\r\n\x7d".toUTF8⟩
    (∃ result, extract? parseTwoLines u = some result ∧ extract? parseTwoLines u' = some result) ∧
      ∃ entries, (extractScopes? parseTwoLines u).map
          (Except.map (List.map ScopedFeatures.entry)) = some entries ∧
        (extractScopes? parseTwoLines u').map
          (Except.map (List.map ScopedFeatures.entry)) = some entries := by
  intro u u'
  have htrees : Tree.Alike (Returned (.ofString "fn a() \x7b\n\x7d")
      (.ofString "fn a() \x7b\r\n\x7d")) (functionOnTwoLines 9) (functionOnTwoLines 10) := by
    repeat' constructor
    all_goals decide
  exact extract?_withReturns rfl rfl rfl (by decide) (by decide) (fun _ _ => rfl) (fun _ _ => rfl)
    (by decide) (by decide) htrees

end Readability.Feature
