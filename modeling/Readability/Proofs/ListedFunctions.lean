import Mathlib
import Readability.Proofs.Accounting
import Readability.Proofs.Addresses
import Readability.Proofs.Rows
import Readability.Proofs.SourceOrder

/-!
# Functions of a tree in the order of the source

The functions of a tree are those at its addresses, in preorder
(`Tree.scopes_eq_filterMap`). In a nested tree this is the order of their first lines, and a
function inside another one has its lines among those of the other (`listsFunctions`).

A function that starts with something visible has a line that shows it, so that it has
features (`features_ofScope`). As one function without features would leave the whole unit
without any, this is what makes the list complete.

> `extractScopes_listed`: a unit has one entry for each function, in the order of the
> source, and a report keeps this order.
-/

namespace Readability.Source

namespace Tree

/-- Whether a function is at an address. -/
def isScopeAt (language : Language) (t : Tree) (p : List Nat) : Bool :=
  (t.at? p).any fun n => language.isScope n.kind (kindOf (t.above p).getLast?)

/-- The function at an address, if there is one, in a tree below a node. -/
def scopeAt? (src : SourceText) (language : Language) (parent : Option Tree) (t : Tree)
    (p : List Nat) : Option Scope :=
  (t.at? p).bind fun n =>
    let around := (t.above p).getLast?.or parent
    if language.isScope n.kind (kindOf around) then
      some ⟨n, kindOf around, n.span src language around⟩
    else none

variable {src : SourceText} {language : Language}

theorem scopesBelow_eq_flatMap (parent : Tree) (ts : List Tree) :
    scopesBelow src language parent ts = ts.flatMap (scopesFrom src language (some parent)) := by
  induction ts with
  | nil => rw [scopesBelow, List.flatMap_nil]
  | cons t ts ih => rw [scopesBelow, ih, List.flatMap_cons]

/-- **The functions are those at the addresses.** -/
theorem scopesFrom_eq_filterMap (parent : Option Tree) (t : Tree) :
    scopesFrom src language parent t = t.addresses.filterMap (scopeAt? src language parent t) := by
  induction t using byChildren generalizing parent with
  | node info children ih =>
    have hwalk := filterMap_addresses info children
      (f := scopeAt? src language parent (node info children))
      (g := fun child => scopeAt? src language (some (node info children)) child)
      fun {i child} hchild p => by
        rw [scopeAt?, scopeAt?, at?_cons_of_getElem? hchild, getLast?_above_cons hchild,
          Option.or_assoc, Option.some_or]
    rw [hwalk, scopesFrom, scopesBelow_eq_flatMap,
      List.flatMap_congr fun child hchild => ih child hchild _]
    have hroot : scopeAt? src language parent (node info children) [] =
        if language.isScope info.kind (kindOf parent) then
          some ⟨node info children, kindOf parent, (node info children).span src language parent⟩
        else none := rfl
    rw [hroot]
    split <;> rfl

theorem scopes_eq_filterMap (t : Tree) :
    t.scopes src language = t.addresses.filterMap (scopeAt? src language none t) :=
  t.scopesFrom_eq_filterMap none

theorem scopeAt?_eq_some_iff {t : Tree} {p : List Nat} {s : Scope} :
    scopeAt? src language none t p = some s ↔ t.isScopeAt language p = true ∧
      ∃ n, t.at? p = some n ∧ s = ⟨n, kindOf (t.above p).getLast?,
        n.span src language (t.above p).getLast?⟩ := by
  rw [scopeAt?, isScopeAt, Option.bind_eq_some_iff, Option.or_none]
  constructor
  · rintro ⟨n, hn, hs⟩
    rw [Option.ite_none_right_eq_some] at hs
    rw [hn]
    exact ⟨hs.1, n, rfl, (Option.some.inj hs.2).symm⟩
  · rintro ⟨hscope, n, hn, rfl⟩
    rw [hn, Option.any_some] at hscope
    exact ⟨n, hn, if_pos hscope⟩

theorem isSome_scopeAt? (t : Tree) (p : List Nat) :
    (scopeAt? src language none t p).isSome = t.isScopeAt language p := by
  rw [Bool.eq_iff_iff, Option.isSome_iff_exists]
  constructor
  · rintro ⟨s, hs⟩
    exact (scopeAt?_eq_some_iff.mp hs).1
  · intro hscope
    obtain ⟨n, hn, -⟩ := Option.any_eq_true _ _ |>.mp hscope
    exact ⟨_, scopeAt?_eq_some_iff.mpr ⟨hscope, n, hn, rfl⟩⟩

end Tree

/-- The text of a node starts with a character that can be seen. -/
def SourceText.startsVisibly (src : SourceText) (n : NodeInfo) : Bool :=
  ((Text.dropBytes n.start src.chars).bind List.head?).any fun c => !Text.isBlank c

/-- The line on which such a node starts shows something. -/
theorem SourceText.exists_codeLine {chars : List Char} {n : NodeInfo}
    (h : (ofChars chars).startsVisibly n = true) :
    ∃ line, (Text.splitLines chars)[(ofChars chars).row n.start]? = some line ∧
      Feature.isCode line = true := by
  obtain ⟨c, hc, hvisible⟩ := (Option.any_eq_true ..).mp h
  rw [Bool.not_eq_true'] at hvisible
  obtain ⟨behind, hdrop, hhead⟩ := Option.bind_eq_some_iff.mp hc
  obtain ⟨rest, rfl⟩ := List.head?_eq_some_iff.mp hhead
  obtain ⟨front, hchars, hstart⟩ := Text.dropBytes_eq_some_iff.mp hdrop
  change chars = front ++ c :: rest at hchars
  obtain ⟨line, hline, hshows⟩ := exists_line_of_front front rest hvisible
  rw [hchars, ← hstart]
  exact ⟨line, hline, by rw [Feature.isCode, hshows]; rfl⟩

end Readability.Source

namespace Readability.Feature

open Readability.Source

/-- The node at an address is the function of an entry, with its span and its features. -/
def IsFunctionAt (text : String) (language : Language) (tree : Tree) (p : List Nat)
    (s : ScopedFeatures) : Prop :=
  ∃ n, tree.at? p = some n ∧
    s.span = n.span (.ofString text) language (tree.above p).getLast? ∧
    scopeFeatures? (.ofString text) ⟨n, Tree.kindOf (tree.above p).getLast?, s.span⟩ =
      some (.ok s.features)

/-- The lines of a function are among those of another one. -/
def IsAmong (inner outer : ScopeSpan) : Prop :=
  outer.startLine ≤ inner.startLine ∧ inner.endLine ≤ outer.endLine

/-- **A list of the functions of a tree**: one entry for each function, in preorder. First lines
never decrease, and a function lies in the text and among the lines of those around it. -/
structure ListsFunctions (text : String) (language : Language) (tree : Tree)
    (found : List ScopedFeatures) : Prop where
  entries : ∃ entries, Tree.Enumerates entries (tree.isScopeAt language) found ∧
    (∀ e ∈ entries, IsFunctionAt text language tree e.1 e.2) ∧
    ∀ e ∈ entries, ∀ e' ∈ entries, e.1 <+: e'.1 → IsAmong e'.2.span e.2.span
  lines : ∀ s ∈ found, 1 ≤ s.span.startLine ∧ s.span.startLine ≤ s.span.endLine ∧
    s.span.endLine ≤ (Text.splitLines text.toList).length
  ordered : found.Pairwise fun s later => s.span.startLine ≤ later.span.startLine

/-- A function with the measures of its rows. -/
def measured (text : String) (s : Scope) : ScopedFeatures :=
  ⟨s.span, (Region.ofScope (.ofString text) s).measures.toVector⟩

section Functions

variable {text : String} {language : Language} {tree : Tree}

/-- **A function that starts visibly has features.** -/
theorem scopeFeatures?_eq_measured {s : Scope}
    (hinside : ∀ n ∈ s.tree.nodes, n.Within s.tree.info.start s.tree.info.stop)
    (hvisible : (SourceText.ofString text).startsVisibly s.tree.info = true) :
    scopeFeatures? (.ofString text) s = some (.ok (measured text s).features) := by
  have hcode : 0 < (Region.ofScope (.ofString text) s).measures.codeLines := by
    obtain ⟨line, hline, hshows⟩ := SourceText.exists_codeLine hvisible
    have horder := SourceText.row_mono (.ofString text)
      (hinside _ (Tree.info_mem_nodes s.tree)).order
    have hlength := Region.length_spannedLines text s.tree.info
    have hfirst := (Region.shows_ofScope hinside).line 0 (by
      show 0 < (spannedLines (.ofString text) s.tree.info).length
      omega)
    refine Region.codeLines_pos ⟨line, List.mem_of_getElem? (i := 0) ?_, hshows⟩
    rw [hfirst, Nat.add_zero]
    exact hline
  rw [Region.scopeFeatures?_eq_features hinside, Region.features_of_code hcode]
  rfl

/-- All functions of a tree start with a character that can be seen. -/
def StartVisibly (text : String) (language : Language) (tree : Tree) : Prop :=
  ∀ p ∈ tree.addresses, ∀ n ∈ tree.at? p, tree.isScopeAt language p = true →
    (SourceText.ofString text).startsVisibly n.info = true

instance : Decidable (StartVisibly text language tree) :=
  inferInstanceAs (Decidable (∀ p ∈ tree.addresses, ∀ n ∈ tree.at? p, tree.isScopeAt language p →
    (SourceText.ofString text).startsVisibly n.info = true))

/-- The entry for the function at an address, if there is one. -/
def entryAt? (text : String) (language : Language) (tree : Tree) (p : List Nat) :
    Option ScopedFeatures :=
  (Tree.scopeAt? (.ofString text) language none tree p).map (measured text)

theorem isSome_entryAt? (p : List Nat) :
    (entryAt? text language tree p).isSome = tree.isScopeAt language p := by
  rw [entryAt?, Option.isSome_map, Tree.isSome_scopeAt?]

theorem exists_node_of_entryAt? {p : List Nat} {s : ScopedFeatures}
    (h : entryAt? text language tree p = some s) :
    ∃ n, tree.at? p = some n ∧ s = measured text ⟨n, Tree.kindOf (tree.above p).getLast?,
      n.span (.ofString text) language (tree.above p).getLast?⟩ := by
  obtain ⟨scope, hscope, rfl⟩ := Option.map_eq_some_iff.mp h
  obtain ⟨-, n, hn, rfl⟩ := Tree.scopeAt?_eq_some_iff.mp hscope
  exact ⟨n, hn, rfl⟩

theorem map_measured_scopes : (tree.scopes (.ofString text) language).map (measured text) =
    tree.addresses.filterMap (entryAt? text language tree) := by
  rw [Tree.scopes_eq_filterMap, List.map_filterMap]
  rfl

/-- **The functions of a nested tree are listed in the order of the source.** -/
theorem listsFunctions (hnested : tree.Nested 0 (Text.byteCount text.toList))
    (hvisible : StartVisibly text language tree) :
    ListsFunctions text language tree
      ((tree.scopes (.ofString text) language).map (measured text)) := by
  have hplace (p : List Nat) (hp : (entryAt? text language tree p).isSome) :
      (tree.at? p).isSome := by
    obtain ⟨s, hs⟩ := Option.isSome_iff_exists.mp hp
    obtain ⟨n, hn, -⟩ := exists_node_of_entryAt? hs
    exact Option.isSome_of_eq_some hn
  have henumerates := Tree.enumerates_entriesOf hplace
  rw [funext isSome_entryAt?, ← map_measured_scopes] at henumerates
  have hrow {byte later : Nat} (h : byte ≤ later) := SourceText.row_mono (.ofString text) h
  -- what is listed at an address is the function there
  have hnode (e) (he : e ∈ tree.entriesOf (entryAt? text language tree)) :=
    exists_node_of_entryAt? ((Tree.mem_entriesOf hplace).mp he)
  refine ⟨⟨_, henumerates, fun e he => ?_, fun e he e' he' hprefix => ?_⟩, fun s hs => ?_, ?_⟩
  · obtain ⟨n, hn, hs⟩ := hnode e he
    rw [IsFunctionAt, hs]
    refine ⟨n, hn, rfl, scopeFeatures?_eq_measured (hnested.of_at? hn).within_root ?_⟩
    have hscope : tree.isScopeAt language e.1 = true := by
      rw [← isSome_entryAt?, (Tree.mem_entriesOf hplace).mp he]
      rfl
    exact hvisible e.1 (Tree.mem_addresses.mpr (Option.isSome_of_eq_some hn)) n hn hscope
  · obtain ⟨n, hn, hs⟩ := hnode e he
    obtain ⟨m, hm, hs'⟩ := hnode e' he'
    have hwithin := hnested.within_of_prefix hn hm hprefix
    rw [hs, hs']
    exact ⟨Nat.succ_le_succ (hrow hwithin.start), Nat.succ_le_succ (hrow hwithin.stop)⟩
  · rw [← henumerates.elements, List.mem_map] at hs
    obtain ⟨e, he, rfl⟩ := hs
    obtain ⟨n, hn, hs⟩ := hnode e he
    rw [hs]
    exact ⟨Nat.succ_pos _, Nat.succ_le_succ (hrow (hnested.within_of_at? hn).order),
      SourceText.row_lt_length_splitLines text n.info.stop⟩
  · have hordered := henumerates.ordered
    rw [← henumerates.elements, List.pairwise_map]
    rw [List.pairwise_map] at hordered
    refine hordered.imp_of_mem fun {e e'} he he' hlt => ?_
    obtain ⟨n, hn, hs⟩ := hnode e he
    obtain ⟨m, hm, hs'⟩ := hnode e' he'
    rw [hs, hs']
    exact Nat.succ_le_succ (hrow (hnested.start_le_of_lt hn hm hlt))

end Functions

section Units

open Report (Aggregator Meta Outcome Record)

variable {parser : Parser} {u : SourceUnit} {text : String} {language : Language} {tree : Tree}

theorem extractScopes_eq_measured (hprepare : u.prepare = .ok (text, language))
    (hparser : parser language text = some tree) (hclean : tree.info.hasError = false)
    (hnested : tree.Nested 0 (Text.byteCount text.toList))
    (hvisible : StartVisibly text language tree) :
    extractScopes parser u =
      .ok ((tree.scopes (.ofString text) language).map (measured text)) := by
  have hparsed : parsed parser u = .ok (text, language, tree) := by
    rw [parsed, hprepare]
    dsimp only
    rw [parseSource, hparser]
    dsimp only
    rw [hclean, if_neg Bool.false_ne_true]
    rfl
  have hall : ∀ s ∈ tree.scopes (.ofString text) language,
      scopeFeatures? (.ofString text) s = some (.ok (measured text s).features) := by
    intro s hs
    rw [Tree.scopes_eq_filterMap, List.mem_filterMap] at hs
    obtain ⟨p, hp, hs⟩ := hs
    obtain ⟨hscope, n, hn, rfl⟩ := Tree.scopeAt?_eq_some_iff.mp hs
    exact scopeFeatures?_eq_measured (hnested.of_at? hn).within_root (hvisible p hp n hn hscope)
  have hresult : extractScopes? parser u =
      some (.ok ((tree.scopes (.ofString text) language).map (measured text))) := by
    rw [extractScopes?_eq, hparsed]
    refine Run.Job.allOk_eq_ok_iff.mpr ?_
    rw [List.map_map]
    refine List.map_congr_left fun s hs => ?_
    rw [hall s hs]
    rfl
  rw [extractScopes, hresult]
  rfl

/-- The records that a run has of a unit are of its functions, in the order of these: of those that
the model gives a score. -/
theorem exists_functions_of_outcomesOf {found : List ScopedFeatures}
    (h : extractScopes parser u = .ok found) (model : Model) (timestamp : Time.Instant) :
    ∃ functions, functions.Sublist (found.map (·.span)) ∧ Report.AreOf u.id functions
      ((Run.outcomesOf u timestamp (Run.evaluate parser model .function u)).filterMap
        Outcome.record?) := by
  have hparts : Run.evaluate parser model .function u =
      .ok (found.map fun s => Run.scorePart model (some s.span) s.features) := by
    rw [Run.evaluate, h]
    rfl
  rw [hparts, Run.outcomesOf]
  rcases u.language? with _ | language
  · exact ⟨[], List.nil_sublist _, rfl⟩
  refine ⟨(found.filter fun s => (model.score s.features).isOk).map (·.span),
    List.filter_sublist.map _, ?_⟩
  dsimp only
  clear h hparts
  induction found with
  | nil => rfl
  | cons s found ih =>
    rw [Report.AreOf] at ih ⊢
    rw [List.filter_cons, List.map_cons, List.map_cons, Run.scorePart]
    rcases model.score s.features with e | score
    · exact ih
    · exact congrArg (u.id.withScope s.span :: ·) ih

/-- **A unit lists all its functions in the order of the source, and a report keeps this order.**
What is pushed for the unit are the records of its functions, or of those with a score. Any other
outcomes may come between them. -/
theorem extractScopes_listed (hprepare : u.prepare = .ok (text, language))
    (hparser : parser language text = some tree) (hclean : tree.info.hasError = false)
    (hnested : tree.Nested 0 (Text.byteCount text.toList))
    (hvisible : StartVisibly text language tree) :
    ∃ found, extractScopes parser u = .ok found ∧ ListsFunctions text language tree found ∧
      (∀ model timestamp, ∃ functions, functions.Sublist (found.map (·.span)) ∧
        Report.AreOf u.id functions
          ((Run.outcomesOf u timestamp (Run.evaluate parser model .function u)).filterMap
            Outcome.record?)) ∧
      ∀ functions order outcomes, functions.Sublist (found.map (·.span)) →
        Report.AreOf u.id functions ((outcomes.filterMap Outcome.record?).filter (·.isOf u.id)) →
        ∀ about runId now,
          Report.KeepsOrder ((Aggregator.collect order outcomes).finish about runId now) u.id
            functions ((outcomes.filterMap Outcome.record?).filter (·.isOf u.id)) := by
  have hlists := listsFunctions hnested hvisible
  have hfound := extractScopes_eq_measured hprepare hparser hclean hnested hvisible
  refine ⟨_, hfound, hlists, exists_functions_of_outcomesOf hfound,
    fun functions order outcomes hfunctions hunits about runId now => ?_⟩
  have hlines : functions.Pairwise fun span later => span.startLine ≤ later.startLine := by
    refine List.Pairwise.sublist hfunctions ?_
    rw [List.pairwise_map]
    exact hlists.ordered
  rw [← Aggregator.collect_records order outcomes] at hunits ⊢
  exact Report.finish_keepsOrder hunits hlines about runId now

end Units

/-- A function with another one of its name inside, and a third one on the next line. -/
def namesakeText : String :=
  "fn f() \x7b fn f() \x7b\x7d \x7d\nfn g() \x7b\x7d\n"

/-- The tree of the text. -/
def namesakeFile : Tree :=
  .node ⟨"source_file", true, false, false, 0, 31, .none⟩
    [.node ⟨"function_item", true, false, false, 0, 20, .none⟩
      [.node ⟨"identifier", true, false, false, 3, 4, .name⟩ [],
        .node ⟨"block", true, false, false, 7, 20, .none⟩ [functionAt 9]],
      functionAt 21]

/-- The parser that gives this tree. -/
def parseNamesakes : Parser := fun _ _ => some namesakeFile

/-- The text as a unit. -/
def namesakeUnit : SourceUnit :=
  ⟨.file "a.rs" "r", namesakeText.toUTF8⟩

/-- The inner function comes second, and its entry in a report is that of the second one. -/
theorem extractScopes_listed_namesakes : ∃ found,
    extractScopes parseNamesakes namesakeUnit = .ok found ∧
      ListsFunctions namesakeText .rust namesakeFile found ∧
      found.map (·.span) = [⟨"f", "function_item", 1, 1⟩, ⟨"f", "function_item", 1, 1⟩,
        ⟨"g", "function_item", 2, 2⟩] ∧
      (Report.sourceThreads namesakeUnit.id (found.map (·.span))).map (·.key) =
        ["a.rs::f", "a.rs::f#2", "a.rs::g"] ∧
      ∀ score : Float,
        let records : List Report.Record := found.map fun s =>
          ⟨namesakeUnit.id.withScope s.span, .rust, s.features, score, .low, .epoch⟩
        Report.KeepsOrder ((Report.Aggregator.collect .newestFirst
          (records.map .scored)).finish ⟨"", "", .blank, false⟩ "" .epoch) namesakeUnit.id
          (found.map (·.span)) records := by
  have hcontent : namesakeUnit.content = namesakeText.toUTF8 := rfl
  have hlanguage : namesakeUnit.language? = some .rust := by decide +kernel
  have hprepare : namesakeUnit.prepare = .ok (namesakeText, .rust) := by
    rw [SourceUnit.prepare_of_toUTF8 hcontent, hlanguage]
    rfl
  have hnested : namesakeFile.Nested 0 (Text.byteCount namesakeText.toList) := by decide
  have hvisible : StartVisibly namesakeText .rust namesakeFile := by decide +kernel
  have hspans : ((namesakeFile.scopes (.ofString namesakeText) .rust).map
      (measured namesakeText)).map (·.span) = [⟨"f", "function_item", 1, 1⟩,
        ⟨"f", "function_item", 1, 1⟩, ⟨"g", "function_item", 2, 2⟩] := by
    rw [List.map_map]
    decide +kernel
  have hparser : parseNamesakes .rust namesakeText = some namesakeFile := rfl
  obtain ⟨found, hfound, hlists, -, hkept⟩ :=
    extractScopes_listed hprepare hparser rfl hnested hvisible
  have hsame := extractScopes_eq_measured hprepare hparser rfl hnested hvisible
  rw [hfound, Except.ok.injEq] at hsame
  rw [← hsame] at hspans
  refine ⟨found, hfound, hlists, hspans, ?_, fun score => ?_⟩
  · rw [hspans]
    decide +kernel
  · intro records
    have hrecords : ((records.map Report.Outcome.scored).filterMap Report.Outcome.record?).filter
        (·.isOf namesakeUnit.id) = records := by
      rw [List.filterMap_map]
      change (List.filterMap some _).filter _ = _
      rw [List.filterMap_some, List.filter_eq_self, List.forall_mem_map]
      exact fun _ _ => Report.Record.isOf_iff.mpr ⟨rfl, rfl⟩
    have hunits : Report.AreOf namesakeUnit.id (found.map (·.span)) records := by
      rw [Report.AreOf, List.map_map, List.map_map]
      rfl
    have hreport := hkept (found.map (·.span)) .newestFirst (records.map .scored)
      (List.Sublist.refl _) (hrecords.symm ▸ hunits) ⟨"", "", .blank, false⟩ "" .epoch
    rwa [hrecords] at hreport

end Readability.Feature
