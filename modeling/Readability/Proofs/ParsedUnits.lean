import Mathlib
import Readability.Proofs.Offsets
import Readability.Proofs.Regions
import Readability.Proofs.SyntaxTrees

/-!
# Units that are parsed

A unit is measured when it has a language, a text and a tree (`parsed`); what else becomes
of it depends on these alone (`extract?_eq`, `extractScopes?_eq`). There is always a
result, be it an error, unless a node of the tree ends before it starts
(`extract?_isSome`, `extractScopes?_isSome`).

Two texts under one path that are told apart neither by zero bytes nor by being blank are
both refused for one reason or are both parsed (`parsed_alike`).
-/

namespace Readability.Source

namespace SourceUnit

/-- A character with a zero byte. -/
def hasZeroByte (c : Char) : Bool :=
  (String.utf8EncodeChar c).contains 0

theorem contains_zero_toUTF8 (s : String) :
    s.toUTF8.data.toList.contains 0 = s.toList.any hasZeroByte := by
  have hbytes : s.toUTF8.data.toList = s.toList.flatMap String.utf8EncodeChar := by
    rw [String.toUTF8, ← String.ofList_toList (s := s), String.toByteArray_ofList,
      List.utf8Encode, List.toList_data_toByteArray, String.toList_ofList]
  rw [hbytes, List.contains_eq_any_beq, List.any_flatMap]
  refine congrArg (s.toList.any ·) (funext fun c => ?_)
  rw [hasZeroByte, List.contains_eq_any_beq]

/-- Written text is read again. -/
theorem decodeUtf8_toUTF8 (s : String) : Text.decodeUtf8 s.toUTF8 = .ok s := by
  have hread : String.fromUTF8? s.toUTF8 = some s := dif_pos s.isValidUTF8
  rw [Text.decodeUtf8, hread]

/-- A unit that holds a text can be parsed if its language is known, and the text has no zero byte
and is not blank. -/
theorem prepare_of_toUTF8 {u : SourceUnit} {s : String} (h : u.content = s.toUTF8) :
    u.prepare = match u.language? with
      | none => .error (.parse ("unsupported language for " ++ u.id.path))
      | some language =>
        if s.toList.any hasZeroByte then .error (.parse "binary content (NUL byte)")
        else if Text.allBlank s.toList then .error (.parse "unit contains no code")
        else .ok (s, language) := by
  have htext : u.text = if s.toList.any hasZeroByte then
      .error (.parse "binary content (NUL byte)") else .ok s := by
    rw [text, h, contains_zero_toUTF8, decodeUtf8_toUTF8]
  rw [prepare, htext]
  rcases u.language? with _ | language
  · rfl
  · rcases s.toList.any hasZeroByte
    · simp only [Bool.false_eq_true, if_false]
      rcases hblank : Text.allBlank s.toList with _ | _ <;>
        simp only [bind, Except.bind, hblank, Bool.false_eq_true, if_false, if_true] <;> rfl
    · rfl

end SourceUnit

end Readability.Source

namespace Readability.Feature

open Readability.Source

/-! ## Trees that fit their texts -/

/-- A node that ends no earlier than it starts is a token that does so too. -/
theorem startRow_le_lastRow {src : SourceText} {n : NodeInfo} (h : n.start ≤ n.stop)
    (kind : TokenClass) (depth : Nat) (parentKind : String) :
    (Token.ofNode src kind depth parentKind n).startRow ≤
      (Token.ofNode src kind depth parentKind n).lastRow := by
  have hrow := src.row_mono h
  unfold Token.lastRow
  split
  · next hlater =>
    have hlt := of_decide_eq_true (Bool.and_eq_true_iff.mp hlater).2
    omega
  · exact hrow

/-- Where no node ends before it starts, no token does. -/
theorem startRow_le_lastRow_of_mem (src : SourceText) (parentKind : String) {tree : Tree}
    (hordered : ∀ n ∈ tree.nodes, n.start ≤ n.stop) :
    ∀ t ∈ tree.tokens src parentKind, t.startRow ≤ t.lastRow := by
  intro t ht
  obtain ⟨n, hn, kind, depth, parentKind, rfl⟩ := Tree.exists_node_of_mem_tokensFrom _ _ ht
  exact startRow_le_lastRow (hordered n hn) kind depth parentKind

/-- A stretch that starts on a row of the text is cut out of it, with the tokens that start in it. -/
theorem Region.cut?_of_ordered {lines : List (List Char)} {first : Nat}
    (hfirst : first < lines.length) (last : Nat) {tokens : List Token}
    (hordered : ∀ t ∈ tokens, t.startRow ≤ t.lastRow) :
    Region.cut? lines first last tokens =
      let last := min (max last first) (lines.length - 1)
      some ⟨first, (lines.drop first).take (last + 1 - first),
        tokens.filter fun t => first ≤ t.startRow && t.startRow ≤ last⟩ := by
  have hcomments : ∀ t ∈ tokens, (t.kind != .comment || t.startRow ≤ t.lastRow : Bool) = true := by
    intro t ht
    rw [decide_eq_true (hordered t ht), Bool.or_true]
  rw [Region.cut?, if_pos (Nat.le_sub_one_of_lt hfirst)]
  dsimp only
  rw [if_pos (List.all_eq_true.mpr fun t ht => hcomments t (List.mem_of_mem_filter ht))]

/-- Rows of the text are cut out of it as they stand. -/
theorem Region.exists_cut? {lines : List (List Char)} {first last : Nat} (horder : first ≤ last)
    (hlast : last < lines.length) {tokens : List Token}
    (hordered : ∀ t ∈ tokens, t.startRow ≤ t.lastRow) :
    ∃ r, Region.cut? lines first last tokens = some r ∧
      r.lines = (lines.drop first).take (last + 1 - first) := by
  have hclamp : min (max last first) (lines.length - 1) = last := by omega
  refine ⟨_, Region.cut?_of_ordered (Nat.lt_of_le_of_lt horder hlast) last hordered, ?_⟩
  dsimp only
  rw [hclamp]

/-- Where no node ends before it starts, a stretch of rows has features or an error. -/
theorem compute?_isSome {src : SourceText} {lines : List (List Char)} {parentKind : String}
    {tree : Tree} {first last : Nat} (hfirst : first < lines.length)
    (hordered : ∀ n ∈ tree.nodes, n.start ≤ n.stop) :
    (compute? src lines parentKind tree first last).isSome := by
  rw [compute?_eq, Region.cut?_of_ordered hfirst last (startRow_le_lastRow_of_mem _ _ hordered)]
  rfl

/-! ## Units that are parsed -/

/-- The text, language and tree of a unit. -/
def parsed (parser : Parser) (u : SourceUnit) : Except UnitError (String × Language × Tree) :=
  match u.prepare with
  | .error e => .error e
  | .ok (text, language) =>
    (parseSource parser language text).map fun tree => (text, language, tree)

/-- The features of a function of a text, or why it has none. -/
def scopeFeatures? (src : SourceText) (scope : Scope) : Option (Except UnitError Vector) :=
  let lines := Text.splitLines src.chars
  compute? src lines scope.parentKind scope.tree (src.row scope.tree.info.start)
    (min (src.row scope.tree.info.stop) (lines.length - 1))

section Units

variable (parser : Parser) (u : SourceUnit)

/-- A unit has the features of all its lines. -/
theorem extract?_eq : extract? parser u =
    match parsed parser u with
    | .error e => some (.error e)
    | .ok (text, _, tree) =>
      compute? (.ofString text) (Text.splitLines text.toList) "" tree 0
        ((Text.splitLines text.toList).length - 1) := by
  rw [extract?, parsed]
  rcases u.prepare with e | ⟨text, language⟩
  · rfl
  · dsimp only
    rcases parseSource parser language text with e | tree <;> rfl

/-- A unit gives each of its functions the function's features. -/
theorem extractScopes?_eq : extractScopes? parser u =
    match parsed parser u with
    | .error e => some (.error e)
    | .ok (text, language, tree) =>
      allOk ((tree.scopes (.ofString text) language).map fun scope =>
        (scopeFeatures? (.ofString text) scope).map
          (Except.map fun features => ⟨scope.span, features⟩)) := by
  rw [extractScopes?, parsed]
  rcases u.prepare with e | ⟨text, language⟩
  · rfl
  · dsimp only
    rcases parseSource parser language text with e | tree <;> rfl

end Units

section Fitting

variable {parser : Parser} {u : SourceUnit}

/-- Where there is no result that is missing, none is missing in the end. -/
theorem allOk_isSome {α : Type} :
    ∀ {results : List (Option (Except UnitError α))}, (∀ result ∈ results, result.isSome) →
      (allOk results).isSome
  | [], _ => rfl
  | none :: _, h => nomatch h none List.mem_cons_self
  | some (.error _) :: _, _ => rfl
  | some (.ok _) :: rest, h => by
    have hrest := allOk_isSome fun result hresult => h result (List.mem_cons_of_mem _ hresult)
    rw [allOk]
    split
    · next hnone => rwa [hnone] at hrest
    · rfl
    · rfl

/-- **A unit has features, or an error says why not**, unless its tree has a node that ends before
it starts. -/
theorem extract?_isSome (hordered : ∀ {text language tree},
    parsed parser u = .ok (text, language, tree) → ∀ n ∈ tree.nodes, n.start ≤ n.stop) :
    (extract? parser u).isSome := by
  rw [extract?_eq]
  split
  · rfl
  · next text _ tree hparsed =>
    exact compute?_isSome (Text.length_splitLines text.toList 0 ▸ Nat.succ_pos _) (hordered hparsed)

theorem extractScopes?_isSome (hordered : ∀ {text language tree},
    parsed parser u = .ok (text, language, tree) → ∀ n ∈ tree.nodes, n.start ≤ n.stop) :
    (extractScopes? parser u).isSome := by
  rw [extractScopes?_eq]
  split
  · rfl
  · next text language tree hparsed =>
    refine allOk_isSome ?_
    simp only [List.mem_map]
    rintro _ ⟨scope, hscope, rfl⟩
    rw [Option.isSome_map]
    exact compute?_isSome (SourceText.row_lt_length_splitLines _ _) fun n hn =>
      hordered hparsed n (Tree.nodes_subset_of_mem_scopesFrom none hscope hn)

end Fitting

/-! ## Two texts under one path -/

section Pairs

variable {R : NodeInfo → NodeInfo → Prop} {text text' : String} {tree tree' : Tree}
  (hfaults : Tree.SameFaults (SourceText.ofString text).row (SourceText.ofString text').row R)
  (htrees : Tree.Alike R tree tree')

include hfaults htrees

/-- Trees that are alike are refused alike. -/
theorem parseSource_alike {parser parser' : Parser} {language : Language}
    (hparser : parser language text = some tree) (hparser' : parser' language text' = some tree') :
    (∃ e, parseSource parser language text = .error e ∧
        parseSource parser' language text' = .error e) ∨
      parseSource parser language text = .ok tree ∧
        parseSource parser' language text' = .ok tree' := by
  have hfirst := Tree.map_firstFault? hfaults htrees
  rw [parseSource, parseSource, hparser, hparser']
  dsimp only
  rw [hfaults.hasError htrees.info]
  split
  · refine .inl ⟨_, rfl, ?_⟩
    rcases hfault : tree.firstFault? with _ | offset
    · rw [hfault, Option.map_none, Option.map_eq_none_iff] at hfirst
      rw [hfirst]
    · rw [hfault, Option.map_some] at hfirst
      obtain ⟨offset', hfault', hrow⟩ := Option.map_eq_some_iff.mp hfirst
      rw [hfault']
      dsimp only
      rw [hrow]
  · exact .inr ⟨rfl, rfl⟩

/-- **Units that hold the texts are refused for one reason, or parsed.** -/
theorem parsed_alike {parser parser' : Parser} {u u' : SourceUnit} (hpath : u'.id.path = u.id.path)
    (hcontent : u.content = text.toUTF8) (hcontent' : u'.content = text'.toUTF8)
    (hzero : text'.toList.any SourceUnit.hasZeroByte = text.toList.any SourceUnit.hasZeroByte)
    (hblank : Text.allBlank text'.toList = Text.allBlank text.toList)
    (hparser : ∀ language, u.language? = some language → parser language text = some tree)
    (hparser' : ∀ language, u.language? = some language → parser' language text' = some tree') :
    (∃ e, parsed parser u = .error e ∧ parsed parser' u' = .error e) ∨
      ∃ language, parsed parser u = .ok (text, language, tree) ∧
        parsed parser' u' = .ok (text', language, tree') := by
  have hlanguage : u'.language? = u.language? := by
    rw [SourceUnit.language?, SourceUnit.language?, hpath]
  rw [parsed, parsed, SourceUnit.prepare_of_toUTF8 hcontent,
    SourceUnit.prepare_of_toUTF8 hcontent', hlanguage, hzero, hblank, hpath]
  rcases hknown : u.language? with _ | language
  · exact .inl ⟨_, rfl, rfl⟩
  · rcases text.toList.any SourceUnit.hasZeroByte with _ | _
    · rcases Text.allBlank text.toList with _ | _
      · simp only [Bool.false_eq_true, if_false]
        rcases parseSource_alike hfaults htrees (hparser language hknown)
            (hparser' language hknown) with ⟨e, hparse, hparse'⟩ | ⟨hparse, hparse'⟩
        · exact .inl ⟨e, by rw [hparse]; rfl, by rw [hparse']; rfl⟩
        · exact .inr ⟨language, by rw [hparse]; rfl, by rw [hparse']; rfl⟩
      · exact .inl ⟨_, rfl, rfl⟩
    · exact .inl ⟨_, rfl, rfl⟩

end Pairs

end Readability.Feature
