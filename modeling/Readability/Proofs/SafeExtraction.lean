import Mathlib
import Readability.Proofs.Accounting
import Readability.Proofs.CheckedMeasures
import Readability.Proofs.Shares

/-!
# Extraction is safe

Where the nodes of a unit's tree lie in its text, extraction comes to a result, be it an
error, and no operation on the way is made with arguments that it has no result for: the
extraction that checks them all comes to the same result.

A vector that is extracted has the values of a region's measures under the names of the
schema (`Vector.Holds`). Averages do not exceed the greatest values that stand beside them,
the share of comments lies between zero and one, and the share of blank lines is less than
one, as a line with code is among those measured.

Main statement: `extract_safe`.
-/

namespace Readability.Feature

open Readability.Source

/-! ## Averages -/

theorem le_foldl_max {x : Nat} {values : List Nat} (hx : x ∈ values) (start : Nat) :
    x ≤ values.foldl Nat.max start := by
  have hmax : ∀ (values : List Nat) (start : Nat), start ≤ values.foldl Nat.max start := by
    intro values
    induction values with
    | nil => exact fun start => le_rfl
    | cons y values ih => exact fun start => (Nat.le_max_left start y).trans (ih _)
  induction values generalizing start with
  | nil => cases hx
  | cons y values ih =>
    rcases List.mem_cons.mp hx with rfl | hx
    · exact (Nat.le_max_right start x).trans (hmax values _)
    · exact ih hx _

/-- The mean of some numbers. -/
def Spread.mean (s : Spread) : ℚ :=
  s.sum / s.count

/-- **A mean does not exceed the greatest of the numbers.** -/
theorem Spread.mean_le_max (values : List Nat) : (ofList values).mean ≤ (ofList values).max := by
  have hsum : (ofList values).sum ≤ (ofList values).count * (ofList values).max := by
    have hle := List.sum_le_card_nsmul values (values.foldl Nat.max 0) fun x hx => le_foldl_max hx 0
    rw [List.sum_eq_foldl_nat, smul_eq_mul] at hle
    exact hle
  refine div_le_of_le_mul₀ (Nat.cast_nonneg _) (Nat.cast_nonneg _) ?_
  rw [mul_comm]
  exact_mod_cast hsum

/-- The averages beside which a greatest value stands, and of what. -/
def averagesWithMax : List (String × String × (Measures → Spread)) :=
  [("line_length_avg", "line_length_max", (·.lineLength)),
    ("identifiers_avg", "identifiers_max", (·.perLine .identifiers)),
    ("identifier_length_avg", "identifier_length_max", (·.identifierLength)),
    ("indentation_avg", "indentation_max", (·.indentation)),
    ("keywords_avg", "keywords_max", (·.perLine .keywords)),
    ("numbers_avg", "numbers_max", (·.perLine .numbers)),
    ("nesting_depth_avg", "nesting_depth_max", (·.nesting))]

/-! ## Vectors -/

/-- The vector has the values of the measures, under the names of the schema, and they keep within
their bounds. Shares are rounded when they are made doubles. The exact ones keep within their bounds
in any case, and so do the rounded ones as long as doubles tell the numbers of lines apart. -/
structure Vector.Holds (v : Vector) (m : Measures) : Prop where
  schema : v.schema = Feature.schema
  names : v.names = Feature.names
  values : v.values = m.values
  length_names : v.names.length = 26
  length_values : v.values.length = 26
  averages : ∀ entry ∈ averagesWithMax,
    v.lookup entry.1 = .value (entry.2.2 m).average ∧
      v.lookup entry.2.1 = .value (entry.2.2 m).greatest ∧
      (entry.2.2 m).mean ≤ (entry.2.2 m).max
  counters : ∀ counter, (m.perLine counter).mean ≤ (m.perLine counter).max
  comments : v.lookup "comment_density" = .value (m.commentLines.toFloat / m.codeLines.toFloat) ∧
    0 ≤ (m.commentLines : ℚ) / m.codeLines ∧ (m.commentLines : ℚ) / m.codeLines ≤ 1
  blanks : v.lookup "blank_line_ratio" =
      .value ((m.allLines - m.codeLines).toFloat / m.allLines.toFloat) ∧
    0 ≤ ((m.allLines - m.codeLines : Nat) : ℚ) / m.allLines ∧
      ((m.allLines - m.codeLines : Nat) : ℚ) / m.allLines < 1
  rounded : m.allLines < 2 ^ 53 →
    (0 ≤ m.commentLines.toFloat / m.codeLines.toFloat ∧
        m.commentLines.toFloat / m.codeLines.toFloat ≤ 1) ∧
      0 ≤ (m.allLines - m.codeLines).toFloat / m.allLines.toFloat ∧
      (m.allLines - m.codeLines).toFloat / m.allLines.toFloat < 1

/-- An average stands under its name, and the greatest value under its own. -/
theorem lookup_averagesWithMax (m : Measures) {entry : String × String × (Measures → Spread)}
    (hentry : entry ∈ averagesWithMax) :
    m.toVector.lookup entry.1 = .value (entry.2.2 m).average ∧
      m.toVector.lookup entry.2.1 = .value (entry.2.2 m).greatest := by
  simp only [averagesWithMax, List.mem_cons, List.not_mem_nil, or_false] at hentry
  rcases hentry with rfl | rfl | rfl | rfl | rfl | rfl | rfl
  · exact ⟨m.lookup_toVector 0 rfl rfl, m.lookup_toVector 1 rfl rfl⟩
  · exact ⟨m.lookup_toVector 2 rfl rfl, m.lookup_toVector 3 rfl rfl⟩
  · exact ⟨m.lookup_toVector 4 rfl rfl, m.lookup_toVector 5 rfl rfl⟩
  · exact ⟨m.lookup_toVector 6 rfl rfl, m.lookup_toVector 7 rfl rfl⟩
  · exact ⟨m.lookup_toVector 8 rfl rfl, m.lookup_toVector 9 rfl rfl⟩
  · exact ⟨m.lookup_toVector 10 rfl rfl, m.lookup_toVector 11 rfl rfl⟩
  · exact ⟨m.lookup_toVector 20 rfl rfl, m.lookup_toVector 21 rfl rfl⟩

namespace Region

variable (r : Region)

theorem mean_averagesWithMax {entry : String × String × (Measures → Spread)}
    (hentry : entry ∈ averagesWithMax) :
    (entry.2.2 r.measures).mean ≤ (entry.2.2 r.measures).max := by
  simp only [averagesWithMax, List.mem_cons, List.not_mem_nil, or_false] at hentry
  rcases hentry with rfl | rfl | rfl | rfl | rfl | rfl | rfl <;> exact Spread.mean_le_max _

/-- Comments are counted on lines that show something. -/
theorem commentLines_le : r.measures.commentLines ≤ r.measures.codeLines := by
  show r.codeRows.countP _ ≤ r.codeLines.length
  rw [← length_codeRows]
  exact List.countP_le_length

theorem codeLines_le : r.measures.codeLines ≤ r.measures.allLines :=
  List.length_filter_le _ _

variable {r}

/-- **The features of a region keep within their bounds.** -/
theorem holds {v : Vector} (h : r.features = .ok v) : v.Holds r.measures := by
  obtain ⟨hcode, rfl⟩ := eq_of_features h
  have hcomments := r.commentLines_le
  have hall : 0 < r.measures.allLines := Nat.lt_of_lt_of_le hcode r.codeLines_le
  have hblank : r.measures.allLines - r.measures.codeLines < r.measures.allLines :=
    Nat.sub_lt hall hcode
  refine {
    schema := rfl
    names := rfl
    values := rfl
    length_names := rfl
    length_values := rfl
    averages := fun entry hentry =>
      let ⟨haverage, hgreatest⟩ := lookup_averagesWithMax r.measures hentry
      ⟨haverage, hgreatest, r.mean_averagesWithMax hentry⟩
    counters := fun counter => Spread.mean_le_max _
    comments := ⟨r.measures.lookup_toVector 22 rfl rfl, by positivity, ?_⟩
    blanks := ⟨r.measures.lookup_toVector 23 rfl rfl, by positivity, ?_⟩
    rounded := fun hfits => ⟨?_, ?_, ?_⟩ }
  · exact div_le_one_of_le₀ (Nat.cast_le.mpr hcomments) (Nat.cast_nonneg _)
  · rw [div_lt_one (Nat.cast_pos.mpr hall)]
    exact Nat.cast_lt.mpr hblank
  · exact Number.share_bounds (Nat.lt_of_le_of_lt r.codeLines_le hfits) hcode hcomments
  · exact (Number.share_bounds hfits hall hblank.le).1
  · exact Number.share_lt_one hfits hblank

end Region

/-! ## Units -/

section Units

variable {parser : Parser} {u : SourceUnit}

/-- The vector holds of the rows `first` to `last` of a text, with the tokens of a node. -/
def Vector.HoldsOf (v : Vector) (text parentKind : String) (tree : Tree) (first last : Nat) :
    Prop :=
  ∃ r, Region.cut? (Text.splitLines text.toList) first last
    (tree.tokens (.ofString text) parentKind) = some r ∧ v.Holds r.measures

theorem holdsOf_of_compute? {text parentKind : String} {tree : Tree} {first last : Nat}
    {v : Vector} (h : compute? (.ofString text) (Text.splitLines text.toList) parentKind tree first
      last = some (.ok v)) : v.HoldsOf text parentKind tree first last := by
  rw [compute?_eq, Option.map_eq_some_iff] at h
  obtain ⟨r, hcut, hfeatures⟩ := h
  exact ⟨r, hcut, Region.holds hfeatures⟩

/-- The features of a unit hold of all its lines. -/
theorem holdsOf_of_extract {v : Vector} (h : extract parser u = .ok v) :
    ∃ text language tree, parsed parser u = .ok (text, language, tree) ∧
      v.HoldsOf text "" tree 0 ((Text.splitLines text.toList).length - 1) := by
  rw [extract, Option.getD_eq_iff] at h
  obtain hresult | ⟨-, hmisfit⟩ := h
  · rw [extract?_eq] at hresult
    rcases hparsed : parsed parser u with e | ⟨text, language, tree⟩
    · rw [hparsed] at hresult
      cases hresult
    · rw [hparsed] at hresult
      exact ⟨text, language, tree, rfl, holdsOf_of_compute? hresult⟩
  · cases hmisfit

/-- The features of a function hold of its rows. -/
theorem holdsOf_of_extractScopes {found : List ScopedFeatures}
    (h : extractScopes parser u = .ok found) {s : ScopedFeatures} (hs : s ∈ found) :
    ∃ text language tree, parsed parser u = .ok (text, language, tree) ∧
      ∃ scope ∈ tree.scopes (.ofString text) language, s.span = scope.span ∧
        s.features.HoldsOf text scope.parentKind scope.tree
          ((SourceText.ofString text).row scope.tree.info.start)
          (min ((SourceText.ofString text).row scope.tree.info.stop)
            ((Text.splitLines text.toList).length - 1)) := by
  rw [extractScopes, Option.getD_eq_iff] at h
  obtain hresult | ⟨-, hmisfit⟩ := h
  · rw [extractScopes?_eq] at hresult
    rcases hparsed : parsed parser u with e | ⟨text, language, tree⟩
    · rw [hparsed] at hresult
      cases hresult
    · rw [hparsed] at hresult
      have hmem : some (.ok s) ∈ found.map fun a => some (Except.ok (ε := UnitError) a) :=
        List.mem_map_of_mem hs
      rw [← Run.Job.allOk_eq_ok_iff.mp hresult, List.mem_map] at hmem
      obtain ⟨scope, hscope, hfeatures⟩ := hmem
      obtain ⟨result, hcompute, hmap⟩ := Option.map_eq_some_iff.mp hfeatures
      rcases result with e | v
      · cases hmap
      · obtain rfl := Except.ok.inj hmap
        exact ⟨text, language, tree, rfl, scope, hscope, rfl, holdsOf_of_compute? hcompute⟩
  · cases hmisfit

/-- **Extraction is safe.** Let the nodes of a unit's tree, if it has one, lie in its text and start
no later than they end. Then extraction, of the whole unit and of its functions, passes all checks
and comes to a result. Whatever features it comes to, of all lines of the text or of the rows of a
function, are 26 values under the names of the schema, no average exceeds the greatest value beside
it, and the shares of comments and of blank lines keep within their bounds. -/
theorem extract_safe
    (hnodes : ∀ {text language tree}, parsed parser u = .ok (text, language, tree) →
      ∀ n ∈ tree.nodes, n.Within 0 (Text.byteCount text.toList)) :
    Checked.extract? parser u = some (extract parser u) ∧
      Checked.extractScopes? parser u = some (extractScopes parser u) ∧
      (∀ v, extract parser u = .ok v →
        ∃ text language tree, parsed parser u = .ok (text, language, tree) ∧
          v.HoldsOf text "" tree 0 ((Text.splitLines text.toList).length - 1)) ∧
      ∀ found, extractScopes parser u = .ok found → ∀ s ∈ found,
        ∃ text language tree, parsed parser u = .ok (text, language, tree) ∧
          ∃ scope ∈ tree.scopes (.ofString text) language, s.span = scope.span ∧
            s.features.HoldsOf text scope.parentKind scope.tree
              ((SourceText.ofString text).row scope.tree.info.start)
              (min ((SourceText.ofString text).row scope.tree.info.stop)
                ((Text.splitLines text.toList).length - 1)) := by
  have hordered : ∀ {text language tree}, parsed parser u = .ok (text, language, tree) →
      ∀ n ∈ tree.nodes, n.start ≤ n.stop := fun hparsed n hn => (hnodes hparsed n hn).order
  obtain ⟨result, hresult⟩ := Option.isSome_iff_exists.mp (extract?_isSome hordered)
  obtain ⟨scopes, hscopes⟩ := Option.isSome_iff_exists.mp (extractScopes?_isSome hordered)
  refine ⟨?_, ?_, fun v hv => holdsOf_of_extract hv,
    fun found hfound s hs => holdsOf_of_extractScopes hfound hs⟩
  · rw [Checked.extract?_eq hnodes, extract, hresult]
    rfl
  · rw [Checked.extractScopes?_eq hnodes, extractScopes, hscopes]
    rfl

end Units

/-- The file with a comment and a function is read. -/
def parseCommented : Parser := fun _ text =>
  if text = commentedText then some commentedFile else none

/-- The file as a unit. -/
def commentedUnit : SourceUnit :=
  ⟨.file "a.rs" "r", commentedText.toUTF8⟩

theorem parsed_commentedUnit :
    parsed parseCommented commentedUnit = .ok (commentedText, .rust, commentedFile) := by
  have hcontent : commentedUnit.content = commentedText.toUTF8 := rfl
  have hlanguage : commentedUnit.language? = some .rust := by decide +kernel
  rw [parsed, SourceUnit.prepare_of_toUTF8 hcontent, hlanguage]
  rfl

theorem extract_commentedUnit : extract parseCommented commentedUnit =
    .ok (Region.whole commentedText commentedFile).measures.toVector := by
  have hcode : 0 < (Region.whole commentedText commentedFile).measures.codeLines :=
    Region.codeLines_pos ⟨"// x".toList, by decide, by decide⟩
  rw [extract, extract?_of_parsed parsed_commentedUnit (Region.fits_whole (by decide)),
    Region.features_of_code hcode]
  rfl

theorem extractScopes_commentedUnit : extractScopes parseCommented commentedUnit =
    .ok [⟨commentedScope.span,
      (Region.ofScope (.ofString commentedText) commentedScope).measures.toVector⟩] := by
  have hscopes : commentedFile.scopes (.ofString commentedText) .rust = [commentedScope] := rfl
  have hcode : 0 < (Region.ofScope (.ofString commentedText) commentedScope).measures.codeLines :=
    Region.codeLines_pos ⟨"fn a() \x7b\x7d".toList, by decide, by decide⟩
  rw [extractScopes, extractScopes?_eq, parsed_commentedUnit]
  dsimp only
  rw [hscopes, List.map_singleton, Region.scopeFeatures?_eq_features (by decide),
    Region.features_of_code hcode]
  rfl

/-- The file has features, and so has its function. -/
theorem extract_safe_commentedUnit :
    Checked.extract? parseCommented commentedUnit = some (extract parseCommented commentedUnit) ∧
      Checked.extractScopes? parseCommented commentedUnit =
        some (extractScopes parseCommented commentedUnit) ∧
      (∃ v, extract parseCommented commentedUnit = .ok v ∧
        v.HoldsOf commentedText "" commentedFile 0 1) ∧
      ∃ s, extractScopes parseCommented commentedUnit = .ok [s] ∧
        s.features.HoldsOf commentedText "source_file" (functionAt 5) 1 1 := by
  have hunit : ∀ {text language tree},
      parsed parseCommented commentedUnit = .ok (text, language, tree) →
        text = commentedText ∧ language = .rust ∧ tree = commentedFile := by
    intro text language tree hparsed
    rw [parsed_commentedUnit, Except.ok.injEq, Prod.mk.injEq, Prod.mk.injEq] at hparsed
    exact ⟨hparsed.1.symm, hparsed.2.1.symm, hparsed.2.2.symm⟩
  have hnodes : ∀ {text language tree},
      parsed parseCommented commentedUnit = .ok (text, language, tree) →
        ∀ n ∈ tree.nodes, n.Within 0 (Text.byteCount text.toList) := by
    intro text language tree hparsed
    obtain ⟨rfl, -, rfl⟩ := hunit hparsed
    decide
  obtain ⟨hextract, hscopes, hvector, hfound⟩ := extract_safe hnodes
  refine ⟨hextract, hscopes, ⟨_, extract_commentedUnit, ?_⟩, _, extractScopes_commentedUnit, ?_⟩
  · obtain ⟨text, language, tree, hparsed, hholds⟩ := hvector _ extract_commentedUnit
    obtain ⟨rfl, -, rfl⟩ := hunit hparsed
    exact hholds
  · obtain ⟨text, language, tree, hparsed, scope, hscope, -, hholds⟩ :=
      hfound _ extractScopes_commentedUnit _ (List.mem_singleton_self _)
    obtain ⟨rfl, rfl, rfl⟩ := hunit hparsed
    obtain rfl : scope = commentedScope := List.mem_singleton.mp hscope
    exact hholds

end Readability.Feature
