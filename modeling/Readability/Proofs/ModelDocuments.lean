import Readability.Proofs.Acceptance
import Readability.Proofs.Doubles
import Readability.Proofs.RoundTrip

/-!
# Models that were read can be written and read again

The document of a model may be written in many ways: fields in any order, with others between them,
defaults left out, records as lists of their fields, whole numbers for doubles. What is read is
always a model that makes sense (`check_eq_ok_iff`), and there is one document for it (`toValue`)
that is read as the same model again, as far as the texts of its doubles are.

Main statement: `ofText_rewritten`.
-/

namespace Readability.Model

open Readability.Data

/-! ## Models that make sense -/

/-- The doubles of a weighted feature. -/
def FeatureWeight.doubles (f : FeatureWeight) : List Float :=
  f.weight :: f.target.toList

section

/-- The doubles of a model. -/
def doubles (m : Model) : List Float :=
  [m.intercept, m.range.min, m.range.max, m.bands.low, m.bands.high] ++
    m.features.flatMap FeatureWeight.doubles

/-- A model that makes sense. -/
structure Valid (m : Model) : Prop where
  format : m.format = formatTag
  version : 0 < m.version ∧ m.version ≤ latestVersion
  schema : ∃ c ∈ m.schema.toList, Text.isBlank c = false
  features : m.features ≠ []
  names : m.featureNames.Nodup
  finite : AllFinite m.doubles
  range : m.range.min < m.range.max
  bands : 0 ≤ m.bands.low ∧ m.bands.low ≤ m.bands.high ∧ m.bands.high ≤ 1

end

theorem isShare_iff {x : Float} : isShare x = true ↔ 0 ≤ x ∧ x ≤ 1 := by
  rw [isShare, Bool.and_eq_true, decide_eq_true_eq, decide_eq_true_eq]

/-- A share is finite. -/
theorem isFinite_of_isShare {x : Float} (h : isShare x = true) : Decimal.isFinite x = true := by
  obtain ⟨hlow, hhigh⟩ := isShare_iff.mp h
  exact Number.isFinite_of_between rfl rfl hlow hhigh

theorem allFinite_features {features : List FeatureWeight} :
    AllFinite (features.flatMap FeatureWeight.doubles) ↔
      ∀ f ∈ features, Decimal.isFinite f.weight = true ∧
        ∀ target ∈ f.target, Decimal.isFinite target = true := by
  rw [allFinite_flatMap]
  refine forall₂_congr fun f _ => ?_
  rw [FeatureWeight.doubles, allFinite_cons]
  refine and_congr_right fun _ => ?_
  cases f.target with
  | none => simp [allFinite_nil]
  | some target => simp [allFinite_cons, allFinite_nil]

section

variable {m : Model}

theorem valid_of_check (h : m.check = .ok ()) : m.Valid := by
  rw [check] at h
  split_ifs at h with hformat hversion hschema hfeatures hintercept hrange hbands
  obtain ⟨hnames, -, hfinite⟩ := checkFeatures_eq_ok h
  rw [bne_iff_ne, ne_eq, not_not] at hformat
  rw [Bool.or_eq_true, not_or, beq_iff_eq, decide_eq_true_eq] at hversion
  rw [Bool.not_eq_true, Text.allBlank, List.all_eq_false] at hschema
  rw [List.isEmpty_iff] at hfeatures
  rw [Bool.not_eq_true, Bool.not_eq_false'] at hintercept
  rw [Bool.not_eq_true, Bool.not_eq_false', Bool.and_eq_true, Bool.and_eq_true,
    decide_eq_true_eq] at hrange
  obtain ⟨⟨hmin, hmax⟩, hrange⟩ := hrange
  simp only [Bool.or_eq_true, Bool.not_eq_true', decide_eq_true_eq, not_or,
    Bool.not_eq_false] at hbands
  obtain ⟨⟨hlow, hhigh⟩, hbands⟩ := hbands
  obtain ⟨hzero, -⟩ := isShare_iff.mp hlow
  obtain ⟨-, hone⟩ := isShare_iff.mp hhigh
  have hordered : m.bands.low ≤ m.bands.high :=
    Number.le_of_not_lt (Number.isNaN_of_le hone).1 (Number.isNaN_of_le hzero).2 hbands
  refine ⟨hformat, ⟨by omega, by omega⟩, ?_, hfeatures, hnames, ?_, hrange, hzero, hordered, hone⟩
  · obtain ⟨c, hc, hblank⟩ := hschema
    exact ⟨c, hc, by simpa using hblank⟩
  · rw [doubles, allFinite_append, allFinite_features]
    simp only [allFinite_cons, allFinite_nil, and_true]
    exact ⟨⟨hintercept, hmin, hmax, isFinite_of_isShare hlow, isFinite_of_isShare hhigh⟩, hfinite⟩

end

/-! ## Reading a written model -/

theorem back_link (l : Link) : back Link.decode (.text l.name) = some l := by
  rw [back, Json.echo]
  cases l <;> rfl

theorem back_range {r : ScoreRange} (hmin : Decimal.isFinite r.min = true)
    (hmax : Decimal.isFinite r.max = true) :
    back ScoreRange.decode (.record [("min", .float r.min), ("max", .float r.max)]) = some r := by
  rw [ScoreRange.decode, back_record _ _ _ _ List.prefix_rfl (by decide)]
  simp only [Fields.backRow, Field.required, back_float, if_pos hmin, if_pos hmax,
    Option.bind_some]
  rfl

theorem back_bands {b : Bands} (hlow : Decimal.isFinite b.low = true)
    (hhigh : Decimal.isFinite b.high = true) :
    back Bands.decode (.record [("low", .float b.low), ("high", .float b.high)]) = some b := by
  rw [Bands.decode, back_record _ _ _ _ List.prefix_rfl (by decide)]
  simp only [Fields.backRow, Field.required, back_float, if_pos hlow, if_pos hhigh,
    Option.bind_some]
  rfl

/-- A weighted feature as a document value. -/
def FeatureWeight.toValue (f : FeatureWeight) : Value :=
  .record ([("name", .text f.name), ("weight", .float f.weight)]
    ++ f.target.toList.map fun t => ("target", .float t))

/-- A target that is left out comes back as none. -/
theorem back_weight {f : FeatureWeight} (h : AllFinite f.doubles) :
    back FeatureWeight.decode f.toValue = some f := by
  obtain ⟨name, weight, _ | target⟩ := f
  · simp only [FeatureWeight.doubles, Option.toList_none, allFinite_cons, allFinite_nil,
      and_true] at h
    rw [FeatureWeight.decode, FeatureWeight.toValue,
      back_record _ _ _ _ ⟨["target"], rfl⟩ (by decide)]
    simp only [Option.toList_none, List.map_nil, List.append_nil, Fields.backRow, Field.required,
      Field.withDefault, back_text, back_float, if_pos h, Option.bind_some]
    rfl
  · simp only [FeatureWeight.doubles, Option.toList_some, allFinite_cons, allFinite_nil,
      and_true] at h
    have htarget : back (.option .float) (.float target) = some (some target) := by
      have hback := back_optional (some target)
      rwa [Value.ofOption, finite?, Option.filter_some, if_pos h.2] at hback
    rw [FeatureWeight.decode, FeatureWeight.toValue,
      back_record _ _ _ _ List.prefix_rfl (by decide)]
    simp only [Option.toList_some, List.map_cons, List.map_nil, List.cons_append, List.nil_append,
      Fields.backRow, Field.required, Field.withDefault, back_text, back_float, if_pos h.1, htarget,
      Option.bind_some]
    rfl

section

variable {m : Model}

theorem toValue_eq (m : Model) : m.toValue = .record [("format", .text m.format),
    ("version", .int m.version), ("schema", .text m.schema), ("link", .text m.link.name),
    ("intercept", .float m.intercept),
    ("range", .record [("min", .float m.range.min), ("max", .float m.range.max)]),
    ("bands", .record [("low", .float m.bands.low), ("high", .float m.bands.high)]),
    ("features", .list (m.features.map FeatureWeight.toValue))] := rfl

/-- Of a model that was written, all but its source comes back. -/
theorem back_toValue (h : m.Valid) :
    back Model.decode m.toValue = some { m with source := "" } := by
  have hfinite := h.finite
  rw [doubles, allFinite_append, allFinite_flatMap] at hfinite
  simp only [allFinite_cons, allFinite_nil, and_true] at hfinite
  obtain ⟨⟨hintercept, hmin, hmax, hlow, hhigh⟩, hfeatures⟩ := hfinite
  have hversion : back .word32 (.int m.version) = some m.version :=
    back_natBelow (Nat.lt_of_le_of_lt h.version.2 (by decide)) "u32"
  have hlist : back (.list FeatureWeight.decode) (.list (m.features.map FeatureWeight.toValue)) =
      some m.features :=
    back_items_all fun f hf => back_weight (hfeatures f hf)
  rw [Model.decode, toValue_eq, back_record _ _ _ _ List.prefix_rfl (by decide)]
  simp only [Fields.backRow, Field.required, Field.withDefault, back_text, hversion, back_link,
    back_float, if_pos hintercept, back_range hmin hmax, back_bands hlow hhigh, hlist,
    Option.bind_some]
  rfl

/-- What is written of a model can be read. -/
theorem legible_toValue (h : m.Valid) (hdoubles : ∀ x ∈ m.doubles, Json.ReadsBack x) :
    Json.Legible Json.depthLimit m.toValue := by
  simp only [doubles, List.forall_mem_append, List.forall_mem_cons,
    List.forall_mem_flatMap] at hdoubles
  obtain ⟨⟨hintercept, hmin, hmax, hlow, hhigh, -⟩, hfeatures⟩ := hdoubles
  have hversion : m.version < UInt64.size := Nat.lt_of_le_of_lt h.version.2 (by decide)
  have hweight : ∀ f ∈ m.features, Json.Legible 125 f.toValue := by
    intro f hf
    have hnumbers := hfeatures f hf
    rw [FeatureWeight.doubles, List.forall_mem_cons] at hnumbers
    refine Json.legible_record ?_
    rw [List.forall_mem_append, List.forall_mem_map]
    refine ⟨?_, fun target htarget => Json.legible_float (hnumbers.2 target htarget)⟩
    simp [Json.legible_text, Json.legible_float hnumbers.1]
  have hlist : Json.Legible 126 (.list (m.features.map FeatureWeight.toValue)) :=
    Json.legible_list (List.forall_mem_map.mpr hweight)
  have hrange : Json.Legible 126
      (.record [("min", .float m.range.min), ("max", .float m.range.max)]) :=
    Json.legible_record (by simp [Json.legible_float hmin, Json.legible_float hmax])
  have hbands : Json.Legible 126
      (.record [("low", .float m.bands.low), ("high", .float m.bands.high)]) :=
    Json.legible_record (by simp [Json.legible_float hlow, Json.legible_float hhigh])
  rw [toValue_eq]
  show Json.Legible (126 + 1) _
  refine Json.legible_record ?_
  simp [Json.legible_text, Json.legible_int hversion, Json.legible_float hintercept, hrange,
    hbands, hlist]

/-! ## Models from documents -/

/-- A document does not say where it comes from. -/
theorem source_of_decode {v : Value} (h : Model.decode .json v = .ok m) : m.source = "" := by
  have hrow := congrArg Except.toOption h
  rw [Model.decode, Decoder.record, toOption_map] at hrow
  obtain ⟨row, -, rfl⟩ := Option.map_eq_some_iff.mp hrow
  rfl

/-- **A model that a document was read as makes sense, and what is written of it is read as the
same model, if the texts of its doubles are read as these doubles.** -/
theorem ofText_rewritten {text : String} {m : Model} (h : ofText text = .ok m) :
    m.Valid ∧ ((∀ x ∈ m.doubles, Json.read (Json.floatText x) = .ok (.float x)) →
      ofText (Json.pretty m.toValue) = .ok m ∧ ofText (Json.compact m.toValue) = .ok m) := by
  obtain ⟨v, -, hdecode, hcheck⟩ := ofText_eq_ok_iff.mp h
  have hvalid := valid_of_check hcheck
  refine ⟨hvalid, fun hdoubles => ?_⟩
  have hlegible := legible_toValue hvalid fun x hx _ => hdoubles x hx
  have hback : Model.decode .json (Json.echo m.toValue) = .ok m := by
    have hsame : { m with source := "" } = m := by rw [← source_of_decode hdecode]
    have hsome := back_toValue hvalid
    rw [hsame] at hsome
    exact eq_ok_of_toOption hsome
  exact ⟨ofText_eq_ok_iff.mpr ⟨_, Json.read_pretty hlegible, hback, hcheck⟩,
    ofText_eq_ok_iff.mpr ⟨_, Json.read_compact hlegible, hback, hcheck⟩⟩

/-- A document with fields left out, in a list, and of no meaning. -/
def looseDocument : String :=
  "\x7b\"version\": 1, \"note\": [null], \"format\": \"readscope-model\", \"range\": [-1e2, 5], " ++
  "\"link\": \x7b\"inverted_logistic\": null\x7d, \"schema\": \"caf\\u00e9\", \"intercept\": 2, " ++
  "\"features\": [[\"a\\n\", 3e-1, 0.125], " ++
  "\x7b\"target\": null, \"weight\": -7, \"name\": \"b\"\x7d]\x7d"

/-- The model that it is read as. -/
def looseModel : Model where
  format := formatTag
  version := 1
  schema := "café"
  link := .invertedLogistic
  intercept := 2
  range := ⟨-100, 5⟩
  bands := .thirds
  features := [⟨"a\n", 0.3, some 0.125⟩, ⟨"b", -7, none⟩]
  source := ""

theorem ofText_rewritten_looseDocument :
    ofText looseDocument = .ok looseModel ∧ looseModel.Valid ∧
      (∀ x ∈ looseModel.doubles, Json.read (Json.floatText x) = .ok (.float x)) ∧
      ofText (Json.pretty looseModel.toValue) = .ok looseModel ∧
      ofText (Json.compact looseModel.toValue) = .ok looseModel := by
  have hread : ofText looseDocument = .ok looseModel := by
    refine eq_ok_of_toOption ?_
    decide +kernel
  have hdoubles : ∀ x ∈ looseModel.doubles,
      Report.readsFloat x (Json.floatText x) = true := by
    decide +kernel
  obtain ⟨hvalid, hsame⟩ := ofText_rewritten hread
  have hback : ∀ x ∈ looseModel.doubles, Json.read (Json.floatText x) = .ok (.float x) :=
    fun x hx => Report.read_of_readsFloat (hdoubles x hx)
  exact ⟨hread, hvalid, hback, hsame hback⟩

end

end Readability.Model
