import Readability.Proofs.JsonReading
import Readability.Report.Document

/-!
# Reports that were written are read back

A report comes back as it was written if all its doubles are finite. A double that
is not is written as null: where the report has to have a number, such a text is no
report any more; where it may have one, the number is missing afterwards.

`back` is what a reader makes of a value that was written and read. It is worked out
type by type, from the fields of a record and the items of a list (`back_record`,
`back_list`), with no look at texts: that is done once for all values, in
`Json.read_pretty`.

Main statement: `ofText_toText`.
-/

namespace Readability.Data

open Json (echo echoItems echoEntries)

/-- What comes back of a value that was written, if anything does. -/
def back (decode : Decoder α) (v : Value) : Option α :=
  (decode .json (echo v)).toOption

theorem toOption_map (f : α → β) (x : Except ε α) : (x.map f).toOption = x.toOption.map f := by
  cases x <;> rfl

theorem toOption_bind (x : Except ε α) (f : α → Except ε β) :
    (x >>= f).toOption = x.toOption.bind fun a => (f a).toOption := by
  cases x <;> rfl

theorem eq_ok_of_toOption {x : Except ε α} {a : α} (h : x.toOption = some a) : x = .ok a := by
  cases x with
  | error fault => cases h
  | ok b =>
    cases h
    rfl

theorem exists_error_of_toOption {x : Except ε α} (h : x.toOption = none) :
    ∃ fault, x = .error fault := by
  cases x with
  | error fault => exact ⟨fault, rfl⟩
  | ok b => cases h

theorem back_text (s : String) : back .text (.text s) = some s := by
  rw [back, echo]
  rfl

theorem back_bool (b : Bool) : back .bool (.bool b) = some b := by
  rw [back, echo]
  rfl

theorem back_natBelow {n limit : Nat} (h : n < limit) (expected : String) :
    back (.natBelow limit expected) (.int n) = some n := by
  have hn : (decide (0 ≤ (n : Int)) && decide ((n : Int) < (limit : Int))) = true := by
    simp only [Bool.and_eq_true, decide_eq_true_eq]
    omega
  rw [back, echo, Decoder.natBelow, if_pos hn]
  rfl

theorem back_float (x : Float) :
    back .float (.float x) = if Decimal.isFinite x = true then some x else none := by
  rw [back, echo]
  split <;> rfl

/-- A double that may be missing, and is missing afterwards if it is not finite. -/
def finite? (x? : Option Float) : Option Float :=
  x?.filter fun x => Decimal.isFinite x

theorem back_optional (x? : Option Float) :
    back (.option .float) (.ofOption .float x?) = some (finite? x?) := by
  cases x? with
  | none =>
    rw [back, Value.ofOption, echo]
    rfl
  | some x =>
    rw [back, Value.ofOption, echo, finite?, Option.filter_some]
    split <;> rfl

theorem echoItems_eq (items : List Value) : echoItems items = items.map echo := by
  induction items with
  | nil => rw [echoItems, List.map_nil]
  | cons item items ih => rw [echoItems, List.map_cons, ih]

theorem echoEntries_eq (entries : List (String × Value)) :
    echoEntries entries = entries.map fun e => (e.1, echo e.2) := by
  induction entries with
  | nil => rw [echoEntries, List.map_nil]
  | cons e entries ih => rw [echoEntries, List.map_cons, ih]

theorem back_list (decode : Decoder α) (items : List Value) :
    back (.list decode) (.list items) = items.mapM (back decode) := by
  rw [back, echo, Decoder.list, echoItems_eq]
  induction items with
  | nil => rfl
  | cons item items ih =>
    rw [List.map_cons, List.mapM_cons, List.mapM_cons, toOption_bind, ← ih]
    simp only [toOption_bind]
    rfl

/-! ## Records -/

/-- A value in front of the values of the fields behind. -/
def Row.cons (a : α) (row : Row αs) : Row (α :: αs) :=
  (a, row)

namespace Fields

/-- What comes back of the fields of a record, its entries in their order. -/
def backRow : Fields αs → List (String × Value) → Option (Row αs)
  | .nil, _ => some ()
  | .cons field rest, [] =>
    field.missing.bind fun a => (rest.backRow []).map (Row.cons a)
  | .cons field rest, (_, v) :: entries =>
    (back field.decode v).bind fun a => (rest.backRow entries).map (Row.cons a)

/-- A field that was read stays as it is. -/
theorem ofEntries_read (field : Field α) (rest : Fields αs) (form : Form) (a : α) :
    ∀ (entries : List (String × Value)) (slots : Slots αs),
      (∀ e ∈ entries, e.1 ≠ field.name) →
      (Fields.cons field rest).ofEntries form false entries (some a, slots) =
        (rest.ofEntries form false entries slots).map (Row.cons a) := by
  intro entries
  induction entries with
  | nil =>
    intro slots _
    rfl
  | cons e entries ih =>
    intro slots hnames
    obtain ⟨name, v⟩ := e
    have hname : (field.name == name) = false := by
      simpa using (hnames (name, v) List.mem_cons_self).symm
    have hrest : ∀ e ∈ entries, e.1 ≠ field.name :=
      fun e he => hnames e (List.mem_cons_of_mem _ he)
    simp only [ofEntries, put, hname, Bool.false_eq_true, if_false]
    rcases rest.put form name v slots with _ | ⟨fault | slots⟩
    · exact ih slots hrest
    · rfl
    · exact ih slots hrest

/-- The entry of the first field is read, then the others. -/
theorem ofEntries_first (field : Field α) (rest : Fields αs) (form : Form) (v : Value)
    (entries : List (String × Value)) (hnames : ∀ e ∈ entries, e.1 ≠ field.name) :
    (Fields.cons field rest).ofEntries form false ((field.name, v) :: entries)
        (Fields.cons field rest).empty =
      (field.decode form v >>= fun a =>
        (rest.ofEntries form false entries rest.empty).map (Row.cons a)) := by
  simp only [ofEntries, put, empty, beq_self_eq_true, if_true]
  rcases field.decode form v with fault | a
  · rfl
  · exact ofEntries_read field rest form a entries rest.empty hnames

theorem ofEntries_echo (fields : Fields αs) (entries : List (String × Value))
    (hleading : entries.map Prod.fst <+: fields.names) (hnodup : fields.names.Nodup) :
    (fields.ofEntries .json false (echoEntries entries) fields.empty).toOption =
      fields.backRow entries := by
  induction fields generalizing entries with
  | nil =>
    have hnil : entries = [] := by simpa [names] using hleading
    subst hnil
    rfl
  | cons field rest ih =>
    rw [names, List.nodup_cons] at hnodup
    rcases entries with _ | ⟨⟨name, v⟩, entries⟩
    · have hrest := ih [] List.nil_prefix hnodup.2
      rw [echoEntries, ofEntries] at hrest
      rw [echoEntries, ofEntries, backRow]
      show ((Fields.cons field rest).close (none, rest.empty)).toOption = _
      rcases hmissing : field.missing with _ | a
      · simp only [close, hmissing]
        rfl
      · simp only [close, hmissing]
        show ((rest.close rest.empty).map (Row.cons a)).toOption = _
        rw [toOption_map, hrest]
        rfl
    · obtain ⟨hname, hbehind⟩ : name = field.name ∧ entries.map Prod.fst <+: rest.names := by
        simpa [names, List.cons_prefix_cons] using hleading
      subst hname
      have hnames : ∀ e ∈ echoEntries entries, e.1 ≠ field.name := by
        rw [echoEntries_eq]
        intro e he hname
        obtain ⟨other, hother, rfl⟩ := List.mem_map.mp he
        have hmem : other.1 ∈ rest.names := hbehind.subset (List.mem_map_of_mem hother)
        exact hnodup.1 (hname ▸ hmem)
      rw [echoEntries, ofEntries_first field rest .json (echo v) _ hnames, toOption_bind]
      simp only [toOption_map, ih entries hbehind hnodup.2]
      rfl

end Fields

/-- What comes back of a record is what comes back of its fields. -/
theorem back_record (title : String) (fields : Fields αs) (build : Row αs → α)
    (entries : List (String × Value)) (hleading : entries.map Prod.fst <+: fields.names)
    (hnodup : fields.names.Nodup) :
    back (.record title fields build) (.record entries) =
      (fields.backRow entries).map build := by
  rw [back, echo]
  show ((fields.ofEntries .json false (echoEntries entries) fields.empty).map build).toOption = _
  rw [toOption_map, fields.ofEntries_echo entries hleading hnodup]

end Readability.Data

namespace Readability

open Readability.Data

/-! ## The parts of a report -/

theorem back_count {n : Nat} (h : n < UInt64.size) : back .count (.int n) = some n :=
  back_natBelow h "usize"

theorem back_instant {t : Time.Instant} (h : Time.Instant.parse t.text = .ok t) :
    back Time.Instant.decode t.toValue = some t := by
  rw [back, Time.Instant.toValue, Json.echo, Time.Instant.decode, h]
  rfl

theorem back_language (l : Source.Language) :
    back Source.Language.decode (.text l.tag) = some l := by
  rw [back, Json.echo]
  cases l <;> rfl

theorem back_band (b : Model.Band) : back Model.Band.decode (.text b.name) = some b := by
  rw [back, Json.echo]
  cases b <;> rfl

theorem back_state (s : Run.State) : back Run.State.decode (.text s.name) = some s := by
  rw [back, Json.echo]
  cases s <;> rfl

theorem back_scope {s : Source.ScopeSpan} (hstart : s.startLine < UInt64.size)
    (hend : s.endLine < UInt64.size) : back Source.ScopeSpan.decode s.toValue = some s := by
  rw [Source.ScopeSpan.decode, Source.ScopeSpan.toValue,
    back_record _ _ _ _ List.prefix_rfl (by decide)]
  simp only [Fields.backRow, Field.required, back_text, back_count hstart, back_count hend,
    Option.bind_some]
  rfl

/-- The counts in a unit's name. -/
def Source.UnitId.counts (id : Source.UnitId) : List Nat :=
  id.scope.toList.flatMap fun s => [s.startLine, s.endLine]

theorem back_unit {id : Source.UnitId} (h : ∀ n ∈ id.counts, n < UInt64.size) :
    back Source.UnitId.decode id.toValue = some id := by
  obtain ⟨path, revision, _ | s⟩ := id
  · rw [Source.UnitId.decode, Source.UnitId.toValue,
      back_record _ _ _ _ ⟨["scope"], rfl⟩ (by decide)]
    simp only [Option.toList_none, List.map_nil, List.append_nil, Fields.backRow, Field.required,
      Field.withDefault, back_text, Option.bind_some]
    rfl
  · have hscope : back Source.ScopeSpan.decode s.toValue = some s :=
      back_scope (h _ (by simp [Source.UnitId.counts])) (h _ (by simp [Source.UnitId.counts]))
    have hsome : back (.option Source.ScopeSpan.decode) s.toValue = some (some s) := by
      have hmap : back (.option Source.ScopeSpan.decode) s.toValue =
          (back Source.ScopeSpan.decode s.toValue).map some := by
        rw [back, back, ← toOption_map, Source.ScopeSpan.toValue, Json.echo]
        rfl
      rw [hmap, hscope]
      rfl
    rw [Source.UnitId.decode, Source.UnitId.toValue,
      back_record _ _ _ _ List.prefix_rfl (by decide)]
    simp only [Option.toList_some, List.map_cons, List.map_nil, List.cons_append, List.nil_append,
      Fields.backRow, Field.required, Field.withDefault, back_text, hsome, Option.bind_some]
    rfl

theorem back_error (e : Source.UnitError) : back Source.UnitError.decode e.toValue = some e := by
  cases e <;>
    simp only [back, Source.UnitError.toValue, Source.UnitError.kind, Source.UnitError.detail,
      Json.echo, Json.echoEntries] <;> rfl

/-- Items that come back under a condition, each as what is kept of it. -/
theorem back_items {decode : Decoder α} {write : α → Value} {keep : α → α} {p : α → Prop}
    [DecidablePred p] {items : List α}
    (h : ∀ a ∈ items, back decode (write a) = if p a then some (keep a) else none) :
    back (.list decode) (.list (items.map write)) =
      if ∀ a ∈ items, p a then some (items.map keep) else none := by
  rw [back_list]
  induction items with
  | nil => rfl
  | cons a items ih =>
    have hitems := ih fun b hb => h b (List.mem_cons_of_mem _ hb)
    rw [List.map_cons, List.mapM_cons, hitems, h a List.mem_cons_self]
    by_cases ha : p a
    · by_cases hrest : ∀ b ∈ items, p b
      · rw [if_pos ha, if_pos hrest, if_pos (List.forall_mem_cons.mpr ⟨ha, hrest⟩)]
        rfl
      · rw [if_pos ha, if_neg hrest, if_neg fun hall => hrest (List.forall_mem_cons.mp hall).2]
        rfl
    · rw [if_neg ha, if_neg fun hall => ha (List.forall_mem_cons.mp hall).1]
      rfl

theorem back_items_all {decode : Decoder α} {write : α → Value} {items : List α}
    (h : ∀ a ∈ items, back decode (write a) = some a) :
    back (.list decode) (.list (items.map write)) = some items := by
  have hitems := @back_items α decode write id (fun _ => True) _ items fun a ha => by
    rw [h a ha, if_pos trivial, id]
  rw [hitems, if_pos fun _ _ => trivial, List.map_id]

/-- Doubles that are finite. -/
def AllFinite (xs : List Float) : Prop :=
  ∀ x ∈ xs, Decimal.isFinite x = true

instance (xs : List Float) : Decidable (AllFinite xs) :=
  inferInstanceAs (Decidable (∀ x ∈ xs, Decimal.isFinite x = true))

theorem allFinite_nil : AllFinite [] ↔ True :=
  iff_true_intro fun _ hx => nomatch hx

theorem allFinite_cons {x : Float} {xs : List Float} :
    AllFinite (x :: xs) ↔ Decimal.isFinite x = true ∧ AllFinite xs :=
  List.forall_mem_cons

theorem allFinite_append {xs ys : List Float} :
    AllFinite (xs ++ ys) ↔ AllFinite xs ∧ AllFinite ys :=
  List.forall_mem_append

theorem allFinite_flatMap {items : List α} {f : α → List Float} :
    AllFinite (items.flatMap f) ↔ ∀ a ∈ items, AllFinite (f a) :=
  List.forall_mem_flatMap

theorem allFinite_map {items : List α} {f : α → Float} :
    AllFinite (items.map f) ↔ ∀ a ∈ items, Decimal.isFinite (f a) = true :=
  List.forall_mem_map

theorem finite?_eq_self_iff (x? : Option Float) : finite? x? = x? ↔ AllFinite x?.toList := by
  cases x? with
  | none => exact iff_of_true rfl (allFinite_nil.mpr trivial)
  | some x => simp [finite?, Option.filter_some, allFinite_cons, allFinite_nil]

/-- A part that comes back under a condition puts the condition on the whole. -/
theorem ite_bind {p : Prop} [Decidable p] (a : α) (f : α → Option β) :
    (if p then some a else none).bind f = if p then f a else none := by
  split <;> rfl

theorem ite_map {p : Prop} [Decidable p] (x? : Option α) (f : α → β) :
    (if p then x? else none).map f = if p then x?.map f else none := by
  split <;> rfl

theorem back_floats (xs : List Float) :
    back (.list .float) (.list (xs.map .float)) = if AllFinite xs then some xs else none := by
  have hitems := @back_items Float .float .float id (fun x => Decimal.isFinite x = true) _ xs
    fun x _ => back_float x
  rw [List.map_id] at hitems
  exact hitems

theorem back_features (v : Feature.Vector) :
    back Feature.Vector.decode v.toValue = if AllFinite v.values then some v else none := by
  have hnames : back (.list .text) (.texts v.names) = some v.names :=
    back_items_all fun s _ => back_text s
  rw [Feature.Vector.decode, Feature.Vector.toValue,
    back_record _ _ _ _ List.prefix_rfl (by decide)]
  simp only [Fields.backRow, Field.required, back_text, hnames, back_floats, Option.bind_some]
  split <;> rfl

/-- The doubles of a model's description. -/
def Model.Info.doubles (i : Model.Info) : List Float :=
  [i.rangeMin, i.rangeMax]

theorem back_model {i : Model.Info} (h : i.version < UInt32.size) :
    back Model.Info.decode i.toValue = if AllFinite i.doubles then some i else none := by
  have hversion : back .word32 (.int i.version) = some i.version := back_natBelow h "u32"
  rw [Model.Info.decode, Model.Info.toValue, back_record _ _ _ _ List.prefix_rfl (by decide)]
  simp only [Fields.backRow, Field.required, back_text, hversion, back_float, Option.bind_some,
    ite_bind, ite_map, ← ite_and, Model.Info.doubles, allFinite_cons, allFinite_nil, and_true]
  split <;> rfl

namespace Report

/-- The doubles of a record. -/
def Record.doubles (r : Record) : List Float :=
  r.features.values ++ [r.score]

theorem back_score {r : Record} (hunit : ∀ n ∈ r.unit.counts, n < UInt64.size)
    (htime : Time.Instant.parse r.timestamp.text = .ok r.timestamp) :
    back Record.decode r.toValue = if AllFinite r.doubles then some r else none := by
  rw [Record.decode, Record.toValue, back_record _ _ _ _ List.prefix_rfl (by decide)]
  simp only [Fields.backRow, Field.required, back_unit hunit, back_language, back_features,
    back_float, back_band, back_instant htime, Option.bind_some, ite_bind, ite_map, ← ite_and,
    Record.doubles, allFinite_append, allFinite_cons, allFinite_nil, and_true]
  split <;> rfl

theorem back_failure {f : Failure} (hunit : ∀ n ∈ f.unit.counts, n < UInt64.size) :
    back Failure.decode f.toValue = some f := by
  rw [Failure.decode, Failure.toValue, back_record _ _ _ _ List.prefix_rfl (by decide)]
  simp only [Fields.backRow, Field.required, back_unit hunit, back_error, Option.bind_some]
  rfl

/-- The doubles of a file's trend. -/
def FileTrend.doubles (t : FileTrend) : List Float :=
  [t.firstScore, t.lastScore, t.delta]

theorem back_trend {t : FileTrend} (h : t.samples < UInt64.size) :
    back FileTrend.decode t.toValue = if AllFinite t.doubles then some t else none := by
  rw [FileTrend.decode, FileTrend.toValue, back_record _ _ _ _ List.prefix_rfl (by decide)]
  simp only [Fields.backRow, Field.required, back_text, back_count h, back_float,
    Option.bind_some, ite_bind, ite_map, ← ite_and, FileTrend.doubles, allFinite_cons,
    allFinite_nil, and_true]
  split <;> rfl

/-- The mean of a revision without a change that is not finite. -/
def RevisionSummary.settled (s : RevisionSummary) : RevisionSummary :=
  { s with delta := finite? s.delta }

theorem RevisionSummary.settled_eq_iff (s : RevisionSummary) :
    s.settled = s ↔ AllFinite s.delta.toList := by
  rw [← finite?_eq_self_iff]
  obtain ⟨revision, timestamp, units, mean, delta⟩ := s
  simp only [RevisionSummary.settled, RevisionSummary.mk.injEq, true_and]

theorem back_revision {s : RevisionSummary} (hunits : s.units < UInt64.size)
    (htime : Time.Instant.parse s.timestamp.text = .ok s.timestamp) :
    back RevisionSummary.decode s.toValue =
      if Decimal.isFinite s.mean = true then some s.settled else none := by
  rw [RevisionSummary.decode, RevisionSummary.toValue,
    back_record _ _ _ _ List.prefix_rfl (by decide)]
  simp only [Fields.backRow, Field.required, Field.optional, back_text, back_instant htime,
    back_count hunits, back_float, back_optional, Option.bind_some, ite_bind]
  split <;> rfl

/-- The counts of a summary. -/
def Summary.counts (s : Summary) : List Nat :=
  [s.count, s.failures, s.bands.low, s.bands.medium, s.bands.high]

/-- A summary without numbers that are not finite. -/
def Summary.settled (s : Summary) : Summary :=
  { s with
    mean := finite? s.mean
    median := finite? s.median
    min := finite? s.min
    max := finite? s.max
    trendPerDay := finite? s.trendPerDay }

/-- The numbers that a summary has. -/
def Summary.optional (s : Summary) : List Float :=
  s.mean.toList ++ s.median.toList ++ s.min.toList ++ s.max.toList ++ s.trendPerDay.toList

theorem Summary.settled_eq_iff (s : Summary) : s.settled = s ↔ AllFinite s.optional := by
  obtain ⟨count, failures, mean, median, min, max, trend, bands⟩ := s
  simp only [Summary.settled, Summary.optional, Summary.mk.injEq, finite?_eq_self_iff,
    allFinite_append, true_and, and_true, and_assoc]

theorem back_summary {s : Summary} (h : ∀ n ∈ s.counts, n < UInt64.size) :
    back Summary.decode s.toValue = some s.settled := by
  simp only [Summary.counts, List.forall_mem_cons] at h
  obtain ⟨hcount, hfailures, hlow, hmedium, hhigh, -⟩ := h
  have hbands : back BandCounts.decode s.bands.toValue = some s.bands := by
    rw [BandCounts.decode, BandCounts.toValue, back_record _ _ _ _ List.prefix_rfl (by decide)]
    simp only [Fields.backRow, Field.required, back_count hlow, back_count hmedium,
      back_count hhigh, Option.bind_some]
    rfl
  rw [Summary.decode, Summary.toValue, back_record _ _ _ _ List.prefix_rfl (by decide)]
  simp only [Fields.backRow, Field.required, Field.optional, back_count hcount,
    back_count hfailures, back_optional, hbands, Option.bind_some]
  rfl

/-! ## The whole report -/

/-- The doubles that a report has to have. -/
def required (r : Report) : List Float :=
  r.model.doubles ++ r.records.flatMap Record.doubles ++ r.files.flatMap FileTrend.doubles
    ++ r.revisions.map RevisionSummary.mean

/-- The doubles that a report has but need not have. -/
def optional (r : Report) : List Float :=
  r.summary.optional ++ r.revisions.flatMap fun s => s.delta.toList

/-- The counts of a report fit sixty-four bits, its model's version thirty-two. -/
structure Fits (r : Report) : Prop where
  walked : r.revisionsWalked < UInt64.size
  version : r.model.version < UInt32.size
  records : ∀ s ∈ r.records, ∀ n ∈ s.unit.counts, n < UInt64.size
  failures : ∀ f ∈ r.failures, ∀ n ∈ f.unit.counts, n < UInt64.size
  summary : ∀ n ∈ r.summary.counts, n < UInt64.size
  files : ∀ t ∈ r.files, t.samples < UInt64.size
  revisions : ∀ s ∈ r.revisions, s.units < UInt64.size

/-- The instants of a report. -/
def instants (r : Report) : List Time.Instant :=
  r.generatedAt :: (r.records.map Record.timestamp ++ r.revisions.map RevisionSummary.timestamp)

/-- A report without those numbers that are not finite and need not be there. -/
def settled (r : Report) : Report :=
  { r with summary := r.summary.settled, revisions := r.revisions.map RevisionSummary.settled }

theorem back_report {r : Report} (hfits : r.Fits)
    (hinstants : ∀ t ∈ r.instants, Time.Instant.parse t.text = .ok t) :
    back decode r.toValue = if AllFinite r.required then some r.settled else none := by
  simp only [instants, List.forall_mem_cons, List.forall_mem_append, List.forall_mem_map]
    at hinstants
  obtain ⟨hgenerated, htimes, hdates⟩ := hinstants
  have hrecords := @back_items Record Record.decode Record.toValue id _ _ r.records
    fun s hs => back_score (hfits.records s hs) (htimes s hs)
  have hfailed := @back_items_all Failure Failure.decode Failure.toValue r.failures
    fun f hf => back_failure (hfits.failures f hf)
  have hfiles := @back_items FileTrend FileTrend.decode FileTrend.toValue id _ _ r.files
    fun t ht => back_trend (hfits.files t ht)
  have hmeans := @back_items RevisionSummary RevisionSummary.decode RevisionSummary.toValue
    RevisionSummary.settled _ _ r.revisions
    fun s hs => back_revision (hfits.revisions s hs) (hdates s hs)
  rw [decode, toValue, back_record _ _ _ _ List.prefix_rfl (by decide)]
  simp only [Fields.backRow, Field.required, back_text, back_instant hgenerated,
    back_model hfits.version, back_state, back_bool, back_count hfits.walked, hrecords, hfailed,
    back_summary hfits.summary, hfiles, hmeans, Option.bind_some, ite_bind, ite_map, ← ite_and,
    required, allFinite_append, allFinite_flatMap, allFinite_map, and_assoc, List.map_id]
  split <;> rfl

theorem settled_eq_iff (r : Report) : r.settled = r ↔ AllFinite r.optional := by
  have hrevisions : r.revisions.map RevisionSummary.settled = r.revisions ↔
      ∀ s ∈ r.revisions, s.settled = s := by
    simpa using (List.map_inj_left : r.revisions.map RevisionSummary.settled =
      r.revisions.map id ↔ _)
  rw [optional, allFinite_append, allFinite_flatMap, ← Summary.settled_eq_iff]
  simp only [← RevisionSummary.settled_eq_iff, ← hrevisions]
  obtain ⟨⟩ := r
  simp only [settled, Report.mk.injEq, true_and]

end Report

/-! ## What is written can be read -/

namespace Data.Json

variable {room : Nat}

theorem legible_list {items : List Value} (h : ∀ v ∈ items, Legible room v) :
    Legible (room + 1) (.list items) := by
  rw [Legible]
  refine ⟨Nat.succ_pos room, ?_⟩
  induction items with
  | nil => trivial
  | cons v items ih =>
    rw [LegibleItems]
    exact ⟨h v List.mem_cons_self, ih fun w hw => h w (List.mem_cons_of_mem _ hw)⟩

theorem legible_record {entries : List (String × Value)} (h : ∀ e ∈ entries, Legible room e.2) :
    Legible (room + 1) (.record entries) := by
  rw [Legible]
  refine ⟨Nat.succ_pos room, ?_⟩
  induction entries with
  | nil => trivial
  | cons e entries ih =>
    rw [LegibleEntries]
    exact ⟨h e List.mem_cons_self, ih fun f hf => h f (List.mem_cons_of_mem _ hf)⟩

theorem legible_text (s : String) : Legible room (.text s) := by
  rw [Legible]
  trivial

theorem legible_int {n : Nat} (h : n < UInt64.size) : Legible room (.int n) := by
  rw [Legible]
  omega

theorem legible_float {x : Float} (h : ReadsBack x) : Legible room (.float x) := by
  rw [Legible]
  exact h

theorem legible_optional {x? : Option Float} (h : ∀ x ∈ x?.toList, ReadsBack x) :
    Legible room (.ofOption .float x?) := by
  cases x? with
  | none =>
    rw [Value.ofOption, Legible]
    trivial
  | some x => exact legible_float (h x (by simp))

end Data.Json

namespace Report

open Data.Json

variable {room : Nat}

theorem legible_unit {id : Source.UnitId} (h : ∀ n ∈ id.counts, n < UInt64.size) :
    Legible (room + 2) id.toValue := by
  obtain ⟨path, revision, _ | s⟩ := id
  · refine legible_record ?_
    simp [legible_text]
  · have hstart : s.startLine < UInt64.size := h _ (by simp [Source.UnitId.counts])
    have hend : s.endLine < UInt64.size := h _ (by simp [Source.UnitId.counts])
    have hscope : Legible (room + 1) s.toValue := by
      refine legible_record ?_
      simp [legible_text, legible_int hstart, legible_int hend]
    refine legible_record ?_
    simp [legible_text, hscope]

theorem legible_score {r : Record} (hunit : ∀ n ∈ r.unit.counts, n < UInt64.size)
    (hdoubles : ∀ x ∈ r.doubles, ReadsBack x) : Legible (room + 3) r.toValue := by
  rw [Record.doubles, List.forall_mem_append] at hdoubles
  have hscore : ReadsBack r.score := hdoubles.2 _ (List.mem_singleton_self _)
  have hnames : Legible (room + 1) (.texts r.features.names) :=
    legible_list (by simp [legible_text])
  have hvalues : Legible (room + 1) (.list (r.features.values.map .float)) := by
    refine legible_list (List.forall_mem_map.mpr fun x hx => ?_)
    exact legible_float (hdoubles.1 x hx)
  have hfeatures : Legible (room + 2) r.features.toValue :=
    legible_record (by simp [legible_text, hnames, hvalues])
  refine legible_record ?_
  simp [legible_text, legible_float hscore, legible_unit hunit, hfeatures, Time.Instant.toValue]

theorem legible_failure {f : Failure} (hunit : ∀ n ∈ f.unit.counts, n < UInt64.size) :
    Legible (room + 3) f.toValue := by
  have hdetail : Legible (room + 1) f.error.detail := by
    cases f.error with
    | notFound path revision => exact legible_record (by simp [legible_text])
    | _ => exact legible_text _
  have herror : Legible (room + 2) f.error.toValue :=
    legible_record (by simp [legible_text, hdetail])
  exact legible_record (by simp [legible_unit hunit, herror])

theorem legible_summary {s : Summary} (hcounts : ∀ n ∈ s.counts, n < UInt64.size)
    (hdoubles : ∀ x ∈ s.optional, ReadsBack x) : Legible (room + 2) s.toValue := by
  simp only [Summary.counts, List.forall_mem_cons] at hcounts
  obtain ⟨hcount, hfailures, hlow, hmedium, hhigh, -⟩ := hcounts
  simp only [Summary.optional, List.forall_mem_append] at hdoubles
  obtain ⟨⟨⟨⟨hmean, hmedian⟩, hmin⟩, hmax⟩, htrend⟩ := hdoubles
  have hbands : Legible (room + 1) s.bands.toValue :=
    legible_record (by simp [legible_int hlow, legible_int hmedium, legible_int hhigh])
  refine legible_record ?_
  simp [legible_int hcount, legible_int hfailures, legible_optional hmean,
    legible_optional hmedian, legible_optional hmin, legible_optional hmax,
    legible_optional htrend, hbands]

theorem legible_trend {t : FileTrend} (hsamples : t.samples < UInt64.size)
    (hdoubles : ∀ x ∈ t.doubles, ReadsBack x) : Legible (room + 1) t.toValue := by
  simp only [FileTrend.doubles, List.forall_mem_cons] at hdoubles
  obtain ⟨hfirst, hlast, hdelta, -⟩ := hdoubles
  refine legible_record ?_
  simp [legible_text, legible_int hsamples, legible_float hfirst, legible_float hlast,
    legible_float hdelta]

theorem legible_revision {s : RevisionSummary} (hunits : s.units < UInt64.size)
    (hmean : ReadsBack s.mean) (hdelta : ∀ x ∈ s.delta.toList, ReadsBack x) :
    Legible (room + 1) s.toValue := by
  refine legible_record ?_
  simp [legible_text, legible_int hunits, legible_float hmean, legible_optional hdelta,
    Time.Instant.toValue]

theorem legible_model {i : Model.Info} (hversion : i.version < UInt32.size)
    (hdoubles : ∀ x ∈ i.doubles, ReadsBack x) : Legible (room + 1) i.toValue := by
  simp only [Model.Info.doubles, List.forall_mem_cons] at hdoubles
  obtain ⟨hmin, hmax, -⟩ := hdoubles
  have hword : i.version < UInt64.size := Nat.lt_trans hversion (by decide)
  refine legible_record ?_
  simp [legible_text, legible_int hword, legible_float hmin, legible_float hmax]

theorem legible_toValue {r : Report} (hfits : r.Fits)
    (hdoubles : ∀ x ∈ r.required ++ r.optional, ReadsBack x) :
    Legible depthLimit r.toValue := by
  simp only [Report.required, Report.optional, List.forall_mem_append, List.forall_mem_flatMap,
    List.forall_mem_map] at hdoubles
  obtain ⟨⟨⟨⟨hmodel, hscores⟩, htrends⟩, hmeans⟩, hsummary, hdeltas⟩ := hdoubles
  have hrecords : Legible 126 (.list (r.records.map Record.toValue)) :=
    legible_list <| List.forall_mem_map.mpr fun s hs =>
      legible_score (hfits.records s hs) (hscores s hs)
  have hfailures : Legible 126 (.list (r.failures.map Failure.toValue)) :=
    legible_list <| List.forall_mem_map.mpr fun f hf => legible_failure (hfits.failures f hf)
  have hfiles : Legible 126 (.list (r.files.map FileTrend.toValue)) :=
    legible_list <| List.forall_mem_map.mpr fun t ht =>
      legible_trend (hfits.files t ht) (htrends t ht)
  have hrevisions : Legible 126 (.list (r.revisions.map RevisionSummary.toValue)) :=
    legible_list <| List.forall_mem_map.mpr fun s hs =>
      legible_revision (hfits.revisions s hs) (hmeans s hs) (hdeltas s hs)
  have hinfo : Legible 126 r.model.toValue := legible_model hfits.version hmodel
  have hnumbers : Legible 126 r.summary.toValue :=
    legible_summary hfits.summary hsummary
  have hpartial : Legible 126 (.bool r.isPartial) := by
    rw [Legible]
    trivial
  show Legible (126 + 1) r.toValue
  refine legible_record ?_
  simp [legible_text, hinfo, hpartial, legible_int hfits.walked, hrecords, hfailures, hnumbers,
    hfiles, hrevisions, Time.Instant.toValue]

/-- **A report comes back from its text exactly when all its doubles are finite. If one that it has
to have is not, nothing does; otherwise it comes back without those that are not.** -/
theorem ofText_toText (r : Report) (hfits : r.Fits)
    (hdoubles : ∀ x ∈ r.required ++ r.optional, Decimal.isFinite x = true →
      Data.Json.read (Data.Json.floatText x) = .ok (.float x))
    (hinstants : ∀ t ∈ r.instants, Time.Instant.parse t.text = .ok t) :
    (ofText r.toText = .ok r ↔ ∀ x ∈ r.required ++ r.optional, Decimal.isFinite x = true) ∧
    ((∃ x ∈ r.required, Decimal.isFinite x = false) →
      ∃ reason, ofText r.toText = .error (refuse reason)) ∧
    ((∀ x ∈ r.required, Decimal.isFinite x = true) → ofText r.toText = .ok r.settled) := by
  have hread : ofText r.toText =
      (decode .json (echo r.toValue)).mapError fun fault => refuse (fault.message .json) := by
    have hvalue := read_pretty (legible_toValue hfits hdoubles)
    simp only [ofText, toText, hvalue, Except.mapError, bind, Except.bind]
  have hback := back_report hfits hinstants
  rw [back] at hback
  have hok : AllFinite r.required → ofText r.toText = .ok r.settled := by
    intro hall
    rw [if_pos hall] at hback
    rw [hread, eq_ok_of_toOption hback, Except.mapError]
  have herror : ¬ AllFinite r.required → ∃ reason, ofText r.toText = .error (refuse reason) := by
    intro hnot
    rw [if_neg hnot] at hback
    obtain ⟨fault, hfault⟩ := exists_error_of_toOption hback
    exact ⟨fault.message .json, by rw [hread, hfault, Except.mapError]⟩
  refine ⟨?_, ?_, hok⟩
  · show _ ↔ AllFinite (r.required ++ r.optional)
    rw [allFinite_append]
    constructor
    · intro hsame
      have hrequired : AllFinite r.required := by
        by_contra hnot
        obtain ⟨reason, hreason⟩ := herror hnot
        rw [hreason] at hsame
        cases hsame
      rw [hok hrequired] at hsame
      exact ⟨hrequired, (settled_eq_iff r).mp (Except.ok.inj hsame)⟩
    · rintro ⟨hrequired, hoptional⟩
      rw [hok hrequired, (settled_eq_iff r).mpr hoptional]
  · rintro ⟨x, hx, hinfinite⟩
    refine herror fun hall => ?_
    rw [hall x hx] at hinfinite
    cases hinfinite

/-- A report whose texts have to be escaped, with a change that is not finite. -/
def brokenChange : Report where
  runId := "1\u0001\"\\\n\u2028"
  generatedAt := ⟨19723, 3661, 250000000⟩
  repository := "/srv/repo"
  range := "HEAD"
  model := ⟨"readscope.features.v1", 1, "logistic", 0, 1, "<embedded>"⟩
  state := .rendered
  isPartial := true
  revisionsWalked := 2
  records := [⟨⟨"a.py", "c1", some ⟨"f", "function", 1, 12⟩⟩, .python,
    ⟨"s", ["a", "b"], [0.1, -2.5e-9]⟩, 0.75, .high, .epoch⟩]
  failures := [⟨⟨"b.py", "c1", none⟩, .notFound "b.py" "c1"⟩, ⟨⟨"c.py", "c2", none⟩, .parse "\t?"⟩]
  summary := ⟨1, 2, some 0.75, some 0.75, some 0.75, some 0.75, none, ⟨0, 0, 1⟩⟩
  files := [⟨"a.py::f", 1, 0.75, 0.75, 0⟩]
  revisions := [⟨"c1", .epoch, 1, 0.75, some (0 / 0)⟩]

/-- A double that a text is read as. -/
def readsFloat (x : Float) (text : String) : Bool :=
  match Data.Json.read text with
  | .ok (.float y) => decide (y = x)
  | _ => false

theorem read_of_readsFloat {x : Float} {text : String} (h : readsFloat x text = true) :
    Data.Json.read text = .ok (.float x) := by
  rw [readsFloat] at h
  split at h
  · rename_i hread
    rw [hread, of_decide_eq_true h]
  · cases h

theorem ofText_toText_brokenChange :
    brokenChange.Fits ∧
      (∀ x ∈ brokenChange.required ++ brokenChange.optional, Decimal.isFinite x = true →
        Data.Json.read (Data.Json.floatText x) = .ok (.float x)) ∧
      (∀ t ∈ brokenChange.instants, Time.Instant.parse t.text = .ok t) ∧
      ofText brokenChange.toText = .ok brokenChange.settled ∧
      ofText brokenChange.toText ≠ .ok brokenChange := by
  have hfits : brokenChange.Fits := by
    constructor <;> decide
  have hdoubles : ∀ x ∈ brokenChange.required ++ brokenChange.optional,
      Decimal.isFinite x = true → readsFloat x (Data.Json.floatText x) = true := by
    decide +kernel
  have hread : ∀ x ∈ brokenChange.required ++ brokenChange.optional,
      Decimal.isFinite x = true → Data.Json.read (Data.Json.floatText x) = .ok (.float x) :=
    fun x hx hfinite => read_of_readsFloat (hdoubles x hx hfinite)
  have hinstants : ∀ t ∈ brokenChange.instants, Time.Instant.parse t.text = .ok t := by
    decide +kernel
  have hrequired : ∀ x ∈ brokenChange.required, Decimal.isFinite x = true := by
    decide +kernel
  have hbroken : ¬ ∀ x ∈ brokenChange.required ++ brokenChange.optional,
      Decimal.isFinite x = true := by
    decide +kernel
  obtain ⟨hiff, -, hsettled⟩ := ofText_toText brokenChange hfits hread hinstants
  exact ⟨hfits, hread, hinstants, hsettled hrequired, fun hsame => hbroken (hiff.mp hsame)⟩

end Report

end Readability
