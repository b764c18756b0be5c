import Readability.Command.Output
import Readability.Proofs.ControlCharacters
import Readability.Proofs.Separators

/-!
# What rendering leaves of a report

A report is marked before its template sees it, so a template that fails has to give
it back. `Template.renderInPlace_cases` says that each template does, whatever it is;
with the look-up by name in front of it, `Registry.renderInPlace_cases` says the same
of a registry, and that all of its faults are faults of templates.

Main statement: `emit_keeps`. When the text of a report is emitted, its status tells
how that went, and a report that its template could not render is emitted as a
document instead: the template of documents goes by the name it is asked for
(`renderInPlace_json`) and has a text for every report. What is written to a file loses
the codes of terminals, which documents do not have (`delivered_document`); how codes are
taken out is left open, but for the texts in which nothing begins one (`LeavesPlain`).
-/

namespace Readability.Render


/-- A mark is all that changes, and only where the state allows it. -/
theorem marked_eq (report : Report) :
    marked report = { report with
      state := if report.state.canAdvanceTo .rendered then .rendered else report.state } := by
  unfold marked
  split <;> rfl

/-- A report that gets its state back is the report that was marked. -/
theorem unmarked (report : Report) :
    { marked report with state := report.state } = report := by
  rw [marked_eq]

namespace Template

/-- A template gives a text and a marked report, or a fault and the report as it was. -/
theorem renderInPlace_cases (t : Template) (report : Report) :
    (∃ text, t.render (marked report) = .ok text ∧
        t.renderInPlace report = (.ok text, marked report)) ∨
      ∃ e, t.render (marked report) = .error e ∧ t.renderInPlace report = (.error e, report) := by
  unfold renderInPlace
  dsimp only
  cases h : t.render (marked report) with
  | ok text => exact .inl ⟨text, rfl, rfl⟩
  | error e =>
    refine .inr ⟨e, rfl, ?_⟩
    rw [unmarked]

/-- A template that always has a text marks every report. -/
theorem renderInPlace_total (name extension : String) (render : Report → String)
    (report : Report) :
    (total name extension render).renderInPlace report =
      (.ok (render (marked report)), marked report) :=
  rfl

end Template

/-! ## Templates by name -/

namespace UserTemplate

/-- A file that is no template is a fault of a template. -/
theorem load_error {disk : Files.Disk} {path : String} {e : FatalError}
    (h : load disk path = .error e) : ∃ reason, e = .template reason := by
  unfold load at h
  split at h
  · cases h
    exact ⟨_, rfl⟩
  · unfold parse at h
    split at h
    · cases h
    · cases h
      exact ⟨_, rfl⟩

end UserTemplate

namespace Registry

/-- A name that leads to no template is a fault of a template. -/
theorem lookup_error {r : Registry} {name : String} {e : FatalError}
    (h : r.lookup name = .error e) : ∃ reason, e = .template reason := by
  unfold lookup at h
  split at h
  · cases h
  · dsimp only at h
    split at h
    · next path _ =>
      cases hload : UserTemplate.load r.disk path with
      | ok template =>
        rw [hload] at h
        cases h
      | error fault =>
        rw [hload] at h
        cases h
        exact UserTemplate.load_error hload
    · cases h
      exact ⟨_, rfl⟩

theorem builtIn?_total {r : Registry} {name : String} {t : Template}
    (h : r.builtIn? name = some t) : ∃ name extension render, t = .total name extension render := by
  unfold builtIn? at h
  have hmem : t ∈ builtIns r.styling := List.mem_of_find?_eq_some h
  simp only [builtIns, List.mem_cons, List.not_mem_nil, or_false] at hmem
  rcases hmem with rfl | rfl | rfl | rfl | rfl <;> exact ⟨_, _, _, rfl⟩

/-- Every template that a name leads to has a text for every report. -/
theorem lookup_total {r : Registry} {name : String} {t : Template} (h : r.lookup name = .ok t) :
    ∃ name extension render, t = .total name extension render := by
  unfold lookup at h
  split at h
  · next t' hbuiltIn =>
    cases h
    exact builtIn?_total hbuiltIn
  · dsimp only at h
    split at h
    · next path _ =>
      cases hload : UserTemplate.load r.disk path with
      | ok template =>
        rw [hload] at h
        cases h
        exact ⟨_, _, _, rfl⟩
      | error fault =>
        rw [hload] at h
        cases h
    · cases h

/-- A registry gives a text and a marked report, or a fault of a template and the
report as it was. -/
theorem renderInPlace_cases (r : Registry) (report : Report) (name : String) :
    (∃ text, r.renderInPlace report name = (.ok text, marked report)) ∨
      ∃ reason, r.renderInPlace report name = (.error (.template reason), report) := by
  unfold renderInPlace
  cases hlookup : r.lookup name with
  | error e =>
    obtain ⟨reason, rfl⟩ := lookup_error hlookup
    exact .inr ⟨reason, rfl⟩
  | ok t =>
    obtain ⟨_, _, render, rfl⟩ := lookup_total hlookup
    exact .inl ⟨_, Template.renderInPlace_total ..⟩

/-- Documents are written by a template that no directory can take the place of. -/
theorem renderInPlace_json (r : Registry) (report : Report) :
    r.renderInPlace report "json" = (.ok (marked report).toText, marked report) := by
  have hsmall : Text.lowercase "json" = "json" := by decide +kernel
  have hbuiltIn : r.builtIn? "json" = some (.total "json" "json" Report.toText) := by
    unfold builtIn?
    rw [hsmall]
    rfl
  rw [renderInPlace, lookup, hbuiltIn]
  rfl

end Registry

end Readability.Render

namespace Readability.Files.Disk

/-- Whether a file can be written hangs on its path alone. -/
theorem exists_write {d : Disk} {path : String} (h : (d.write path .empty 0).isOk = true)
    (content : ByteArray) (modified : Int) :
    ∃ after, d.write path content modified = .ok after := by
  unfold write at h ⊢
  cases hplace : d.locate path with
  | error fault =>
    rw [hplace] at h
    cases h
  | ok place =>
    rw [hplace] at h
    simp only [bind, Except.bind] at h ⊢
    split at h
    · cases h
    · split at h
      · cases h
      · next hslash =>
        rw [if_neg hslash]
        exact ⟨_, rfl⟩

end Readability.Files.Disk

namespace Readability.Command

open Readability.Render (Registry)

/-! ## Where texts go -/

/-- Whether a text can go where it is meant to: it is to be printed, or to be written
to a file that can be written. -/
def Surroundings.Takes (s : Surroundings) (path : Option String) : Prop :=
  ∀ p ∈ path, (s.disk.write p .empty 0).isOk = true

/-- A text has come to where it was meant to. It was printed as it is; a file holds it
without the codes of terminals. -/
def Delivered (withoutCodes : String → String) (s : Surroundings) (path : Option String)
    (text : String) (o : Outcome) : Prop :=
  match path with
  | none => o.output = text ∧ o.disk = s.disk
  | some p => o.output = "" ∧
    s.disk.write p (withoutCodes text).toUTF8 (s.now.secondsSince .epoch) = .ok o.disk

variable {withoutCodes : String → String} {s : Surroundings} {registry : Registry} {report : Report}
  {template : String} {path : Option String}

/-- A document comes to a file as it is, unless it has the one character that it does not
escape and that begins a code. -/
theorem delivered_document (hleaves : Text.LeavesPlain withoutCodes) {p : String} {o : Outcome}
    (h : Delivered withoutCodes s (some p) report.toText o)
    (hmark : '\u009b' ∉ report.toText.toList) :
    s.disk.write p report.toText.toUTF8 (s.now.secondsSince .epoch) = .ok o.disk := by
  have hplain : withoutCodes report.toText = report.toText :=
    hleaves _ (Text.isEscape_pretty hmark)
  rw [← hplain]
  exact h.2

/-- A text that was rendered, or rescued, is delivered under its status. -/
theorem emit_of_text {text remarks : String} {status : ExitStatus} (htakes : s.Takes path)
    (h : renderOrRescue registry report template = .ok (text, status, remarks)) :
    (emitBy withoutCodes s registry report template path).status = status ∧
      Delivered withoutCodes s path text
        (emitBy withoutCodes s registry report template path) := by
  unfold emitBy
  rw [h]
  cases path with
  | none => exact ⟨rfl, rfl, rfl⟩
  | some p =>
    obtain ⟨after, hafter⟩ := Files.Disk.exists_write (htakes p rfl)
      (withoutCodes text).toUTF8 (s.now.secondsSince .epoch)
    dsimp only
    rw [hafter]
    exact ⟨rfl, rfl, hafter⟩

/-! ## Emission -/

/-- The mark on a report says nothing of how its run went. -/
theorem ofReport_marked (report : Report) :
    ExitStatus.ofReport (Render.marked report) = ExitStatus.ofReport report := by
  rw [Render.marked_eq]
  rfl

theorem ofReport_eq_success_iff (report : Report) :
    ExitStatus.ofReport report = .success ↔ report.failures = [] ∧ report.isPartial = false := by
  unfold ExitStatus.ofReport Report.hasWarnings
  cases report.failures <;> cases report.isPartial <;> simp

theorem ofReport_eq_warnings_iff (report : Report) :
    ExitStatus.ofReport report = .warnings ↔ report.failures ≠ [] ∨ report.isPartial = true := by
  unfold ExitStatus.ofReport Report.hasWarnings
  cases report.failures <;> cases report.isPartial <;> simp

theorem renderOrRescue_of_text {text : String}
    (h : registry.renderInPlace report template = (.ok text, Render.marked report)) :
    renderOrRescue registry report template = .ok (text, .ofReport report, "") := by
  rw [renderOrRescue, h]
  dsimp only
  rw [ofReport_marked]

/-- A report that its template cannot render is rendered as a document. -/
theorem renderOrRescue_of_fault {reason : String}
    (h : registry.renderInPlace report template = (.error (.template reason), report)) :
    renderOrRescue registry report template =
      .ok ((Render.marked report).toText, .failed,
        "Error: " ++ (FatalError.template reason).message ++ "\n") := by
  rw [renderOrRescue, h]
  dsimp only
  rw [Registry.renderInPlace_json]

/-- How the emission of a report ends. -/
structure Emits (withoutCodes : String → String) (s : Surroundings) (registry : Registry)
    (report : Report) (template : String) (path : Option String) : Prop where
  success : (emitBy withoutCodes s registry report template path).status = .success ↔
    (∃ text, (registry.renderInPlace report template).1 = .ok text) ∧
      report.failures = [] ∧ report.isPartial = false
  warnings : (emitBy withoutCodes s registry report template path).status = .warnings ↔
    (∃ text, (registry.renderInPlace report template).1 = .ok text) ∧
      (report.failures ≠ [] ∨ report.isPartial = true)
  rendered : ∀ text, (registry.renderInPlace report template).1 = .ok text →
    Delivered withoutCodes s path text (emitBy withoutCodes s registry report template path)
  /-- The document that stands in is handed on as it is, and a file gets it without the codes of
  terminals, like any text. That makes no difference unless the document has a U+009B: of the two
  characters that begin a code, documents escape the other one, as they do all control characters
  of the first block. -/
  rescued : ∀ e, (registry.renderInPlace report template).1 = .error e →
    (emitBy withoutCodes s registry report template path).status = .failed ∧
      ∃ rescued : Report, rescued.records = report.records ∧
        rescued.failures = report.failures ∧ rescued.summary = report.summary ∧
        rescued.files = report.files ∧ rescued.revisions = report.revisions ∧
        Delivered withoutCodes s path rescued.toText
          (emitBy withoutCodes s registry report template path) ∧
        ∀ p ∈ path, '\u009b' ∉ rescued.toText.toList →
          s.disk.write p rescued.toText.toUTF8 (s.now.secondsSince .epoch) =
            .ok (emitBy withoutCodes s registry report template path).disk

theorem emits_of_text {text : String} (htakes : s.Takes path)
    (h : registry.renderInPlace report template = (.ok text, Render.marked report)) :
    Emits withoutCodes s registry report template path := by
  obtain ⟨hstatus, hdelivered⟩ := emit_of_text htakes (renderOrRescue_of_text h)
  have hresult : (registry.renderInPlace report template).1 = .ok text := by rw [h]
  exact
    { success := by
        rw [hstatus, ofReport_eq_success_iff]
        exact ⟨fun hclean => ⟨⟨text, hresult⟩, hclean⟩, And.right⟩
      warnings := by
        rw [hstatus, ofReport_eq_warnings_iff]
        exact ⟨fun hwarned => ⟨⟨text, hresult⟩, hwarned⟩, And.right⟩
      rendered := by
        intro other hother
        rw [hresult] at hother
        cases hother
        exact hdelivered
      rescued := by
        intro e he
        rw [hresult] at he
        cases he }

theorem emits_of_fault (hleaves : Text.LeavesPlain withoutCodes) {reason : String}
    (htakes : s.Takes path)
    (h : registry.renderInPlace report template = (.error (.template reason), report)) :
    Emits withoutCodes s registry report template path := by
  obtain ⟨hstatus, hdelivered⟩ := emit_of_text htakes (renderOrRescue_of_fault h)
  have hresult : (registry.renderInPlace report template).1 = .error (.template reason) := by
    rw [h]
  exact
    { success := by
        rw [hstatus, hresult]
        exact iff_of_false nofun fun ⟨⟨_, hok⟩, _⟩ => nomatch hok
      warnings := by
        rw [hstatus, hresult]
        exact iff_of_false nofun fun ⟨⟨_, hok⟩, _⟩ => nomatch hok
      rendered := by
        intro text htext
        rw [hresult] at htext
        cases htext
      rescued := by
        intro _ _
        refine ⟨hstatus, Render.marked report, ?_⟩
        have hsame := Render.marked_eq report
        refine ⟨by rw [hsame], by rw [hsame], by rw [hsame], by rw [hsame], by rw [hsame],
          hdelivered, ?_⟩
        rintro p hp hmark
        rw [Option.mem_def] at hp
        subst hp
        exact delivered_document hleaves hdelivered hmark }

/-- What rendering a report where it is leaves of it. -/
structure Keeps (report : Report) (rendered : Except FatalError String × Report) : Prop where
  fault : ∀ e, rendered.1 = .error e → rendered.2 = report
  text : ∀ text, rendered.1 = .ok text → rendered.2 = { report with
    state := if report.state.canAdvanceTo .rendered then .rendered else report.state }

theorem keeps_fault (report : Report) (e : FatalError) : Keeps report (.error e, report) :=
  ⟨fun _ _ => rfl, fun _ h => nomatch h⟩

theorem keeps_text (report : Report) (text : String) :
    Keeps report (.ok text, Render.marked report) :=
  ⟨fun _ h => (nomatch h), fun _ _ => Render.marked_eq report⟩

/-- **A report outlives its template.** A fault leaves the report as it was, and a text
changes nothing but its state; that holds of any template, whether it can fail or not, and of
those that go by a name. Emitted to where it can go, a report ends in the status that fits it,
and with a fault in its template it is written as a document of the same scores. -/
theorem emit_keeps (withoutCodes : String → String) (hleaves : Text.LeavesPlain withoutCodes)
    (s : Surroundings) (registry : Registry) (report : Report) (template : String)
    (path : Option String) :
    (∀ t : Render.Template, Keeps report (t.renderInPlace report)) ∧
    Keeps report (registry.renderInPlace report template) ∧
    (s.Takes path → Emits withoutCodes s registry report template path) := by
  refine ⟨fun t => ?_, ?_⟩
  · rcases t.renderInPlace_cases report with ⟨text, -, h⟩ | ⟨e, -, h⟩
    · rw [h]
      exact keeps_text report text
    · rw [h]
      exact keeps_fault report e
  · rcases registry.renderInPlace_cases report template with ⟨text, h⟩ | ⟨reason, h⟩
    · refine ⟨?_, fun htakes => emits_of_text htakes h⟩
      rw [h]
      exact keeps_text report text
    · refine ⟨?_, fun htakes => emits_of_fault hleaves htakes h⟩
      rw [h]
      exact keeps_fault report _

/-- Surroundings with an empty disk. -/
def emptySurroundings : Surroundings :=
  ⟨⟨.empty, []⟩, [], "/", none, .plain, fun _ _ => none, "", .epoch⟩

/-- A registry without templates of the user's. -/
def plainRegistry : Registry :=
  ⟨.plain, emptySurroundings.disk, none⟩

/-- A report with a template that there is not goes to its file as a document. -/
theorem emit_keeps_unknownTemplate :
    emptySurroundings.Takes (some "report.json") ∧
      ∃ e, (plainRegistry.renderInPlace Render.fullReport "brief").1 = .error e ∧
        (plainRegistry.renderInPlace Render.fullReport "brief").2 = Render.fullReport ∧
        (emit emptySurroundings plainRegistry Render.fullReport "brief"
          (some "report.json")).status = .failed := by
  have htakes : emptySurroundings.Takes (some "report.json") := by
    intro p hp
    cases hp
    have hparts : "report.json".splitOn "/" = ["report.json"] := by
      rw [Source.Path.splitOn_singleton]
      decide +kernel
    have hplace : emptySurroundings.disk.locate "report.json" = .ok ["report.json"] := by
      have hrelative : Source.Path.isAbsolute "report.json" = false := by decide +kernel
      rw [Files.Disk.locate, hparts, hrelative]
      rfl
    rw [Files.Disk.write, hplace]
    decide +kernel
  have hsmall : Text.lowercase "brief" = "brief" := by decide +kernel
  have hnone : plainRegistry.builtIn? "brief" = none := by
    rw [Registry.builtIn?, hsmall]
    rfl
  have hfault : ∃ e, (plainRegistry.renderInPlace Render.fullReport "brief").1 = .error e := by
    rw [Registry.renderInPlace, Registry.lookup, hnone]
    exact ⟨_, rfl⟩
  obtain ⟨e, he⟩ := hfault
  obtain ⟨-, hkeeps, hemits⟩ := emit_keeps Text.withoutCodes Text.leavesPlain_withoutCodes
    emptySurroundings plainRegistry Render.fullReport "brief" (some "report.json")
  exact ⟨htakes, e, he, hkeeps.fault e he, ((hemits htakes).rescued e he).1⟩

end Readability.Command
