import Readability.Proofs.Accounting
import Readability.Proofs.FinalFeed
import Readability.Proofs.ScoreRange

/-!
# Where records come from

Content, score, name and time of a record take different ways: a store keeps
scores without path and revision, `outcomesOf` puts a unit's own name and the time
of its revision to them, and the aggregator sorts what it is told. A record that
comes out of this is `Grounded` in one revision of the walk when all its parts
belong together: it has the features that are measured of what is read there, and
score, band, language and time follow.

Main statement: `records_grounded`. It holds of any run over distinct revisions,
asked to end or not, and however scores were shared, as long as no two contents
share a digest. The store does not say which model a score is of, so on a pipeline
that is called again the model is that of the first call to score the content
(`RatedFirst`); `records_ungrounded_raised` shows a record that its own call's model
does not give.
-/

namespace Readability.Model

/-- A model refuses a vector for its features alone. -/
theorem isMismatch_of_score {m : Model} {v : Feature.Vector} {e : Source.UnitError}
    (h : m.score v = .error e) : e.isMismatch = true := by
  rw [score] at h
  rcases hcheck : m.checkVector v with e' | _ <;> rw [hcheck] at h
  · have he : e' = e := Except.error.inj h
    subst he
    rw [checkVector] at hcheck
    split_ifs at hcheck
    · cases hcheck
      rfl
    · cases hcheck
      rfl
    · split at hcheck
      · cases hcheck
        rfl
      · split at hcheck
        · cases hcheck
          rfl
        · cases hcheck
  · have hvalues : m.scoreValues v.values = .error e := h
    rw [scoreValues] at hvalues
    split at hvalues
    · cases hvalues
      rfl
    · cases hvalues

/-- Score and band of a vector. -/
def rating (m : Model) (v : Feature.Vector) : Except Source.UnitError (Float × Band) :=
  (m.score v).map fun score => (score, m.band score)

theorem rating_eq_ok {m : Model} {v : Feature.Vector} {score : Float} {band : Band} :
    m.rating v = .ok (score, band) ↔ m.score v = .ok score ∧ band = m.band score := by
  rw [rating]
  rcases m.score v with e | own
  · exact iff_of_false (fun h => nomatch h) fun h => nomatch h.1
  · simp only [Except.map, Except.ok.injEq, Prod.mk.injEq]
    constructor
    · rintro ⟨rfl, rfl⟩
      exact ⟨rfl, rfl⟩
    · rintro ⟨rfl, rfl⟩
      exact ⟨rfl, rfl⟩

end Readability.Model

namespace Readability.Run

open Readability.History (Memory Revision)
open Readability.Report (Failure Outcome Record)
open Readability.Source (Language ScopeSpan SourceUnit UnitError UnitId)

/-- A part with a score has one that its model gives. -/
theorem scorePart_eq_ok {model : Model} {scope : Option ScopeSpan}
    {features : Feature.Vector} {s : Scored} (h : scorePart model scope features = .ok s) :
    s.scope = scope ∧ s.features = features ∧ model.score features = .ok s.score ∧
      s.band = model.band s.score := by
  rw [scorePart] at h
  split at h
  · next hscore =>
    cases h
    exact ⟨rfl, rfl, hscore, rfl⟩
  · cases h

/-- A part without a score is one whose features the model refuses. -/
theorem isMismatch_of_scorePart {model : Model} {scope : Option ScopeSpan}
    {features : Feature.Vector} {f : Unscored} (h : scorePart model scope features = .error f) :
    f.error.isMismatch = true := by
  rw [scorePart] at h
  split at h
  · cases h
  · next hscore =>
    cases h
    exact Model.isMismatch_of_score hscore

/-- A record of a unit puts its name, its language and the time to one of the
scores. -/
theorem exists_part_of_scored_mem {u : SourceUnit} {timestamp : Time.Instant}
    {scores : ContentScores} {record : Record}
    (h : .scored record ∈ outcomesOf u timestamp scores) :
    ∃ parts language s, scores = .ok parts ∧ u.language? = some language ∧ .ok s ∈ parts ∧
      record = ⟨partId u.id s.scope, language, s.features, s.score, s.band, timestamp⟩ := by
  rcases scores with e | parts
  · cases List.mem_singleton.mp h
  rcases hlanguage : u.language? with _ | language <;> rw [outcomesOf, hlanguage] at h
  · cases h
  obtain ⟨part, hpart, htold⟩ := List.mem_map.mp h
  rcases part with f | s <;> cases htold
  exact ⟨parts, language, s, rfl, rfl, hpart, rfl⟩

namespace Job

variable {job : Job}

/-- Features that are measured of a unit: of the whole file, or of the function
they are given for. -/
def Measured (job : Job) (u : SourceUnit) (scope : Option ScopeSpan) (features : Feature.Vector) :
    Prop :=
  match job.options.granularity with
  | .file => scope = none ∧ Feature.extract job.tools.parser u = .ok features
  | .function => ∃ scopes span, Feature.extractScopes job.tools.parser u = .ok scopes ∧
      scope = some span ∧ ⟨span, features⟩ ∈ scopes

/-- A record all parts of which belong to one revision of a walk. -/
structure Grounded (job : Job) (revisions : List Revision) (record : Record) : Prop where
  /-- It is dated by its revision, the only one of that id. -/
  dated : ∃ revision ∈ revisions, revision.id = record.unit.revision ∧
    record.timestamp = revision.timestamp ∧
    ∀ other ∈ revisions, other.id = record.unit.revision → other = revision
  language : Language.ofPath? record.unit.path = some record.language
  /-- Its features are measured of what is read of its path at its revision. -/
  measured : ∃ content,
    job.history.read record.unit.revision record.unit.path = .ok content ∧
      job.Measured ⟨.file record.unit.path record.unit.revision, content⟩ record.unit.scope
        record.features
  schema : record.features.schema = job.model.schema
  names : record.features.names = job.model.featureNames
  length : record.features.values.length = job.model.features.length
  score : job.model.score record.features = .ok record.score
  band : record.band = job.model.band record.score

/-- Each part of a unit is the model's answer to features that are measured of it. -/
theorem exists_measured_of_mem_scores {u : SourceUnit} {parts : List (Except Unscored Scored)}
    (h : job.scores u = .ok parts) {part : Except Unscored Scored} (hpart : part ∈ parts) :
    ∃ scope features, job.Measured u scope features ∧
      scorePart job.model scope features = part := by
  rw [scores] at h
  simp only [Measured]
  cases hgranularity : job.options.granularity with
  | file =>
    rw [hgranularity, evaluate] at h
    rcases hextract : Feature.extract job.tools.parser u with e | features <;> rw [hextract] at h
    · cases h
    cases h
    exact ⟨none, features, ⟨rfl, rfl⟩, (List.mem_singleton.mp hpart).symm⟩
  | function =>
    rw [hgranularity, evaluate] at h
    rcases hextract : Feature.extractScopes job.tools.parser u with e | scopes <;>
      rw [hextract] at h
    · cases h
    cases h
    obtain ⟨s, hs, htold⟩ := List.mem_map.mp hpart
    exact ⟨_, _, ⟨scopes, s.span, rfl, rfl, hs⟩, htold⟩

/-- The scores of a whole file. -/
theorem scores_of_extract (hfile : job.options.granularity = .file) {u : SourceUnit}
    {features : Feature.Vector} (h : Feature.extract job.tools.parser u = .ok features) :
    job.scores u = .ok [scorePart job.model none features] := by
  rw [scores, hfile, evaluate, h]
  rfl

/-- A score among those of a unit is of features that are measured of it. -/
theorem measured_of_mem_scores {u : SourceUnit} {parts : List (Except Unscored Scored)}
    (h : job.scores u = .ok parts) {s : Scored} (hs : .ok s ∈ parts) :
    job.Measured u s.scope s.features ∧ job.model.score s.features = .ok s.score ∧
      s.band = job.model.band s.score := by
  obtain ⟨scope, features, hmeasured, htold⟩ := exists_measured_of_mem_scores h hs
  obtain ⟨rfl, rfl, hscored⟩ := scorePart_eq_ok htold
  exact ⟨hmeasured, hscored⟩

/-- What fails of a content that has scores is refused by the model. -/
theorem isMismatch_of_failed_mem {u v : SourceUnit} {timestamp : Time.Instant}
    {parts : List (Except Unscored Scored)} (hscores : job.scores u = .ok parts) {f : Failure}
    (h : .failed f ∈ outcomesOf v timestamp (.ok parts)) : f.error.isMismatch = true := by
  rcases hlanguage : v.language? with _ | language <;> rw [outcomesOf, hlanguage] at h
  · cases h
  obtain ⟨part, hpart, htold⟩ := List.mem_map.mp h
  rcases part with refused | s <;> cases htold
  obtain ⟨scope, features, -, hrefused⟩ := exists_measured_of_mem_scores hscores hpart
  exact isMismatch_of_scorePart hrefused

/-- A record in an account is told of one of the units. -/
theorem exists_unit_of_scored_mem_account {scores : SourceUnit → ContentScores} {index : Nat}
    {items : List (Except UnitError Revision)} {record : Record}
    (h : .scored record ∈ job.account scores index items) :
    ∃ revision, .ok revision ∈ items ∧ ∃ u ∈ unitsOf (job.results revision),
      .scored record ∈ outcomesOf u revision.timestamp (scores u) := by
  obtain ⟨⟨item, i⟩, hp, htold⟩ := List.mem_flatMap.mp h
  have hitem := List.fst_mem_of_mem_zipIdx hp
  rcases item with e | revision
  · cases List.mem_singleton.mp htold
  refine ⟨revision, hitem, ?_⟩
  rcases List.mem_append.mp htold with hhead | htail
  · rcases List.mem_cons.mp hhead with hrevision | hfailed
    · cases hrevision
    · obtain ⟨f, -, hf⟩ := List.mem_map.mp hfailed
      cases hf
  · exact List.mem_flatMap.mp htail

/-- What is told of a unit under its own scores is grounded in its revision. -/
theorem grounded_of_scored_mem {revisions : List Revision}
    (hids : (revisions.map (·.id)).Nodup) {revision : Revision} (hr : revision ∈ revisions)
    {u : SourceUnit} (hu : u ∈ unitsOf (job.results revision)) {record : Record}
    (h : .scored record ∈ outcomesOf u revision.timestamp (job.scores u)) :
    job.Grounded revisions record := by
  obtain ⟨path, -, content, hread, rfl⟩ := read_of_mem_unitsOf hu
  obtain ⟨parts, language, s, hparts, hlanguage, hs, rfl⟩ := exists_part_of_scored_mem h
  obtain ⟨hmeasured, hscore, hband⟩ := measured_of_mem_scores hparts hs
  obtain ⟨hschema, hnames, hlength, -⟩ :=
    Model.checkVector_eq_ok_iff.mp (Model.score_eq_ok hscore).1
  have hscope : (partId (.file path revision.id) s.scope).scope = s.scope := by
    cases s.scope <;> rfl
  refine ⟨⟨revision, hr, ?_, rfl, ?_⟩, ?_, ⟨content, ?_, ?_⟩, hschema, hnames, hlength, hscore,
    hband⟩
  · rw [partId_revision]
    rfl
  · intro other hother hid
    rw [partId_revision] at hid
    exact List.inj_on_of_nodup_map hids hother hr hid
  · rw [partId_path]
    exact hlanguage
  · rw [partId_revision, partId_path]
    exact hread
  · rw [partId_revision, partId_path, hscope]
    exact hmeasured

/-! ## Runs of one pipeline -/

/-- A content that the run of a call scores as text of a language. -/
def Rates (job : Job) (call : Call) (language : Language) (content : ByteArray) : Prop :=
  ∃ u ∈ job.ratedIn call, u.language? = some language ∧ u.content = content

/-- The first of some calls whose run scores a content as text of a language. -/
def RatedFirst (job : Job) (calls : List Call) (rater : Call) (language : Language)
    (content : ByteArray) : Prop :=
  ∃ before after, calls = before ++ rater :: after ∧ job.Rates rater language content ∧
    ∀ other ∈ before, ¬ job.Rates other language content

/-- A run with a report has rated the units of its records, and what it tells of
them is said by the scores that are stored. -/
theorem exists_unit_of_record {stored : ScoreCache} {runId : String} {now : Time.Instant}
    {report : Report} (hreport : (job.runOn stored runId now).1 = .ok report) {record : Record}
    (hrecord : record ∈ report.records) :
    ∃ revision ∈ revisionsOf job.items, ∃ u ∈ unitsOf (job.results revision),
      u ∈ job.scoredUnits runId now ∧ .scored record ∈ outcomesOf u revision.timestamp
        (job.sharedOn stored (job.scoredUnits runId now) u) := by
  obtain ⟨hgap, items, hwalk⟩ := walk_of_report hreport
  obtain ⟨k, -, hscored, houtcomes⟩ := outcomes_runOn hgap hwalk stored runId now
  have htold := Report.Aggregator.mem_records.mp ((records_perm hreport).mem_iff.mp hrecord)
  rw [← runOn, houtcomes, ← hscored] at htold
  obtain ⟨revision, hrevision, u, hu, hrecord⟩ := exists_unit_of_scored_mem_account htold
  refine ⟨revision, ?_, u, hu, ?_, hrecord⟩
  · rw [items_of_walk hgap hwalk]
    exact List.mem_filterMap.mpr ⟨_, List.mem_of_mem_take hrevision, rfl⟩
  · rw [hscored]
    exact mem_unitsIn.mpr ⟨revision, hrevision, hu⟩

/-- **A record is grounded in its revision, under the model of the first call that
scored its content.** -/
theorem exists_grounded (job : Job) (earlier : List Call) (call : Call) {report : Report}
    (hids : ((revisionsOf (job.called call).items).map (·.id)).Nodup)
    (hdigest : DigestsApart job.tools.digest ((job.rated (earlier ++ [call])).map (·.2)))
    (hreport : (job.runAfter earlier call).1 = .ok report) (record : Record)
    (hrecord : record ∈ report.records) :
    ∃ content rater,
      job.history.read record.unit.revision record.unit.path = .ok content ∧
      job.RatedFirst (earlier ++ [call]) rater record.language content ∧
      (job.called rater).Grounded (revisionsOf (job.called call).items) record := by
  obtain ⟨revision, hrevision, u, hu, hrated, hscored⟩ := exists_unit_of_record hreport hrecord
  obtain ⟨⟨rater, v⟩, hfirst, hscores⟩ := job.exists_rater earlier call hrated
  obtain ⟨before, after, hsplit, hv, hkey, hnone⟩ := exists_split_of_firstRated? hfirst
  have hsame : (job.called call).sharedOn (job.storedAfter earlier)
      ((job.called call).scoredUnits call.runId call.now) u = (job.called rater).scores v := hscores
  rw [hsame] at hscored
  -- the unit that was rated first has the same content, as its key has the same digest
  obtain ⟨_, language, part, -, hlanguage, -, hrecord'⟩ := exists_part_of_scored_mem hscored
  have hmem : ∀ {c : Call} {w : SourceUnit}, c ∈ earlier ++ [call] → w ∈ job.ratedIn c →
      w ∈ (job.rated (earlier ++ [call])).map (·.2) := by
    intro c w hc hw
    exact List.mem_map.mpr ⟨(c, w), List.mem_flatMap.mpr ⟨c, hc, List.mem_map_of_mem hw⟩, rfl⟩
  have hcall : call ∈ earlier ++ [call] := List.mem_append_right _ (List.mem_singleton_self _)
  have hrater : rater ∈ earlier ++ [call] := by
    rw [hsplit]
    exact List.mem_append_right _ List.mem_cons_self
  have hcontent : v.content = u.content :=
    hdigest v (hmem hrater hv) u (hmem hcall hrated) (congrArg ScoreKey.digest hkey)
  have hlanguages : v.language? = u.language? := congrArg ScoreKey.language hkey
  have hown : (job.called rater).scores v = (job.called rater).scores u :=
    scores_eq_of_content hlanguages hcontent
      (by rw [hlanguages, hlanguage]; exact Option.some_ne_none language)
  rw [hown] at hscored
  obtain ⟨path, -, content, hread, rfl⟩ := read_of_mem_unitsOf hu
  have hlanguage' : record.language = language := by rw [hrecord']
  have hpath : record.unit.revision = revision.id ∧ record.unit.path = path := by
    rw [hrecord', partId_revision, partId_path]
    exact ⟨rfl, rfl⟩
  refine ⟨content, rater, ?_, ⟨before, after, hsplit, ⟨v, hv, ?_, hcontent⟩, ?_⟩, ?_⟩
  · rw [hpath.1, hpath.2]
    exact hread
  · rw [hlanguage', hlanguages, hlanguage]
  · rintro other hother ⟨w, hw, hwlanguage, hwcontent⟩
    refine hnone other hother w hw ?_
    rw [key, keyOf, key, keyOf, hwlanguage, hwcontent, hlanguage, hlanguage']
  · have htold := @grounded_of_scored_mem (job.called rater) _ hids _ hrevision
    exact htold hu hscored

/-- What a run that no one asks to end is told of a unit stands in its report. -/
theorem mem_records_of_scored (hsignal : job.signal = .never)
    (hgap : job.model.schemaGap? Feature.schema Feature.names = none)
    {items : List (Except UnitError Revision)}
    (hwalk : job.history.walk job.options.range job.options.order = .ok items)
    {stored : ScoreCache} {runId : String} {now : Time.Instant} {report : Report}
    (hreport : (job.runOn stored runId now).1 = .ok report) {revision : Revision}
    (hrevision : .ok revision ∈ items) {u : SourceUnit}
    (hu : u ∈ unitsOf (job.results revision)) {record : Record}
    (h : .scored record ∈ outcomesOf u revision.timestamp
      (job.sharedOn stored (job.unitsIn items) u)) : record ∈ report.records := by
  have houtcomes := (runOn_undisturbed hsignal hgap hwalk stored runId now).2
  refine (records_perm hreport).mem_iff.mpr (Report.Aggregator.mem_records.mpr ?_)
  rw [← runOn, houtcomes]
  exact mem_account hrevision hu h

/-- What is grounded under one model is so under another one exactly when that one
rates the features alike. -/
theorem Grounded.iff_rating {rater call : Call} {revisions : List Revision} {record : Record}
    (h : (job.called rater).Grounded revisions record) :
    (job.called call).Grounded revisions record ↔
      call.model.rating record.features = rater.model.rating record.features := by
  have hrater : rater.model.rating record.features = .ok (record.score, record.band) := by
    rw [Model.rating, h.band]
    exact congrArg (Except.map _) h.score
  rw [hrater, Model.rating_eq_ok]
  constructor
  · exact fun hown => ⟨hown.score, hown.band⟩
  · rintro ⟨hscore, hband⟩
    obtain ⟨hschema, hnames, hlength, -⟩ :=
      Model.checkVector_eq_ok_iff.mp (Model.score_eq_ok hscore).1
    exact ⟨h.dated, h.language, h.measured, hschema, hnames, hlength, hscore, hband⟩

/-- **Where records come from.** All parts of a record belong to what is read of its
path at its revision, under the model of the first call that scored this content. So
they do under the call's own model when the earlier calls had the same one, or when
there were none; else exactly where the two models rate the features alike. -/
theorem records_grounded (job : Job) (earlier : List Call) (call : Call) (report : Report)
    (hids : ((revisionsOf (job.called call).items).map (·.id)).Nodup)
    (hdigest : DigestsApart job.tools.digest ((job.rated (earlier ++ [call])).map (·.2)))
    (hreport : (job.runAfter earlier call).1 = .ok report) :
    (∀ record ∈ report.records, ∃ content rater,
      job.history.read record.unit.revision record.unit.path = .ok content ∧
      job.RatedFirst (earlier ++ [call]) rater record.language content ∧
      (job.called rater).Grounded (revisionsOf (job.called call).items) record ∧
      ((job.called call).Grounded (revisionsOf (job.called call).items) record ↔
        call.model.rating record.features = rater.model.rating record.features)) ∧
    ((∀ other ∈ earlier, other.model = call.model) → ∀ record ∈ report.records,
      (job.called call).Grounded (revisionsOf (job.called call).items) record) := by
  have hall := exists_grounded job earlier call hids hdigest hreport
  refine ⟨fun record hrecord => ?_, fun hsame record hrecord => ?_⟩
  · obtain ⟨content, rater, hread, hfirst, hgrounded⟩ := hall record hrecord
    exact ⟨content, rater, hread, hfirst, hgrounded, hgrounded.iff_rating⟩
  · obtain ⟨content, rater, -, ⟨before, after, hsplit, -, -⟩, hgrounded⟩ := hall record hrecord
    have hmodel : rater.model = call.model := by
      have hrater : rater ∈ earlier ++ [call] := by
        rw [hsplit]
        exact List.mem_append_right _ List.mem_cons_self
      rcases List.mem_append.mp hrater with hold | hlast
      · exact hsame rater hold
      · rw [List.mem_singleton.mp hlast]
    rw [hgrounded.iff_rating, hmodel]

/-! ## Two models on one pipeline -/

/-- The tree of a text that is one word. -/
def wordTree : Source.Tree :=
  .node ⟨"module", true, false, false, 0, 11, .none⟩
    [.node ⟨"expression_statement", true, false, false, 0, 11, .none⟩
      [.node ⟨"identifier", true, false, false, 0, 11, .none⟩ []]]

/-- The word is read. -/
def parseWord : Source.Parser := fun _ text =>
  if text = "readability" then some wordTree else none

/-- The lines of the word. -/
def wordRegion : Feature.Region :=
  Feature.Region.whole "readability" wordTree

/-- A file of the word. -/
def wordUnit : SourceUnit :=
  ⟨.file "a.py" "r1", "readability".toUTF8⟩

/-- A file of no known language. -/
def textUnit : SourceUnit :=
  ⟨.file "m.txt" "r1", ⟨#[]⟩⟩

/-- One commit of these two files. -/
def wordSteps : List Memory.Step :=
  [.commit "r1" .epoch [⟨"a.py", some wordUnit.content⟩, ⟨"m.txt", some textUnit.content⟩]]

/-- A run over it. -/
def wordJob : Job :=
  ⟨(Memory.replay wordSteps).toHistory, ⟨.whole, .chronological, .file, false, true⟩,
    fun _ => true, .never, ⟨parseWord, .of⟩, sampleModel⟩

/-- Its revision. -/
def wordRevision : Revision :=
  ⟨"r1", [], .epoch, "memory", "r1", [⟨"a.py", .added⟩, ⟨"m.txt", .added⟩]⟩

/-- A call with some model. -/
def wordCall (model : Model) : Call :=
  ⟨model, .never, "", .epoch⟩

/-- A model that gives scores from two to three. -/
def raisedModel : Model :=
  { sampleModel with range := ⟨2, 3⟩ }

theorem wordSteps_plain : Memory.Plain wordSteps := by
  constructor
  · exact List.nodup_singleton _
  · intro step hstep
    cases List.mem_singleton.mp hstep
    show ["a.py", "m.txt"].Nodup
    decide

theorem raisedModel_gap : raisedModel.schemaGap? Feature.schema Feature.names = none := by
  decide

theorem wordJob_orderly (model : Model) :
    (wordJob.called (wordCall model)).Orderly [wordRevision] :=
  orderly_of_sound (Memory.replay_sound wordSteps_plain) rfl rfl

/-- A model that fits is asked for both files. -/
theorem ratedIn_wordCall {model : Model}
    (hgap : model.schemaGap? Feature.schema Feature.names = none) :
    wordJob.ratedIn (wordCall model) = [wordUnit, textUnit] :=
  (wordJob_orderly model).scoredUnits_eq rfl hgap "" .epoch

/-- The features of the word. -/
def wordFeatures : Feature.Vector :=
  wordRegion.measures.toVector

theorem language_wordUnit : wordUnit.language? = some .python := by
  decide +kernel

theorem extract_wordUnit : Feature.extract parseWord wordUnit = .ok wordFeatures := by
  have hcontent : wordUnit.content = "readability".toUTF8 := rfl
  have hparsed : Feature.parsed parseWord wordUnit = .ok ("readability", .python, wordTree) := by
    rw [Feature.parsed, SourceUnit.prepare_of_toUTF8 hcontent, language_wordUnit]
    rfl
  have hcode : 0 < wordRegion.measures.codeLines :=
    Feature.Region.codeLines_pos ⟨"readability".toList, by decide, by decide⟩
  have hfeatures : wordRegion.features = .ok wordFeatures := Feature.Region.features_of_code hcode
  rw [Feature.extract, Feature.extract?_of_parsed hparsed (Feature.Region.fits_whole (by decide)),
    ← wordRegion, hfeatures]
  rfl

/-- All of its features are known but one. -/
theorem values_wordFeatures : wordFeatures.values =
    ([11, 11, 1, 1, 11, 11] ++ List.replicate 19 0) ++ [Float.log 2] := by
  have hknown : wordFeatures.values.take 25 = [11, 11, 1, 1, 11, 11] ++ List.replicate 19 0 := by
    decide +kernel
  have hlast : wordFeatures.values.drop 25 = [Float.log 2] := by
    have hcount : 1 + wordRegion.measures.codeLines.toFloat = 2 := by decide +kernel
    rw [← hcount]
    rfl
  rw [← hknown, ← hlast, List.take_append_drop]

/-- The weighted sum over the features of the word. -/
theorem weightedSum_wordFeatures (model : Model) (known : List Model.FeatureWeight)
    (last : Model.FeatureWeight) (hfeatures : model.features = known ++ [last])
    (hlength : known.length = 25) :
    model.weightedSum wordFeatures.values = model.intercept +
      (Number.total (List.zipWith (fun f x => f.weight * x) known
        ([11, 11, 1, 1, 11, 11] ++ List.replicate 19 0)) + last.weight * Float.log 2) := by
  have hsame : known.length = ([11, 11, 1, 1, 11, 11] ++ List.replicate 19 (0 : Float)).length := by
    rw [hlength]
    rfl
  rw [Model.weightedSum, values_wordFeatures, hfeatures, List.zipWith_append hsame,
    Number.total, Number.total, List.foldl_append]
  rfl

/-- Models without weights give the word what in their range is next to zero, provided that the
logarithm of two is a number. -/
theorem score_wordFeatures (hlog : Decimal.isFinite (Float.log 2) = true)
    (range : Model.ScoreRange) :
    ({ sampleModel with range } : Model).score wordFeatures =
      .ok (Number.clamp range.min range.max (Number.clamp range.min range.max 0)) := by
  have hcheck : ({ sampleModel with range } : Model).checkVector wordFeatures = .ok () := by
    refine Model.checkVector_eq_ok_iff.mpr ⟨rfl, rfl, rfl, ?_⟩
    have hknown : ∀ x ∈ ([11, 11, 1, 1, 11, 11] ++ List.replicate 19 0 : List Float),
        Decimal.isFinite x = true := by decide +kernel
    intro x hx
    rw [values_wordFeatures] at hx
    rcases List.mem_append.mp hx with hx | hx
    · exact hknown x hx
    · rw [List.mem_singleton.mp hx]
      exact hlog
  have hsum : ({ sampleModel with range } : Model).weightedSum wordFeatures.values = 0 := by
    have hknown : ∀ zero : Float, zero = 0 ∨ zero = -0 →
        0 + (Number.total (List.zipWith (fun (f : Model.FeatureWeight) x => f.weight * x)
          (sampleModel.features.take 25) ([11, 11, 1, 1, 11, 11] ++ List.replicate 19 0)) + zero) =
          0 := by
      rintro zero (rfl | rfl) <;> decide +kernel
    rw [weightedSum_wordFeatures { sampleModel with range } (sampleModel.features.take 25)
      ⟨"code_lines_log", 0, none⟩ rfl rfl]
    exact hknown _ (Number.zero_mul_of_finite (Number.isFinite_shape hlog))
  rw [Model.score, hcheck]
  show Model.scoreValues _ _ = _
  rw [Model.scoreValues, hsum]
  rfl

/-- The first call of a list has rated the word. -/
theorem firstRated?_wordUnit {model : Model} (calls : List Call)
    (hgap : model.schemaGap? Feature.schema Feature.names = none) :
    wordJob.firstRated? (wordCall model :: calls) (wordJob.key wordUnit) =
      some (wordCall model, wordUnit) := by
  have hfind : [wordUnit, textUnit].find? (fun u => wordJob.key u == wordJob.key wordUnit) =
      some wordUnit := List.find?_cons_of_pos (beq_self_eq_true (wordJob.key wordUnit))
  rw [firstRated?_cons, ratedIn_wordCall hgap, hfind]
  rfl

/-- The record of the word. -/
def wordRecord : Record :=
  ⟨wordUnit.id, .python, wordFeatures, 0, sampleModel.band 0, .epoch⟩

theorem scored_wordRecord (hlog : Decimal.isFinite (Float.log 2) = true) :
    .scored wordRecord ∈ outcomesOf wordUnit .epoch
      ((wordJob.called (wordCall sampleModel)).scores wordUnit) := by
  have hscore : sampleModel.score wordFeatures = .ok 0 := by
    rw [show sampleModel = { sampleModel with range := .unit } from rfl, score_wordFeatures hlog]
    exact congrArg Except.ok (by decide +kernel)
  have hscores : (wordJob.called (wordCall sampleModel)).scores wordUnit =
      .ok [.ok ⟨none, wordFeatures, 0, sampleModel.band 0⟩] := by
    rw [scores_of_extract rfl extract_wordUnit, scorePart]
    simp only [called, wordCall, hscore]
  rw [hscores, outcomesOf, language_wordUnit]
  exact List.mem_singleton_self _

/-- A pipeline that is called with two models that fit comes to a report the second time, and it
shows the word as the first model rates it. -/
theorem report_wordCall (model : Model)
    (hgap : model.schemaGap? Feature.schema Feature.names = none) :
    ∃ report, (wordJob.runAfter [wordCall sampleModel] (wordCall model)).1 = .ok report ∧
      (Decimal.isFinite (Float.log 2) = true → wordRecord ∈ report.records) := by
  have hwalk := (wordJob_orderly model).walk
  have hunits : (wordJob.called (wordCall model)).unitsIn ([wordRevision].map .ok) =
      wordJob.ratedIn (wordCall model) := (ratedIn_wordCall hgap).symm
  have hrated : ∀ u ∈ [wordUnit, textUnit], u ∈ wordJob.ratedIn (wordCall model) := by
    intro u hu
    rwa [ratedIn_wordCall hgap]
  have htext : textUnit ∈ wordJob.ratedIn (wordCall model) :=
    hrated _ (List.mem_cons_of_mem _ (List.mem_singleton_self _))
  obtain ⟨_, hrefused⟩ := wordJob.exists_refusal_of_unknown [wordCall sampleModel] htext
    (by decide +kernel)
  have hnever : (wordJob.called (wordCall model)).signal = .never := rfl
  obtain ⟨report, hreport⟩ := exists_report_of_refused hnever hgap hwalk
    (by rw [hunits]; exact htext) (by rw [hunits]; exact hrefused) rfl "" .epoch
  refine ⟨report, hreport, fun hlog => ?_⟩
  have hword : wordUnit ∈ wordJob.ratedIn (wordCall model) := hrated _ List.mem_cons_self
  obtain ⟨q, hrater, hscores⟩ := wordJob.exists_rater [wordCall sampleModel] (wordCall model) hword
  rw [List.singleton_append, firstRated?_wordUnit _ sampleModel_gap] at hrater
  cases hrater
  refine mem_records_of_scored hnever hgap hwalk hreport (List.mem_singleton_self _)
    (u := wordUnit) List.mem_cons_self ?_
  rw [hunits, hscores]
  exact scored_wordRecord hlog

theorem digestsApart_wordCalls : DigestsApart wordJob.tools.digest
    ((wordJob.rated [wordCall sampleModel, wordCall raisedModel]).map (·.2)) := by
  have hunits : (wordJob.rated [wordCall sampleModel, wordCall raisedModel]).map (·.2) =
      [wordUnit, textUnit, wordUnit, textUnit] := by
    rw [rated, List.flatMap_cons, List.flatMap_singleton, ratedIn_wordCall raisedModel_gap,
      ratedIn_wordCall sampleModel_gap]
    rfl
  rw [hunits]
  unfold DigestsApart
  decide +kernel

/-- The second of two calls shows nothing but what the first one's model gives. -/
theorem records_grounded_word :
    ∃ report, (wordJob.runAfter [wordCall sampleModel] (wordCall raisedModel)).1 = .ok report ∧
      (∀ record ∈ report.records,
        (wordJob.called (wordCall sampleModel)).Grounded [wordRevision] record) ∧
      (Decimal.isFinite (Float.log 2) = true → wordRecord ∈ report.records) := by
  obtain ⟨report, hreport, hword⟩ := report_wordCall raisedModel raisedModel_gap
  refine ⟨report, hreport, fun record hrecord => ?_, hword⟩
  obtain ⟨hall, -⟩ := records_grounded wordJob [wordCall sampleModel] (wordCall raisedModel) report
    (List.nodup_singleton _) digestsApart_wordCalls hreport
  obtain ⟨content, rater, -, ⟨before, after, hsplit, hrates, hnone⟩, hgrounded, -⟩ :=
    hall record hrecord
  rcases before with _ | ⟨first, before⟩
  · cases hsplit
    exact hgrounded
  · -- the first call rates all that the second one does
    obtain ⟨rfl, hrest⟩ := List.cons.inj hsplit
    have hrater : rater ∈ [wordCall raisedModel] := by
      rw [show [wordCall raisedModel] = before ++ rater :: after from hrest]
      exact List.mem_append_right _ List.mem_cons_self
    obtain ⟨u, hu, hrated⟩ := hrates
    rw [List.mem_singleton.mp hrater, ratedIn_wordCall raisedModel_gap,
      ← ratedIn_wordCall sampleModel_gap] at hu
    exact absurd ⟨u, hu, hrated⟩ (hnone _ List.mem_cons_self)

/-- The record of the word says zero in a report of a model whose scores begin at two, as long as
the logarithm of two is a number. -/
theorem records_ungrounded_raised :
    ∃ report, (wordJob.runAfter [wordCall sampleModel] (wordCall raisedModel)).1 = .ok report ∧
      (Decimal.isFinite (Float.log 2) = true → wordRecord ∈ report.records ∧
        raisedModel.score wordRecord.features = .ok 2 ∧
        ¬ (wordJob.called (wordCall raisedModel)).Grounded [wordRevision] wordRecord) := by
  obtain ⟨report, hreport, hword⟩ := report_wordCall raisedModel raisedModel_gap
  refine ⟨report, hreport, fun hlog => ?_⟩
  have hscore : raisedModel.score wordFeatures = .ok 2 := by
    rw [raisedModel, score_wordFeatures hlog]
    exact congrArg Except.ok (by decide +kernel)
  refine ⟨hword hlog, hscore, fun hgrounded => ?_⟩
  have hsame : Except.ok 2 = Except.ok wordRecord.score := hscore.symm.trans hgrounded.score
  have hzero : (2 : Float) = 0 := Except.ok.inj hsame
  exact absurd hzero (by decide +kernel)

end Job

end Readability.Run
