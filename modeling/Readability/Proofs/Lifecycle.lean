import Readability.Proofs.Provenance

/-!
# The life of a run

A run goes from state to state (`Course`), each of them one that may follow the
state before. While it walks, a revision takes it from walking to scoring and
back, whether its files can be read or not, so every turn of the walk begins and
ends in the same state (`walkFrom_states`).

Main statement: `runFrom_lifecycle`. A run ends with a report, or it fails at one
of three stages, and for each of them there is one cause (`Lifecycle`): the model
cannot be had or does not fit (`unfit?`), the walk cannot be started, or the
model took none of the units (`Rejected`). What fails to load, to be read or to
be scored ends no run by itself.
-/

namespace Readability.Run

open Readability.History (Revision)
open Readability.Report (Aggregator Failure Outcome)
open Readability.Source (SourceUnit UnitError)

/-! ## Going from state to state -/

/-- States as a run may go through them, the latest first. -/
structure Course (states : List State) : Prop where
  begins : states.getLast? = some .init
  steps : states.IsChain fun next state => state.canAdvanceTo next = true

theorem course_init : Course [.init] :=
  ⟨rfl, .singleton _⟩

theorem Course.cons {state next : State} {before : List State} (h : Course (state :: before))
    (hstep : state.canAdvanceTo next = true) : Course (next :: state :: before) := by
  refine ⟨?_, List.isChain_cons_cons.mpr ⟨hstep, h.steps⟩⟩
  rw [List.getLast?_cons_cons]
  exact h.begins

namespace Session

/-- The session went through legal states up to the one it is in. -/
structure At (s : Session) (state : State) : Prop where
  course : Course s.states
  state : s.state = state

/-- What leaves the states alone leaves the session where it is. -/
theorem At.of_states {s t : Session} {state : State} (h : s.At state)
    (hstates : t.states = s.states) : t.At state := by
  refine ⟨by rw [hstates]; exact h.course, ?_⟩
  rw [Session.state, hstates]
  exact h.state

/-- Going on to a state that may come next. -/
theorem At.advance {s : Session} {state next : State} (h : s.At state)
    (hstep : state.canAdvanceTo next = true) : (s.advance next).At next := by
  rw [Session.advance]
  split
  · rename_i hsame
    exact ⟨h.course, beq_iff_eq.mp hsame⟩
  · refine ⟨?_, rfl⟩
    have hcourse := h.course
    have hstate := h.state
    rw [Session.state] at hstate
    rcases hstates : s.states with _ | ⟨latest, before⟩
    · -- a course is never without a state
      have hbegins := hcourse.begins
      rw [hstates] at hbegins
      cases hbegins
    · rw [hstates] at hcourse hstate
      rw [List.headD_cons] at hstate
      subst hstate
      exact hcourse.cons hstep

theorem start_at (signal : Signal) (stored : ScoreCache) : (Session.start signal stored).At .init :=
  ⟨course_init, rfl⟩

theorem look_states (signal : Signal) (paths : List String) (s : Session) :
    (s.look signal paths).states = s.states := by
  induction paths generalizing s with
  | nil => rfl
  | cons path paths ih => exact ih _

end Session

namespace Job

open Session

variable (job : Job) (score : Scorer)

theorem readPaths_states (revision : String) :
    ∀ (paths : List String) (s : Session),
      (job.readPaths revision s paths).2.states = s.states := by
  intro paths
  induction paths with
  | nil => exact fun _ => rfl
  | cons path rest ih =>
    intro s
    rw [readPaths]
    split
    · rfl
    · exact ih _

/-- A revision that is scored takes a walking run to scoring and back. -/
theorem scoreRevision_at (index : Nat) (revision : Revision)
    (results : List (Except Failure SourceUnit)) {s : Session} (h : s.At .walking) :
    (job.scoreRevision score index revision results s).At .walking := by
  have hscoring : (s.advance .scoring).At .scoring := h.advance rfl
  have hdone : ∀ t : Session, t.states = (s.advance .scoring).states →
      ((t.advance .walking).noteDone job.signal revision).At .walking :=
    fun t ht => ((hscoring.of_states ht).advance rfl).of_states rfl
  exact hdone _ rfl

/-- So does every revision, or it leaves the run walking. -/
theorem visit_at (index : Nat) (revision : Revision) {s : Session} (h : s.At .walking) :
    (job.visit score index revision s).At .walking := by
  rw [visit]
  split
  · exact scoreRevision_at job score index revision _ h
  · rename_i seen _
    have hread : (job.readPaths revision.id (s.look job.signal seen)
        (seen.filter job.keeps)).2.At .walking := by
      refine h.of_states ?_
      rw [readPaths_states, look_states]
    split
    · rename_i t hnone
      rw [hnone] at hread
      exact hread.of_states rfl
    · rename_i results t hsome
      rw [hsome] at hread
      exact scoreRevision_at job score index revision results hread

/-- **A walk ends as it begins**, whatever its items are and whenever someone asks
for the end. -/
theorem walkFrom_at :
    ∀ (items : List (Except UnitError Revision)) (index : Nat) (s : Session), s.At .walking →
      (job.walkFrom score index s items).At .walking := by
  intro items
  induction items with
  | nil => exact fun _ _ h => h
  | cons item rest ih =>
    intro index s h
    have hpass : (s.pass job.signal (.yielded index)).At .walking := h.of_states rfl
    simp only [walkFrom]
    split
    · exact hpass.of_states rfl
    · cases item with
      | error e => exact ih _ _ (hpass.of_states rfl)
      | ok revision =>
        have hvisit := visit_at job score index revision hpass
        dsimp only
        split
        · exact hvisit
        · exact ih _ _ hvisit

theorem begin_at (stored : ScoreCache) : (job.begin stored).At .walking :=
  (start_at job.signal stored).advance rfl

end Job

/-! ## Why a run fails -/

/-- Why a run does not begin: its model cannot be had, or does not rate what is
measured. -/
def unfit? : Except FatalError Model → Option FatalError
  | .error e => some e
  | .ok m => (m.schemaGap? Feature.schema Feature.names).map (.modelLoad m.source)

theorem schemaGap_of_fit {m : Model} (h : unfit? (.ok m) = none) :
    m.schemaGap? Feature.schema Feature.names = none :=
  Option.map_eq_none_iff.mp h

/-- Units were tried, and the features of each did not fit the model. -/
structure Rejected (outcomes : List Outcome) : Prop where
  records : ∀ record, .scored record ∉ outcomes
  failures : ∃ failure, .failed failure ∈ outcomes
  mismatches : ∀ failure, .failed failure ∈ outcomes →
    ∃ reason, failure.error = .featureMismatch reason

theorem isMismatch_iff (e : UnitError) :
    e.isMismatch = true ↔ ∃ reason, e = .featureMismatch reason := by
  cases e <;> simp [UnitError.isMismatch]

theorem allMismatched_iff_rejected (order : History.WalkOrder) (outcomes : List Outcome) :
    (Aggregator.collect order outcomes).allMismatched = true ↔ Rejected outcomes := by
  have hrecords : (outcomes.filterMap Outcome.record?).isEmpty = true ↔
      ∀ record, .scored record ∉ outcomes := by
    simp only [List.isEmpty_iff, List.eq_nil_iff_forall_not_mem, Aggregator.mem_records]
  have hfailures : (!(outcomes.filterMap Outcome.failure?).isEmpty) = true ↔
      ∃ failure, .failed failure ∈ outcomes := by
    simp only [Bool.not_eq_true', List.isEmpty_eq_false_iff_exists_mem, Aggregator.mem_failures]
  rw [Aggregator.allMismatched, Aggregator.collect_records, Aggregator.collect_failures,
    Bool.and_eq_true, Bool.and_eq_true, hrecords, hfailures, List.all_eq_true]
  simp only [Aggregator.mem_failures, isMismatch_iff]
  constructor
  · rintro ⟨⟨hnone, hsome⟩, hall⟩
    exact ⟨hnone, hsome, hall⟩
  · rintro ⟨hnone, hsome, hall⟩
    exact ⟨⟨hnone, hsome⟩, hall⟩

/-- One revision with one unit, whose features do not fit. -/
theorem rejected_of_mismatch {index : Nat} {revision : Revision} {failure : Failure}
    (h : failure.error.isMismatch = true) :
    Rejected [.revision index revision, .failed failure] := by
  refine ⟨fun record hrecord => ?_, ⟨failure, List.mem_of_mem_getLast? rfl⟩, ?_⟩
  · rcases List.mem_pair.mp hrecord with hsame | hsame <;> cases hsame
  · intro other hother
    rcases List.mem_pair.mp hother with hsame | hsame <;> cases hsame
    exact (isMismatch_iff _).mp h

/-! ## The whole run -/

namespace Job

/-- The job with some model. -/
def fitted (job : Job) (m : Model) : Job :=
  { job with model := m }

/-- A run of the job on stored scores, whatever its own model is, with a model that is given
(`.ok m`) or that was looked for (`sources.resolve disk`). -/
def runFrom (job : Job) (stored : ScoreCache) (model : Except FatalError Model)
    (runId : String) (now : Time.Instant) : Except RunFailure Report × Session :=
  runWithOn stored model job.fitted job.signal runId now

/-- The walk that a run asks for. -/
def askedWalk (job : Job) : Except FatalError (List (Except UnitError Revision)) :=
  job.history.walk job.options.range job.options.order

/-- How a run ends: what it comes to, and the session that is left. -/
inductive Ending (job : Job) (stored : ScoreCache) (model : Except FatalError Model) :
    Except RunFailure Report × Session → Prop
  | unfit {e : FatalError} (hmodel : unfit? model = some e) :
    Ending job stored model (.error ⟨.init, e⟩, (Session.start job.signal stored).advance .failed)
  | unwalked {e : FatalError} (hmodel : unfit? model = none) (hwalk : job.askedWalk = .error e) :
    Ending job stored model (.error ⟨.walking, e⟩, (job.begin stored).advance .failed)
  | rejected {items : List (Except UnitError Revision)} {e : FatalError} {s : Session}
    (hmodel : unfit? model = none) (hwalk : job.askedWalk = .ok items)
    (hrejected : Rejected s.outcomes) (hat : s.At .failed) :
    Ending job stored model (.error ⟨.aggregating, e⟩, s)
  | reported {items : List (Except UnitError Revision)} {report : Report} {s : Session}
    (hmodel : unfit? model = none) (hwalk : job.askedWalk = .ok items)
    (htaken : ¬ Rejected s.outcomes) (hat : s.At .aggregating)
    (hstate : report.state = .aggregating) :
    Ending job stored model (.ok report, s)

section Endings

variable {stored : ScoreCache}

/-- The end of a walk is a report, or the failure of a model that took no unit. -/
theorem conclude_ending (job : Job) {m : Model} {items : List (Except UnitError Revision)}
    (hmodel : unfit? (.ok m) = none) (hwalk : job.askedWalk = .ok items) {s : Session}
    (h : s.At .walking) (runId : String) (now : Time.Instant) :
    Ending job stored (.ok m) ((job.fitted m).conclude s runId now) := by
  have haggregating : (s.advance .aggregating).At .aggregating := h.advance rfl
  rw [conclude]
  dsimp only
  split
  · rename_i hall
    have hrejected := (allMismatched_iff_rejected _ _).mp hall
    refine .rejected hmodel hwalk ?_ (haggregating.advance rfl)
    obtain ⟨states, hstates⟩ := Session.advance_eq .failed (s.advance .aggregating)
    rw [hstates]
    exact hrejected
  · rename_i hall
    exact .reported hmodel hwalk (fun h => hall ((allMismatched_iff_rejected _ _).mpr h))
      haggregating rfl

theorem runFrom_of_unfit (job : Job) {model : Except FatalError Model} {e : FatalError}
    (h : unfit? model = some e) (runId : String) (now : Time.Instant) :
    job.runFrom stored model runId now =
      (.error ⟨.init, e⟩, (Session.start job.signal stored).advance .failed) := by
  rcases model with e' | m
  · injection h with he
    rw [← he]
    rfl
  · obtain ⟨gap, hgap, rfl⟩ := Option.map_eq_some_iff.mp h
    have hrun : (job.fitted m).runOn stored runId now = _ := runBy_of_gap hgap
    exact hrun

theorem runFrom_of_unwalked (job : Job) {model : Except FatalError Model}
    (hmodel : unfit? model = none) {e : FatalError} (hwalk : job.askedWalk = .error e)
    (runId : String) (now : Time.Instant) :
    job.runFrom stored model runId now =
      (.error ⟨.walking, e⟩, (job.begin stored).advance .failed) := by
  rcases model with e' | m
  · cases hmodel
  · have hrun : (job.fitted m).runOn stored runId now = _ :=
      runBy_of_no_walk (schemaGap_of_fit hmodel) hwalk
    exact hrun

theorem runFrom_ending (job : Job) (model : Except FatalError Model) (runId : String)
    (now : Time.Instant) : Ending job stored model (job.runFrom stored model runId now) := by
  rcases hmodel : unfit? model with _ | e
  · rcases hwalk : job.askedWalk with e | items
    · rw [job.runFrom_of_unwalked hmodel hwalk]
      exact .unwalked hmodel hwalk
    · rcases model with e | m
      · cases hmodel
      · have hrun : (job.fitted m).runOn stored runId now = (job.fitted m).conclude
            ((job.fitted m).walked (job.fitted m).sharing stored items) runId now :=
          runBy_of_walk (schemaGap_of_fit hmodel) hwalk
        rw [runFrom, runWithOn, hrun]
        exact conclude_ending job hmodel hwalk (walkFrom_at _ _ items 0 _ (begin_at _ _)) runId now
  · rw [job.runFrom_of_unfit hmodel]
    exact .unfit hmodel

end Endings

/-! ## The causes of failure -/

/-- What a run goes through, and what makes it fail. -/
structure Lifecycle (job : Job) (stored : ScoreCache) (model : Except FatalError Model)
    (runId : String) (now : Time.Instant) (run : Except RunFailure Report × Session) : Prop where
  course : Course run.2.states
  /-- It ends with a report, or as a failure at one of three stages. -/
  ends : (∃ report, run.1 = .ok report ∧ report.state = .aggregating ∧
      run.2.state = .aggregating) ∨
    ∃ failure, run.1 = .error failure ∧ run.2.state = .failed ∧
      failure.stage ∈ [State.init, .walking, .aggregating]
  /-- Without a model that fits there is no run. -/
  unfit : ∀ e, run.1 = .error ⟨.init, e⟩ ↔ unfit? model = some e
  /-- Then the history is not asked for anything: with any other one the run is the same. -/
  untouched : (∃ e, run.1 = .error ⟨.init, e⟩) → run.2.moments = [.start] ∧ run.2.reads = [] ∧
    ∀ history, ({ job with history } : Job).runFrom stored model runId now = run
  /-- With such a model, a run fails where its walk cannot be started. -/
  unwalked : ∀ e, run.1 = .error ⟨.walking, e⟩ ↔
    unfit? model = none ∧ job.askedWalk = .error e
  /-- Then no file is asked for: with any other files the run is the same. -/
  unread : (∃ e, run.1 = .error ⟨.walking, e⟩) → run.2.moments = [.start] ∧ run.2.reads = [] ∧
    ∀ read list, ({ job with history := { job.history with read, list } } : Job).runFrom stored
      model runId now = run
  /-- After the walk, it fails where the model took none of the units. -/
  rejected : (∃ e, run.1 = .error ⟨.aggregating, e⟩) ↔ Rejected run.2.outcomes

namespace Ending

variable {job : Job} {stored : ScoreCache} {model : Except FatalError Model}
  {run : Except RunFailure Report × Session}

theorem session_at (h : Ending job stored model run) :
    run.2.At (match run.1 with | .ok _ => .aggregating | .error _ => .failed) := by
  cases h with
  | unfit =>
    have hstep : State.init.canAdvanceTo .failed = true := rfl
    exact (Session.start_at job.signal stored).advance hstep
  | unwalked =>
    have hstep : State.walking.canAdvanceTo .failed = true := rfl
    exact (job.begin_at stored).advance hstep
  | rejected _ _ _ hat => exact hat
  | reported _ _ _ hat => exact hat

theorem ends (h : Ending job stored model run) :
    (∃ report, run.1 = .ok report ∧ report.state = .aggregating ∧ run.2.state = .aggregating) ∨
      ∃ failure, run.1 = .error failure ∧ run.2.state = .failed ∧
        failure.stage ∈ [State.init, .walking, .aggregating] := by
  have hstate := h.session_at.state
  cases h with
  | unfit => exact .inr ⟨_, rfl, hstate, by simp⟩
  | unwalked => exact .inr ⟨_, rfl, hstate, by simp⟩
  | rejected => exact .inr ⟨_, rfl, hstate, by simp⟩
  | reported _ _ _ _ hreport => exact .inl ⟨_, rfl, hreport, hstate⟩

theorem unfit_iff (h : Ending job stored model run) (e : FatalError) :
    run.1 = .error ⟨.init, e⟩ ↔ unfit? model = some e := by
  cases h with
  | unfit hmodel => simp [hmodel]
  | unwalked hmodel => simp [hmodel]
  | rejected hmodel => simp [hmodel]
  | reported hmodel => simp [hmodel]

theorem unwalked_iff (h : Ending job stored model run) (e : FatalError) :
    run.1 = .error ⟨.walking, e⟩ ↔ unfit? model = none ∧ job.askedWalk = .error e := by
  cases h with
  | unfit hmodel => simp [hmodel]
  | unwalked hmodel hwalk => simp [hmodel, hwalk]
  | rejected hmodel hwalk => simp [hmodel, hwalk]
  | reported hmodel hwalk => simp [hmodel, hwalk]

theorem rejected_iff (h : Ending job stored model run) :
    (∃ e, run.1 = .error ⟨.aggregating, e⟩) ↔ Rejected run.2.outcomes := by
  -- before the walk nothing was told
  have hnothing : ¬ Rejected [] := fun hrejected =>
    hrejected.failures.elim fun _ hfailure => List.not_mem_nil hfailure
  cases h with
  | unfit => exact iff_of_false (by simp) hnothing
  | unwalked => exact iff_of_false (by simp) hnothing
  | rejected _ _ hrejected => exact iff_of_true ⟨_, rfl⟩ hrejected
  | reported _ _ htaken => exact iff_of_false (by simp) htaken

end Ending

/-- **A run takes a legal course, and fails for one of three reasons.** -/
theorem runFrom_lifecycle (job : Job) (stored : ScoreCache)
    (model : Except FatalError Model) (runId : String) (now : Time.Instant) :
    Lifecycle job stored model runId now (job.runFrom stored model runId now) := by
  have hending : Ending job stored model _ := job.runFrom_ending model runId now
  refine ⟨hending.session_at.course, hending.ends, hending.unfit_iff, ?_, hending.unwalked_iff,
    ?_, hending.rejected_iff⟩
  · rintro ⟨e, he⟩
    have hmodel := (hending.unfit_iff e).mp he
    rw [job.runFrom_of_unfit hmodel]
    exact ⟨rfl, rfl, fun history => runFrom_of_unfit _ hmodel runId now⟩
  · rintro ⟨e, he⟩
    obtain ⟨hmodel, hwalk⟩ := (hending.unwalked_iff e).mp he
    rw [job.runFrom_of_unwalked hmodel hwalk]
    refine ⟨rfl, rfl, ?_⟩
    intro read list
    let unread : Job := { job with history := { job.history with read, list } }
    exact unread.runFrom_of_unwalked hmodel hwalk runId now

/-! ## A model that takes nothing -/

/-- A model whose weights take the length of a line to infinity, upwards and downwards. -/
def tornModel : Model :=
  { sampleModel with
    features := ⟨"line_length_avg", 1e308, none⟩ :: ⟨"line_length_max", -1e308, none⟩ ::
      sampleModel.features.drop 2 }

/-- A run over the word alone. -/
def tornJob : Job :=
  { wordJob with options := { wordJob.options with keepUnsupported := false } }

/-- No sum over the features of the word is a number, whatever the logarithm of two is. -/
theorem score_tornModel : ∃ e, tornModel.score wordFeatures = .error e := by
  rcases hscore : tornModel.score wordFeatures with e | score
  · exact ⟨e, rfl⟩
  · have hsum := (Model.score_eq_ok hscore).2.1
    rw [weightedSum_wordFeatures tornModel (tornModel.features.take 25)
      ⟨"code_lines_log", 0, none⟩ rfl rfl] at hsum
    have hknown : (Number.total (List.zipWith (fun (f : Model.FeatureWeight) x => f.weight * x)
        (tornModel.features.take 25)
        ([11, 11, 1, 1, 11, 11] ++ List.replicate 19 0))).isNaN = true := by decide +kernel
    rw [Number.isNaN_add rfl, Number.isNaN_add_of_isNaN hknown] at hsum
    cases hsum

/-- What there is to tell of one revision with one unit. -/
theorem account_of_one {job : Job} {scores : SourceUnit → ContentScores} {index : Nat}
    {revision : Revision} {u : SourceUnit} (h : job.results revision = [.ok u]) :
    job.account scores index [.ok revision] =
      .revision index revision :: outcomesOf u revision.timestamp (scores u) := by
  rw [account_cons, accountItem, h]
  exact (List.append_nil _).trans (congrArg _ (List.append_nil _))

/-- The word is all there is to rate, and the model takes none of it. -/
theorem rejected_tornJob :
    Rejected (tornJob.runFrom .empty (.ok tornModel) "" .epoch).2.outcomes := by
  obtain ⟨e, he⟩ := score_tornModel
  have hscores : (tornJob.fitted tornModel).scores wordUnit = .ok [.error ⟨none, e⟩] := by
    rw [scores_of_extract rfl extract_wordUnit, scorePart]
    simp only [fitted, he]
  have hown : (tornJob.fitted tornModel).shared [wordUnit] wordUnit = .ok [.error ⟨none, e⟩] := by
    rw [shared_of_head (beq_self_eq_true _), hscores]
  have hresults : (tornJob.fitted tornModel).results wordRevision = [.ok wordUnit] := rfl
  have hunits : (tornJob.fitted tornModel).unitsIn [.ok wordRevision] = [wordUnit] := by
    rw [unitsIn_ok, hresults]
    rfl
  have htold : outcomesOf wordUnit wordRevision.timestamp (.ok [.error ⟨none, e⟩]) =
      [.failed ⟨wordUnit.id, e⟩] := by
    rw [outcomesOf, language_wordUnit]
    rfl
  have hwalk : (tornJob.fitted tornModel).history.walk .whole .chronological =
      .ok [.ok wordRevision] := rfl
  have houtcomes := (runOn_undisturbed rfl (by decide) hwalk .empty "" .epoch).2
  rw [hunits, sharedOn_empty, account_of_one hresults, hown, htold] at houtcomes
  rw [runFrom, runWithOn, houtcomes]
  exact rejected_of_mismatch (Model.isMismatch_of_score he)

/-- The run is over at the end of its walk. -/
theorem runFrom_lifecycle_torn :
    ∃ e, (tornJob.runFrom .empty (.ok tornModel) "" .epoch).1 = .error ⟨.aggregating, e⟩ := by
  have hlifecycle := runFrom_lifecycle tornJob .empty (.ok tornModel) "" .epoch
  exact hlifecycle.rejected.mpr rejected_tornJob

end Job

end Readability.Run
