import Readability.Run.Scoring
import Readability.Run.Signal

/-!
A run over a history: its revisions are walked, the files of each are chosen and read, scored and
told to the aggregator. A run that is asked to end does so before the next revision, or before the
next file is read; a revision whose files were not all read leaves no trace in the report.
-/

namespace Readability.Run

open Readability.History (Revision RevisionRange WalkOrder)
open Readability.Report (Aggregator Failure Outcome)
open Readability.Source (Language SourceUnit UnitError UnitId)

/-- What is rated in a run. -/
structure Options where
  range : RevisionRange
  order : WalkOrder
  granularity : Granularity
  /-- All files of each revision, not only those it changed. -/
  allFiles : Bool
  /-- Files of unknown languages as well. -/
  keepUnsupported : Bool

/-- A run that ended before its report. -/
structure RunFailure where
  /-- What the run was at. -/
  stage : State
  error : FatalError
deriving Repr, DecidableEq

namespace RunFailure

/-- The failure in words. -/
def message (f : RunFailure) : String :=
  "run failed during " ++ f.stage.name ++ ": " ++ f.error.message

end RunFailure

/-- What a run works with. -/
structure Job where
  history : History
  options : Options
  /-- Which paths are looked at. -/
  keeps : String → Bool
  signal : Signal
  tools : Tools
  model : Model

/-- How far a run is. -/
structure Session where
  /-- The states gone through, the latest first. -/
  states : List State
  /-- The moments gone through. -/
  moments : List Moment
  /-- Someone asked for the end. -/
  stopped : Bool
  /-- The run ended before the walk did. -/
  isPartial : Bool
  cache : ScoreCache
  outcomes : List Outcome
  /-- Revisions and paths that were read. -/
  reads : List (String × String)
  /-- Revisions that are done, and how many were by then. -/
  progress : List (Revision × Nat)

namespace Session

/-- Goes through a moment. -/
def pass (signal : Signal) (moment : Moment) (s : Session) : Session :=
  { s with
    moments := s.moments ++ [moment],
    stopped := s.stopped || signal s.moments.length moment }

/-- A run that has not begun, with the scores that are stored before it. -/
def start (signal : Signal) (stored : ScoreCache) : Session :=
  pass signal .start ⟨[.init], [], false, false, stored, [], [], []⟩

/-- The state of the run. -/
def state (s : Session) : State :=
  s.states.headD .init

/-- Goes on to a state, if the run is not in it yet. -/
def advance (s : Session) (next : State) : Session :=
  if s.state == next then s else { s with states := next :: s.states }

/-- Records outcomes. -/
def tell (s : Session) (outcomes : List Outcome) : Session :=
  { s with outcomes := s.outcomes ++ outcomes }

/-- Looks at paths. -/
def look (signal : Signal) (s : Session) (paths : List String) : Session :=
  paths.foldl (fun s path => s.pass signal (.seen path)) s

/-- Records that a file was read. -/
def noteRead (signal : Signal) (revision path : String) (s : Session) : Session :=
  pass signal (.read revision path) { s with reads := s.reads ++ [(revision, path)] }

/-- Records that a revision is done. -/
def noteDone (signal : Signal) (revision : Revision) (s : Session) : Session :=
  let count := s.progress.length + 1
  pass signal (.done count) { s with progress := s.progress ++ [(revision, count)] }

end Session

/-- Scores the units of a revision: what there is to tell, in the order in which it arrives, and the
results to go on with. -/
abbrev Scorer := Time.Instant → ScoreCache → List SourceUnit → List Outcome × ScoreCache

namespace Job

/-- Scores units with the results that are stored. -/
def sharing (job : Job) : Scorer :=
  scoreUnits job.tools job.model job.options.granularity

/-- Scores units without a store. -/
def afresh (job : Job) : Scorer := fun timestamp cache units =>
  (scoreUnitsAfresh job.tools.parser job.model job.options.granularity timestamp units, cache)

/-- Whether files of that path can be rated, or are wanted all the same. -/
def suits (job : Job) (path : String) : Bool :=
  job.options.keepUnsupported || (Language.ofPath? path).isSome

/-- The paths of a revision that there are to choose from. -/
def candidates (job : Job) (revision : Revision) : Except UnitError (List String) :=
  if job.options.allFiles then job.history.list revision.id else .ok revision.changedPaths

/-- The paths of a revision that are looked at. -/
def seenPaths (job : Job) (revision : Revision) : Except UnitError (List String) :=
  (job.candidates revision).map fun paths => paths.filter job.suits

/-- Reads a path. -/
def readUnit (job : Job) (revision path : String) : Except Failure SourceUnit :=
  match job.history.read revision path with
  | .ok content => .ok ⟨.file path revision, content⟩
  | .error e => .error ⟨.file path revision, e⟩

/-- The units among some results. -/
def unitsOf (results : List (Except Failure SourceUnit)) : List SourceUnit :=
  results.filterMap Except.toOption

/-- The failures among some results. -/
def failuresOf (results : List (Except Failure SourceUnit)) : List Failure :=
  results.filterMap fun
    | .ok _ => none
    | .error f => some f

/-- Reads paths one after the other; nothing when the run is to end before all are read. -/
def readPaths (job : Job) (revision : String) (s : Session) :
    List String → Option (List (Except Failure SourceUnit)) × Session
  | [] => (some [], s)
  | path :: rest =>
    if s.stopped then (none, s)
    else
      let result := job.readUnit revision path
      let (results, s) := job.readPaths revision (s.noteRead job.signal revision path) rest
      (results.map (result :: ·), s)

/-- Scores the files of a revision that were read, and tells of it all. -/
def scoreRevision (job : Job) (score : Scorer) (index : Nat) (revision : Revision)
    (results : List (Except Failure SourceUnit)) (s : Session) : Session :=
  let s := (s.advance .scoring).tell
    (.revision index revision :: (failuresOf results).map .failed)
  let (outcomes, cache) := score revision.timestamp s.cache (unitsOf results)
  let s := ({ s with cache := cache }.tell outcomes).advance .walking
  s.noteDone job.signal revision

/-- Reads and scores a revision, or ends the run. -/
def visit (job : Job) (score : Scorer) (index : Nat) (revision : Revision) (s : Session) :
    Session :=
  match job.seenPaths revision with
  | .error e => job.scoreRevision score index revision [.error ⟨.file "" revision.id, e⟩] s
  | .ok seen =>
    match job.readPaths revision.id (s.look job.signal seen) (seen.filter job.keeps) with
    | (none, s) => { s with isPartial := true }
    | (some results, s) => job.scoreRevision score index revision results s

/-- What is told of an item of the walk that failed to load. -/
def lossOf (index : Nat) (e : UnitError) : Outcome :=
  .failed ⟨.file "" ("#" ++ toString index), e⟩

/-- Goes through what the walk yields; `index` counts what came before. -/
def walkFrom (job : Job) (score : Scorer) (index : Nat) (s : Session) :
    List (Except UnitError Revision) → Session
  | [] => s
  | item :: rest =>
    let s := s.pass job.signal (.yielded index)
    if s.stopped then { s with isPartial := true }
    else
      match item with
      | .error e => job.walkFrom score (index + 1) (s.tell [lossOf index e]) rest
      | .ok revision =>
        let s := job.visit score index revision s
        if s.isPartial then s else job.walkFrom score (index + 1) s rest

/-- The aggregator that has taken in all outcomes. -/
def aggregate (job : Job) (s : Session) : Aggregator :=
  .collect job.options.order s.outcomes

/-- Ends the walk: the report, or a failure when the model took no unit. -/
def conclude (job : Job) (s : Session) (runId : String) (now : Time.Instant) :
    Except RunFailure Report × Session :=
  let s := s.advance .aggregating
  let aggregator := job.aggregate s
  if aggregator.allMismatched then
    (.error ⟨.aggregating,
      .modelLoad job.model.source "every unit was rejected with a feature mismatch"⟩,
      s.advance .failed)
  else
    let about := ⟨job.history.location, job.options.range.text, job.model.info, s.isPartial⟩
    (.ok (aggregator.finish about runId now), s)

/-- A whole run with a model that fits. -/
def execute (job : Job) (score : Scorer) (stored : ScoreCache) (runId : String)
    (now : Time.Instant) : Except RunFailure Report × Session :=
  let s := (Session.start job.signal stored).advance .walking
  match job.history.walk job.options.range job.options.order with
  | .error e => (.error ⟨.walking, e⟩, s.advance .failed)
  | .ok items => job.conclude (job.walkFrom score 0 s items) runId now

/-- A run with the model it names, which has to rate what is measured, and some way to score. -/
def runBy (job : Job) (score : Scorer) (stored : ScoreCache) (runId : String)
    (now : Time.Instant) : Except RunFailure Report × Session :=
  match job.model.schemaGap? Feature.schema Feature.names with
  | some gap =>
    (.error ⟨.init, .modelLoad job.model.source gap⟩,
      (Session.start job.signal stored).advance .failed)
  | none => job.execute score stored runId now

/-- A run that scores equal contents once, on top of the scores that are stored before it. -/
def runOn (job : Job) (stored : ScoreCache) (runId : String) (now : Time.Instant) :
    Except RunFailure Report × Session :=
  job.runBy job.sharing stored runId now

/-- The first run of a pipeline, which has nothing stored yet. -/
def run (job : Job) (runId : String) (now : Time.Instant) : Except RunFailure Report × Session :=
  job.runOn .empty runId now

/-- A run that scores each unit on its own. -/
def runAfresh (job : Job) (runId : String) (now : Time.Instant) :
    Except RunFailure Report × Session :=
  job.runBy job.afresh .empty runId now

end Job

/-- A run whose model is yet to be found. Without one it stores nothing. -/
def runWithOn (stored : ScoreCache) (model : Except FatalError Model)
    (job : Model → Job) (signal : Signal) (runId : String) (now : Time.Instant) :
    Except RunFailure Report × Session :=
  match model with
  | .error e => (.error ⟨.init, e⟩, (Session.start signal stored).advance .failed)
  | .ok m => (job m).runOn stored runId now

/-- The first run of a pipeline whose model is yet to be found. -/
def runWith (model : Except FatalError Model) (job : Model → Job) (signal : Signal)
    (runId : String) (now : Time.Instant) : Except RunFailure Report × Session :=
  runWithOn .empty model job signal runId now

/-! ## Runs one after the other -/

/-- What one run of a pipeline is given; all else is the pipeline's and stays. -/
structure Call where
  model : Model
  signal : Signal
  runId : String
  now : Time.Instant

namespace Job

/-- The job of one call. -/
def called (job : Job) (call : Call) : Job :=
  { job with model := call.model, signal := call.signal }

/-- A run of a pipeline on the scores that its earlier runs have stored. The store outlives a run,
is never emptied, and its keys do not say which model a score is of. -/
def runCall (job : Job) (stored : ScoreCache) (call : Call) : Except RunFailure Report × Session :=
  (job.called call).runOn stored call.runId call.now

/-- The scores that are stored after some calls, one after the other. -/
def storedAfter (job : Job) (calls : List Call) : ScoreCache :=
  calls.foldl (fun stored call => (job.runCall stored call).2.cache) .empty

/-- A run of a pipeline that has been called before. -/
def runAfter (job : Job) (earlier : List Call) (call : Call) :
    Except RunFailure Report × Session :=
  job.runCall (job.storedAfter earlier) call

end Job

end Readability.Run
