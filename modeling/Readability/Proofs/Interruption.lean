import Readability.Proofs.Walk

/-!
# Runs that are asked to end

A signal may ask a run for the end at any of its moments. What the run comes to
is then what an undisturbed run over the first items of the walk comes to
(`upTo`), marked as partial if items were left over.

Main statement: `run_interrupted`. The number of items is not the run's to
choose: fewer than all are taken only when someone asked for the end, and each
one that is taken was begun before anyone did.
-/

namespace Readability.Run

open Readability.History (Revision)
open Readability.Report (Aggregator Outcome)
open Readability.Source (UnitError)

namespace Job

variable {job : Job} {score : Scorer}

/-- The items that the walk of a run yields; none when the run comes to no
walk. -/
def items (job : Job) : List (Except UnitError Revision) :=
  match job.model.schemaGap? Feature.schema Feature.names,
    job.history.walk job.options.range job.options.order with
  | none, .ok items => items
  | _, _ => []

/-- The job over the first items of its history, with no one to ask for the
end. -/
def upTo (job : Job) (k : Nat) : Job :=
  { job with
    history :=
      { job.history with
        walk := fun range order => (job.history.walk range order).map fun items => items.take k }
    signal := .never }

/-- A run that no one asks to end tells of all items. -/
theorem runBy_tells_undisturbed (job : Job) (hsignal : job.signal = .never)
    (hgap : job.model.schemaGap? Feature.schema Feature.names = none)
    {items : List (Except UnitError Revision)}
    (hwalk : job.history.walk job.options.range job.options.order = .ok items) (score : Scorer)
    (stored : ScoreCache) (runId : String) (now : Time.Instant) :
    Tells job score stored items items.length runId now (job.runBy score stored runId now) := by
  obtain ⟨k, hk, htells⟩ := runBy_tells hgap hwalk runId now
  -- fewer items than all would take someone who asked
  rcases Nat.lt_or_eq_of_le hk with hlt | rfl
  · have hasked := (htells score stored).asked hlt
    rw [hsignal] at hasked
    exact absurd hasked (not_asked_never _)
  · exact htells score stored

/-- So does the first run of a pipeline. -/
theorem run_tells_undisturbed (job : Job) (hsignal : job.signal = .never)
    (hgap : job.model.schemaGap? Feature.schema Feature.names = none)
    {items : List (Except UnitError Revision)}
    (hwalk : job.history.walk job.options.range job.options.order = .ok items) (runId : String)
    (now : Time.Instant) :
    Tells job job.sharing .empty items items.length runId now (job.run runId now) :=
  runBy_tells_undisturbed job hsignal hgap hwalk job.sharing .empty runId now

/-! ## Runs over the first items -/

theorem items_of_gap {gap : String}
    (hgap : job.model.schemaGap? Feature.schema Feature.names = some gap) : job.items = [] := by
  rw [items, hgap]

theorem items_of_no_walk {e : FatalError}
    (hwalk : job.history.walk job.options.range job.options.order = .error e) :
    job.items = [] := by
  rw [items, hwalk]
  split
  · rename_i heq
    cases heq
  · rfl

theorem items_of_walk (hgap : job.model.schemaGap? Feature.schema Feature.names = none)
    {items : List (Except UnitError Revision)}
    (hwalk : job.history.walk job.options.range job.options.order = .ok items) :
    job.items = items := by
  rw [Job.items, hgap, hwalk]

/-- What is told of items does not hang on the walk they come from. -/
theorem tellItems_upTo (k : Nat) :
    ∀ (items : List (Except UnitError Revision)) (index : Nat) (cache : ScoreCache),
      (job.upTo k).tellItems score index cache items = job.tellItems score index cache items := by
  intro items
  induction items with
  | nil => exact fun _ _ => rfl
  | cons item rest ih =>
    intro index cache
    rw [tellItems, tellItems, ih]
    rfl

theorem verdict_map (outcomes : List Outcome) (before after : Bool) (runId : String)
    (now : Time.Instant) :
    (job.verdict outcomes before runId now).map (fun report => { report with isPartial := after }) =
      job.verdict outcomes after runId now := by
  simp only [verdict]
  split <;> rfl

/-- The run over the first items tells of them all. -/
theorem run_upTo (k : Nat) {items : List (Except UnitError Revision)}
    (hgap : job.model.schemaGap? Feature.schema Feature.names = none)
    (hwalk : job.history.walk job.options.range job.options.order = .ok items)
    (stored : ScoreCache) (runId : String) (now : Time.Instant) :
    let told := job.tellItems job.sharing 0 stored (items.take k)
    ((job.upTo k).runOn stored runId now).1 = job.verdict told.1 false runId now ∧
      ((job.upTo k).runOn stored runId now).2.outcomes = told.1 ∧
      ((job.upTo k).runOn stored runId now).2.progress = (revisionsOf (items.take k)).zipIdx 1 := by
  have hgap' : (job.upTo k).model.schemaGap? Feature.schema Feature.names = none := hgap
  have hwalk' : (job.upTo k).history.walk (job.upTo k).options.range (job.upTo k).options.order =
      .ok (items.take k) := by
    rw [upTo]
    dsimp only
    rw [hwalk]
    rfl
  have htells := runBy_tells_undisturbed (job.upTo k) rfl hgap' hwalk' job.sharing stored runId
    now
  have hverdict := htells.verdict
  have houtcomes := htells.outcomes
  have hprogress := htells.progress
  rw [List.take_length, tellItems_upTo] at hverdict houtcomes
  rw [List.take_length] at hprogress
  rw [decide_eq_false (Nat.lt_irrefl _)] at hverdict
  exact ⟨hverdict, houtcomes, hprogress⟩

/-- **A run that is asked to end leaves a consistent prefix**: it comes to what
an undisturbed run over the first items comes to, and it tells of no others. Both
begin with the same scores stored. -/
theorem run_interrupted (job : Job) (stored : ScoreCache) (runId : String) (now : Time.Instant) :
    ∃ k, k ≤ job.items.length ∧
      (job.runOn stored runId now).1 = ((job.upTo k).runOn stored runId now).1.map
        (fun report => { report with isPartial := decide (k < job.items.length) }) ∧
      (job.runOn stored runId now).2.outcomes = ((job.upTo k).runOn stored runId now).2.outcomes ∧
      (job.runOn stored runId now).2.progress = ((job.upTo k).runOn stored runId now).2.progress ∧
      (∀ j < k, Begun job.signal (job.runOn stored runId now).2.moments j) ∧
      (k < job.items.length → Asked job.signal (job.runOn stored runId now).2.moments) := by
  rcases hgap : job.model.schemaGap? Feature.schema Feature.names with _ | gap
  · rcases hwalk : job.history.walk job.options.range job.options.order with e | items
    · -- neither run comes to a walk
      have hwalk' : (job.upTo 0).history.walk (job.upTo 0).options.range
          (job.upTo 0).options.order = .error e := by
        rw [upTo]
        dsimp only
        rw [hwalk]
        rfl
      have hgap' : (job.upTo 0).model.schemaGap? Feature.schema Feature.names = none := hgap
      refine ⟨0, Nat.zero_le _, ?_⟩
      rw [runOn, runOn, runBy_of_no_walk hgap hwalk, runBy_of_no_walk hgap' hwalk',
        items_of_no_walk hwalk]
      refine ⟨rfl, rfl, rfl, ?_, ?_⟩
      · exact fun j hj => absurd hj (Nat.not_lt_zero j)
      · exact fun h => absurd h (Nat.lt_irrefl 0)
    · -- both runs tell of the first `k` items
      rw [items_of_walk hgap hwalk]
      obtain ⟨k, hk, hall⟩ := runBy_tells hgap hwalk runId now
      have htells := hall job.sharing stored
      obtain ⟨hverdict, houtcomes, hprogress⟩ := run_upTo k hgap hwalk stored runId now
      refine ⟨k, hk, ?_, ?_, ?_, htells.begun, htells.asked⟩
      · rw [hverdict, verdict_map]
        exact htells.verdict
      · rw [houtcomes]
        exact htells.outcomes
      · rw [hprogress]
        exact htells.progress
  · -- neither run begins
    have hgap' : (job.upTo 0).model.schemaGap? Feature.schema Feature.names = some gap := hgap
    refine ⟨0, Nat.zero_le _, ?_⟩
    rw [runOn, runOn, runBy_of_gap hgap, runBy_of_gap hgap', items_of_gap hgap]
    refine ⟨rfl, rfl, rfl, ?_, ?_⟩
    · exact fun j hj => absurd hj (Nat.not_lt_zero j)
    · exact fun h => absurd h (Nat.lt_irrefl 0)

end Job

end Readability.Run
