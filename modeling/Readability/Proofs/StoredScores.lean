import Readability.Proofs.Interruption
import Readability.Proofs.Sharing

/-!
# Scores that runs of a pipeline share

A pipeline keeps its store from one run to the next. What a run stores are the scores of the units
it went through, those of the first unit of each key (`holds_runOn`); so after some calls the store
holds, for each key, the scores that the first call to rate a unit of that key gave it
(`get?_storedAfter`).

Main statement: `exists_rater`. A call is told what its own model gives only if no call before it
has rated the same key; else it is told what that call's model gave.
-/

namespace Readability.Run.Job

open Readability.History (Revision)
open Readability.Source (SourceUnit UnitError)

variable {job : Job} {stored : ScoreCache}

/-! ## One run -/

/-- **A run stores the scores of its units**, on top of what was stored before. -/
theorem holds_runOn (job : Job) (stored : ScoreCache) (runId : String) (now : Time.Instant) :
    job.Holds stored (job.scoredUnits runId now) (job.runOn stored runId now).2.cache := by
  rcases hgap : job.model.schemaGap? Feature.schema Feature.names with _ | gap
  · rcases hwalk : job.history.walk job.options.range job.options.order with e | items
    · rw [scoredUnits, run, runOn, runOn, runBy_of_no_walk hgap hwalk, runBy_of_no_walk hgap hwalk]
      exact job.holds_nil stored
    · obtain ⟨k, -, htells⟩ := runBy_tells hgap hwalk runId now
      rw [scoredUnits_eq (htells job.sharing .empty), runOn, (htells job.sharing stored).cache]
      have hholds := (tellItems_sharing (items.take k) 0 stored [] (job.holds_nil stored)).2
      rwa [List.nil_append] at hholds
  · rw [scoredUnits, run, runOn, runOn, runBy_of_gap hgap, runBy_of_gap hgap]
    exact job.holds_nil stored

/-- What a run tells, on top of what was stored before. -/
theorem outcomes_runOn (hgap : job.model.schemaGap? Feature.schema Feature.names = none)
    {items : List (Except UnitError Revision)}
    (hwalk : job.history.walk job.options.range job.options.order = .ok items)
    (stored : ScoreCache) (runId : String) (now : Time.Instant) :
    ∃ k, k ≤ items.length ∧ job.scoredUnits runId now = job.unitsIn (items.take k) ∧
      (job.runOn stored runId now).2.outcomes =
        job.account (job.sharedOn stored (job.unitsIn (items.take k))) 0 (items.take k) := by
  obtain ⟨k, hk, htells⟩ := runBy_tells hgap hwalk runId now
  refine ⟨k, hk, scoredUnits_eq (htells job.sharing .empty), ?_⟩
  have htold := (tellItems_sharing (items.take k) 0 stored [] (job.holds_nil stored)).1
  rw [List.nil_append] at htold
  rw [← htold]
  exact (htells job.sharing stored).outcomes

/-- A run that no one asks to end tells of all its units. -/
theorem runOn_undisturbed (hsignal : job.signal = .never)
    (hgap : job.model.schemaGap? Feature.schema Feature.names = none)
    {items : List (Except UnitError Revision)}
    (hwalk : job.history.walk job.options.range job.options.order = .ok items)
    (stored : ScoreCache) (runId : String) (now : Time.Instant) :
    (job.runOn stored runId now).1 = job.verdict
        (job.account (job.sharedOn stored (job.unitsIn items)) 0 items) false runId now ∧
      (job.runOn stored runId now).2.outcomes =
        job.account (job.sharedOn stored (job.unitsIn items)) 0 items := by
  have htells := runBy_tells_undisturbed job hsignal hgap hwalk job.sharing stored runId now
  have htold := (tellItems_sharing items 0 stored [] (job.holds_nil stored)).1
  rw [List.nil_append] at htold
  have hverdict := htells.verdict
  have houtcomes := htells.outcomes
  rw [List.take_length, htold] at hverdict houtcomes
  rw [decide_eq_false (Nat.lt_irrefl _)] at hverdict
  exact ⟨hverdict, houtcomes⟩

/-! ## Several runs -/

/-- The units that the run of a call goes through. -/
def ratedIn (job : Job) (call : Call) : List SourceUnit :=
  (job.called call).scoredUnits call.runId call.now

/-- The units that some calls go through, each with its call, in the order in which they are
scored. -/
def rated (job : Job) (calls : List Call) : List (Call × SourceUnit) :=
  calls.flatMap fun call => (job.ratedIn call).map (call, ·)

/-- The first unit of a key that some calls go through. -/
def firstRated? (job : Job) (calls : List Call) (key : ScoreKey) : Option (Call × SourceUnit) :=
  (job.rated calls).find? fun p => job.key p.2 == key

theorem firstRated?_concat (calls : List Call) (call : Call) (key : ScoreKey) :
    job.firstRated? (calls ++ [call]) key = (job.firstRated? calls key).or
      (((job.ratedIn call).find? fun u => job.key u == key).map (call, ·)) := by
  rw [firstRated?, rated, List.flatMap_append, List.flatMap_singleton, List.find?_append,
    List.find?_map]
  rfl

theorem firstRated?_cons (call : Call) (calls : List Call) (key : ScoreKey) :
    job.firstRated? (call :: calls) key =
      (((job.ratedIn call).find? fun u => job.key u == key).map (call, ·)).or
        (job.firstRated? calls key) := by
  rw [firstRated?, rated, List.flatMap_cons, List.find?_append, List.find?_map]
  rfl

theorem storedAfter_concat (job : Job) (calls : List Call) (call : Call) :
    job.storedAfter (calls ++ [call]) = (job.runAfter calls call).2.cache :=
  List.foldl_append

/-- **The store holds the scores of the first call to rate a key.** -/
theorem get?_storedAfter (job : Job) (calls : List Call) (key : ScoreKey) :
    (job.storedAfter calls).get? key =
      (job.firstRated? calls key).map fun p => (job.called p.1).scores p.2 := by
  induction calls using List.reverseRecOn with
  | nil => rfl
  | append_singleton calls call ih =>
    have hholds := (job.called call).holds_runOn (job.storedAfter calls) call.runId call.now key
    rw [storedAfter_concat, firstRated?_concat, Option.map_or, ← ih, Option.map_map]
    exact hholds

/-- What stands before the first unit of a key: calls that go through none of it. -/
theorem exists_split_of_firstRated? {calls : List Call} {key : ScoreKey} {p : Call × SourceUnit}
    (h : job.firstRated? calls key = some p) :
    ∃ before after, calls = before ++ p.1 :: after ∧ p.2 ∈ job.ratedIn p.1 ∧
      job.key p.2 = key ∧ ∀ other ∈ before, ∀ u ∈ job.ratedIn other, job.key u ≠ key := by
  induction calls with
  | nil => cases h
  | cons call calls ih =>
    rw [firstRated?_cons] at h
    rcases hfind : (job.ratedIn call).find? fun u => job.key u == key with _ | u <;>
      rw [hfind] at h
    · obtain ⟨before, after, rfl, hmem, hkey, hnone⟩ := ih h
      refine ⟨call :: before, after, rfl, hmem, hkey, List.forall_mem_cons.mpr ⟨?_, hnone⟩⟩
      intro u hu hsame
      exact List.find?_eq_none.mp hfind u hu (beq_iff_eq.mpr hsame)
    · cases h
      have hkey := List.find?_some hfind
      exact ⟨[], calls, rfl, List.mem_of_find?_eq_some hfind, beq_iff_eq.mp hkey,
        fun _ hnone => absurd hnone List.not_mem_nil⟩

/-- **A unit is told the scores of the first call that went through its key**, be it the call
itself or an earlier one. -/
theorem exists_rater (job : Job) (earlier : List Call) (call : Call) {u : SourceUnit}
    (hu : u ∈ job.ratedIn call) :
    ∃ p, job.firstRated? (earlier ++ [call]) (job.key u) = some p ∧
      (job.called call).sharedOn (job.storedAfter earlier) (job.ratedIn call) u =
        (job.called p.1).scores p.2 := by
  have hsome : (job.firstRated? (earlier ++ [call]) (job.key u)).isSome = true := by
    rw [firstRated?_concat, Option.isSome_or, Option.isSome_map, Bool.or_eq_true]
    exact .inr (List.find?_isSome.mpr ⟨u, hu, beq_self_eq_true _⟩)
  obtain ⟨p, hp⟩ := Option.isSome_iff_exists.mp hsome
  refine ⟨p, hp, ?_⟩
  have htold : (job.firstRated? (earlier ++ [call]) (job.key u)).map
      (fun p => (job.called p.1).scores p.2) = ((job.storedAfter earlier).get? (job.key u)).or
        (((job.ratedIn call).find? fun v => job.key v == job.key u).map
          (job.called call).scores) := by
    rw [firstRated?_concat, Option.map_or, ← get?_storedAfter, Option.map_map]
    rfl
  rw [hp] at htold
  rw [sharedOn_eq]
  show (((job.storedAfter earlier).get? (job.key u)).or
    (((job.ratedIn call).find? fun v => job.key v == job.key u).map
      (job.called call).scores)).getD _ = _
  rw [← htold]
  rfl

/-- A unit of no known language is refused by whatever is stored of it. -/
theorem exists_refusal_of_unknown (job : Job) (earlier : List Call) {call : Call} {u : SourceUnit}
    (hu : u ∈ job.ratedIn call) (hunknown : u.language? = none) :
    ∃ path, (job.called call).sharedOn (job.storedAfter earlier) (job.ratedIn call) u =
      .error (.parse ("unsupported language for " ++ path)) := by
  obtain ⟨⟨rater, v⟩, hfirst, htold⟩ := job.exists_rater earlier call hu
  obtain ⟨-, -, -, -, hkey, -⟩ := exists_split_of_firstRated? hfirst
  have hlanguage : v.language? = none := by
    have hsame : v.language? = u.language? := congrArg ScoreKey.language hkey
    rw [hsame, hunknown]
  exact ⟨v.id.path, htold.trans (scores_of_unknown hlanguage)⟩

end Readability.Run.Job
