import Readability.Proofs.Arrival
import Readability.Run.Pipeline

/-!
# What a run tells of a history

A run goes through the items that the walk yields. What it tells of an item
follows from the item and from the results stored before: `tellItem` says so
without any session, and `tellItems` strings it together.

A run may be asked to end at any moment. A session has heard so exactly when one
of its moments was the signal (`Heard`), and from one session on to a later one
moments are only added (`Follows`).

Main statement: `walkFrom_reaches`. However a run is asked to end, there is a
number of items of which it tells all that `tellItems` tells, and it tells of no
others; it ends before the walk does only if it was asked to, and each item it
tells of was begun before.
-/

namespace Readability.Run

open Readability.History (Revision)
open Readability.Report (Aggregator Failure Outcome)
open Readability.Source (SourceUnit UnitError UnitId)

/-! ## Telling of items -/

/-- The revisions among the items of a walk. -/
def revisionsOf (items : List (Except UnitError Revision)) : List Revision :=
  items.filterMap Except.toOption

theorem revisionsOf_map_ok (revisions : List Revision) :
    revisionsOf (revisions.map .ok) = revisions := by
  rw [revisionsOf, List.filterMap_map]
  exact List.filterMap_some

namespace Job

/-- The paths of a revision that are read. -/
def chosen (job : Job) (revision : Revision) : List String :=
  match job.seenPaths revision with
  | .error _ => []
  | .ok seen => seen.filter job.keeps

/-- What is read of a revision. -/
def readsOf (job : Job) (revision : Revision) : List (String × String) :=
  (job.chosen revision).map fun path => (revision.id, path)

/-- What reading a revision comes to. -/
def results (job : Job) (revision : Revision) : List (Except Failure SourceUnit) :=
  match job.seenPaths revision with
  | .error e => [.error ⟨.file "" revision.id, e⟩]
  | .ok seen => (seen.filter job.keeps).map (job.readUnit revision.id)

/-- What is told of an item, and the results stored after it. -/
def tellItem (job : Job) (score : Scorer) (index : Nat) (cache : ScoreCache) :
    Except UnitError Revision → List Outcome × ScoreCache
  | .error e => ([lossOf index e], cache)
  | .ok revision =>
    let scored := score revision.timestamp cache (unitsOf (job.results revision))
    (.revision index revision :: (failuresOf (job.results revision)).map .failed ++ scored.1,
      scored.2)

/-- What is told of some items, one after the other. -/
def tellItems (job : Job) (score : Scorer) (index : Nat) (cache : ScoreCache) :
    List (Except UnitError Revision) → List Outcome × ScoreCache
  | [] => ([], cache)
  | item :: rest =>
    let told := job.tellItem score index cache item
    let more := job.tellItems score (index + 1) told.2 rest
    (told.1 ++ more.1, more.2)

end Job

/-! ## Moments -/

/-- Someone asked for the end at one of some moments. -/
def Asked (signal : Signal) (moments : List Moment) : Prop :=
  ∃ n moment, moments[n]? = some moment ∧ signal n moment = true

/-- An item was yielded, and no one had asked for the end until then. -/
def Begun (signal : Signal) (moments : List Moment) (index : Nat) : Prop :=
  ∃ n, moments[n]? = some (.yielded index) ∧
    ∀ m, m ≤ n → ∀ moment, moments[m]? = some moment → signal m moment = false

theorem asked_append_singleton (signal : Signal) (moments : List Moment) (moment : Moment) :
    Asked signal (moments ++ [moment]) ↔
      Asked signal moments ∨ signal moments.length moment = true := by
  constructor
  · rintro ⟨n, m, hget, hsignal⟩
    -- one of the moments before, the one that is added, or none at all
    rcases Nat.lt_trichotomy n moments.length with hlt | heq | hgt
    · rw [List.getElem?_append_left hlt] at hget
      exact .inl ⟨n, m, hget, hsignal⟩
    · subst heq
      rw [List.getElem?_concat_length] at hget
      cases hget
      exact .inr hsignal
    · rw [List.getElem?_eq_none (by rw [List.length_append]; exact hgt)] at hget
      cases hget
  · rintro (⟨n, m, hget, hsignal⟩ | hsignal)
    · obtain ⟨hlt, -⟩ := List.getElem?_eq_some_iff.mp hget
      exact ⟨n, m, by rw [List.getElem?_append_left hlt]; exact hget, hsignal⟩
    · exact ⟨_, moment, List.getElem?_concat_length, hsignal⟩

theorem not_asked_never (moments : List Moment) : ¬ Asked .never moments := by
  rintro ⟨n, moment, -, hsignal⟩
  exact absurd hsignal (by simp [Signal.never])

/-- What was begun stays so while moments are added. -/
theorem Begun.of_isPrefix {signal : Signal} {before after : List Moment} {index : Nat}
    (h : Begun signal before index) (hadd : before <+: after) : Begun signal after index := by
  obtain ⟨added, rfl⟩ := hadd
  obtain ⟨n, hget, hquiet⟩ := h
  obtain ⟨hlt, -⟩ := List.getElem?_eq_some_iff.mp hget
  refine ⟨n, by rw [List.getElem?_append_left hlt]; exact hget, ?_⟩
  intro m hm moment hmoment
  rw [List.getElem?_append_left (by omega)] at hmoment
  exact hquiet m hm moment hmoment

namespace Session

variable {signal : Signal} {s t u : Session}

/-- The session knows whether someone asked for the end. -/
def Heard (signal : Signal) (s : Session) : Prop :=
  s.stopped = true ↔ Asked signal s.moments

/-- A session that comes after another one. -/
structure Follows (signal : Signal) (s t : Session) : Prop where
  moments : s.moments <+: t.moments
  heard : s.Heard signal → t.Heard signal

theorem follows_of_eq (hmoments : t.moments = s.moments) (hstopped : t.stopped = s.stopped) :
    Follows signal s t := by
  refine ⟨⟨[], (List.append_nil _).trans hmoments.symm⟩, ?_⟩
  intro h
  rw [Heard, hmoments, hstopped]
  exact h

theorem Follows.refl (signal : Signal) (s : Session) : Follows signal s s :=
  follows_of_eq rfl rfl

theorem Follows.trans (h₁ : Follows signal s t) (h₂ : Follows signal t u) : Follows signal s u :=
  ⟨h₁.moments.trans h₂.moments, fun h => h₂.heard (h₁.heard h)⟩

theorem pass_follows (signal : Signal) (moment : Moment) (s : Session) :
    Follows signal s (s.pass signal moment) := by
  refine ⟨List.prefix_append _ _, ?_⟩
  intro h
  rw [Heard] at h
  rw [Heard, pass, asked_append_singleton, Bool.or_eq_true, h]

theorem look_follows (paths : List String) (s : Session) :
    Follows signal s (s.look signal paths) := by
  induction paths generalizing s with
  | nil => exact .refl signal s
  | cons path paths ih => exact (pass_follows signal (.seen path) s).trans (ih _)

theorem noteRead_follows (revision path : String) (s : Session) :
    Follows signal s (s.noteRead signal revision path) := by
  have hnote : Follows signal s { s with reads := s.reads ++ [(revision, path)] } :=
    follows_of_eq rfl rfl
  exact hnote.trans (pass_follows signal (.read revision path) _)

theorem noteDone_follows (revision : Revision) (s : Session) :
    Follows signal s (s.noteDone signal revision) := by
  have hnote : Follows signal s
      { s with progress := s.progress ++ [(revision, s.progress.length + 1)] } :=
    follows_of_eq rfl rfl
  exact hnote.trans (pass_follows signal (.done (s.progress.length + 1)) _)

/-- An item that is yielded while no one has asked for the end is begun. -/
theorem begun_of_pass (h : s.Heard signal) {index : Nat}
    (hstopped : (s.pass signal (.yielded index)).stopped = false) :
    Begun signal (s.pass signal (.yielded index)).moments index := by
  -- had anyone asked up to here, the session would have heard
  have hheard := (pass_follows signal (.yielded index) s).heard h
  refine ⟨s.moments.length, List.getElem?_concat_length, ?_⟩
  intro m _ moment hmoment
  rw [← Bool.not_eq_true]
  intro hsignal
  rw [hheard.mpr ⟨m, moment, hmoment, hsignal⟩] at hstopped
  cases hstopped

/-- What a run has done, apart from what it has heard and the state it is in. -/
structure Work where
  cache : ScoreCache
  outcomes : List Outcome
  reads : List (String × String)
  progress : List (Revision × Nat)
  isPartial : Bool

/-- What the run has done so far. -/
def work (s : Session) : Work :=
  ⟨s.cache, s.outcomes, s.reads, s.progress, s.isPartial⟩

/-- Going on to a state changes nothing else. -/
theorem advance_eq (next : State) (s : Session) :
    ∃ states, s.advance next = { s with states := states } := by
  rw [advance]
  split
  · exact ⟨s.states, rfl⟩
  · exact ⟨next :: s.states, rfl⟩

@[simp] theorem look_work (signal : Signal) (paths : List String) (s : Session) :
    (s.look signal paths).work = s.work := by
  induction paths generalizing s with
  | nil => rfl
  | cons path paths ih => exact ih _

/-- The session without what it has told and stored. -/
def bare (s : Session) : Session :=
  { s with cache := .empty, outcomes := [] }

theorem advance_bare (next : State) (s : Session) :
    (s.advance next).bare = s.bare.advance next := by
  simp only [advance, apply_ite bare]
  rfl

theorem look_bare (paths : List String) (s : Session) :
    (s.look signal paths).bare = s.bare.look signal paths := by
  induction paths generalizing s with
  | nil => rfl
  | cons path paths ih => exact ih _

end Session

namespace Job

open Session

/-! ## Scores do not steer a run -/

theorem readPaths_bare (job : Job) (revision : String) :
    ∀ (paths : List String) (s : Session),
      ((job.readPaths revision s paths).1, (job.readPaths revision s paths).2.bare) =
        job.readPaths revision s.bare paths := by
  intro paths
  induction paths with
  | nil => exact fun _ => rfl
  | cons path rest ih =>
    intro s
    have hrest := ih (s.noteRead job.signal revision path)
    simp only [readPaths]
    by_cases hstopped : s.stopped = true
    · have hbare : s.bare.stopped = true := hstopped
      rw [if_pos hstopped, if_pos hbare]
    · have hbare : ¬ s.bare.stopped = true := hstopped
      rw [if_neg hstopped, if_neg hbare]
      have hnote : (s.noteRead job.signal revision path).bare =
          s.bare.noteRead job.signal revision path := rfl
      rw [← hnote, ← hrest]

theorem scoreRevision_bare (job : Job) (score score' : Scorer) (index : Nat) (revision : Revision)
    (results : List (Except Failure SourceUnit)) {s s' : Session} (h : s.bare = s'.bare) :
    (job.scoreRevision score index revision results s).bare =
      (job.scoreRevision score' index revision results s').bare := by
  have hscoring : (s.advance .scoring).bare = (s'.advance .scoring).bare := by
    rw [advance_bare, advance_bare, h]
  have hdone : ∀ t : Session, (t.noteDone job.signal revision).bare =
      t.bare.noteDone job.signal revision := fun _ => rfl
  simp only [scoreRevision]
  rw [hdone, hdone, advance_bare, advance_bare]
  exact congrArg (fun t => (t.advance .walking).noteDone job.signal revision) hscoring

theorem visit_bare (job : Job) (score score' : Scorer) (index : Nat) (revision : Revision)
    {s s' : Session} (h : s.bare = s'.bare) :
    (job.visit score index revision s).bare = (job.visit score' index revision s').bare := by
  rw [visit, visit]
  rcases job.seenPaths revision with e | seen
  · exact job.scoreRevision_bare score score' index revision _ h
  · have hread := job.readPaths_bare revision.id (seen.filter job.keeps) (s.look job.signal seen)
    have hread' := job.readPaths_bare revision.id (seen.filter job.keeps) (s'.look job.signal seen)
    rw [look_bare] at hread hread'
    rw [h, ← hread'] at hread
    dsimp only
    -- both readings come to the same results, and to sessions that are alike
    generalize job.readPaths revision.id (s.look job.signal seen) (seen.filter job.keeps) = r
      at hread ⊢
    generalize job.readPaths revision.id (s'.look job.signal seen) (seen.filter job.keeps) = r'
      at hread ⊢
    obtain ⟨found, t⟩ := r
    obtain ⟨found', t'⟩ := r'
    obtain ⟨rfl, hbare⟩ := Prod.mk.inj hread
    cases found with
    | none => exact congrArg (fun t => { t with isPartial := true }) hbare
    | some found => exact job.scoreRevision_bare score score' index revision found hbare

variable (job : Job) (score : Scorer)

/-! ## Reading a revision -/

theorem readPaths_follows (revision : String) :
    ∀ (paths : List String) (s : Session),
      Follows job.signal s (job.readPaths revision s paths).2 := by
  intro paths
  induction paths with
  | nil => exact fun s => .refl job.signal s
  | cons path rest ih =>
    intro s
    rw [readPaths]
    split
    · exact .refl job.signal s
    · exact (noteRead_follows revision path s).trans (ih _)

/-- When reading goes through, every path was read. -/
theorem readPaths_some (revision : String) :
    ∀ (paths : List String) (s : Session) (results : List (Except Failure SourceUnit)),
      (job.readPaths revision s paths).1 = some results →
        results = paths.map (job.readUnit revision) ∧
          (job.readPaths revision s paths).2.work =
            { s.work with reads := s.reads ++ paths.map fun path => (revision, path) } := by
  intro paths
  induction paths with
  | nil =>
    intro s results h
    cases h
    exact ⟨rfl, by simp [readPaths, Session.work]⟩
  | cons path rest ih =>
    intro s results h
    rw [readPaths] at h ⊢
    split at h
    · cases h
    · rename_i hrun
      obtain ⟨more, hmore, rfl⟩ := Option.map_eq_some_iff.mp h
      obtain ⟨hresults, hwork⟩ := ih _ more hmore
      rw [if_neg hrun]
      refine ⟨by rw [List.map_cons, hresults], ?_⟩
      rw [hwork]
      simp [Session.work, Session.noteRead, Session.pass]

/-- When it does not, someone had asked for the end, and nothing but reads was
noted. -/
theorem readPaths_none (revision : String) :
    ∀ (paths : List String) (s : Session), (job.readPaths revision s paths).1 = none →
      (job.readPaths revision s paths).2.stopped = true ∧
        ∃ reads, (job.readPaths revision s paths).2.work = { s.work with reads := reads } := by
  intro paths
  induction paths with
  | nil =>
    intro s h
    cases h
  | cons path rest ih =>
    intro s h
    rw [readPaths] at h ⊢
    split at h
    · rename_i hstopped
      rw [if_pos hstopped]
      exact ⟨hstopped, s.reads, rfl⟩
    · rename_i hrun
      rw [if_neg hrun]
      obtain ⟨hstopped, reads, hwork⟩ := ih _ (Option.map_eq_none_iff.mp h)
      exact ⟨hstopped, reads, hwork⟩

/-! ## One item -/

/-- From one session to the next, an item was told of in full. -/
structure Told (job : Job) (score : Scorer) (index : Nat) (item : Except UnitError Revision)
    (s t : Session) : Prop where
  outcomes : t.outcomes = s.outcomes ++ (job.tellItem score index s.cache item).1
  cache : t.cache = (job.tellItem score index s.cache item).2
  progress : t.progress = s.progress ++ (revisionsOf [item]).zipIdx (s.progress.length + 1)
  reads : t.reads = s.reads ++ (revisionsOf [item]).flatMap job.readsOf
  isPartial : t.isPartial = s.isPartial

/-- From one session to the next, nothing was told, because someone asked for
the end. -/
structure Abandoned (s t : Session) : Prop where
  outcomes : t.outcomes = s.outcomes
  cache : t.cache = s.cache
  progress : t.progress = s.progress
  isPartial : t.isPartial = true
  stopped : t.stopped = true

theorem scoreRevision_follows (index : Nat) (revision : Revision)
    (results : List (Except Failure SourceUnit)) (s : Session) :
    Follows job.signal s (job.scoreRevision score index revision results s) := by
  rw [scoreRevision]
  obtain ⟨scoring, hscoring⟩ := advance_eq .scoring s
  rw [hscoring]
  refine Follows.trans ?_ (noteDone_follows revision _)
  obtain ⟨walking, hwalking⟩ := advance_eq .walking _
  rw [hwalking]
  exact follows_of_eq rfl rfl

/-- Scoring what was read of a revision tells of it in full. -/
theorem scoreRevision_told (index : Nat) (revision : Revision) {s s' : Session}
    (hwork : s'.work = { s.work with reads := s.reads ++ job.readsOf revision }) :
    Told job score index (.ok revision) s
      (job.scoreRevision score index revision (job.results revision) s') := by
  have hcache : s'.cache = s.cache := congrArg Work.cache hwork
  have houtcomes : s'.outcomes = s.outcomes := congrArg Work.outcomes hwork
  have hreads : s'.reads = s.reads ++ job.readsOf revision := congrArg Work.reads hwork
  have hprogress : s'.progress = s.progress := congrArg Work.progress hwork
  have hpartial : s'.isPartial = s.isPartial := congrArg Work.isPartial hwork
  rw [scoreRevision]
  -- the session differs by its states alone on either side of `advance`
  obtain ⟨scoring, hscoring⟩ := advance_eq .scoring s'
  rw [hscoring]
  rcases hscore : score revision.timestamp s.cache (unitsOf (job.results revision)) with
    ⟨outcomes, cache⟩
  simp only [Session.tell, hcache, hscore]
  obtain ⟨walking, hwalking⟩ := advance_eq .walking _
  rw [hwalking]
  refine ⟨?_, ?_, ?_, ?_, ?_⟩
  · simp [Session.noteDone, Session.pass, tellItem, hscore, houtcomes]
  · simp [Session.noteDone, Session.pass, tellItem, hscore]
  · simp [Session.noteDone, Session.pass, revisionsOf, Except.toOption, hprogress]
  · simp [Session.noteDone, Session.pass, revisionsOf, Except.toOption, hreads]
  · simp [Session.noteDone, Session.pass, hpartial]

theorem visit_follows (index : Nat) (revision : Revision) (s : Session) :
    Follows job.signal s (job.visit score index revision s) := by
  rw [visit]
  split
  · exact scoreRevision_follows job score index revision _ s
  · rename_i seen hseen
    have hread := (look_follows seen s).trans
      (readPaths_follows job revision.id (seen.filter job.keeps) (s.look job.signal seen))
    split
    · rename_i t hnone
      rw [hnone] at hread
      exact hread.trans (follows_of_eq rfl rfl)
    · rename_i results t hsome
      rw [hsome] at hread
      exact hread.trans (scoreRevision_follows job score index revision results t)

/-- A revision is told of in full or not at all. -/
theorem visit_told_or_abandoned (index : Nat) (revision : Revision) (s : Session) :
    Told job score index (.ok revision) s (job.visit score index revision s) ∨
      Abandoned s (job.visit score index revision s) := by
  rw [visit]
  rcases hseen : job.seenPaths revision with e | seen
  · -- there is nothing to read where paths cannot be listed
    left
    have hresults : job.results revision = [.error ⟨.file "" revision.id, e⟩] := by
      rw [results, hseen]
    have hreads : job.readsOf revision = [] := by
      rw [readsOf, chosen, hseen]
      rfl
    have hwork : s.work = { s.work with reads := s.reads ++ job.readsOf revision } := by
      rw [hreads, List.append_nil]
      rfl
    have htold := scoreRevision_told job score index revision hwork
    rwa [hresults] at htold
  · have hlook := look_work job.signal seen s
    have hlookreads : (s.look job.signal seen).reads = s.reads := congrArg Work.reads hlook
    have hsome := readPaths_some job revision.id (seen.filter job.keeps)
      (s.look job.signal seen)
    have hnone := readPaths_none job revision.id (seen.filter job.keeps)
      (s.look job.signal seen)
    rw [hlook, hlookreads] at hsome
    rw [hlook] at hnone
    dsimp only
    rcases hread : job.readPaths revision.id (s.look job.signal seen) (seen.filter job.keeps)
      with ⟨_ | found, t⟩ <;> rw [hread] at hsome hnone
    · -- what was read up to the signal is forgotten
      right
      obtain ⟨hstopped, reads, hwork⟩ := hnone rfl
      exact ⟨congrArg Work.outcomes hwork, congrArg Work.cache hwork,
        congrArg Work.progress hwork, rfl, hstopped⟩
    · left
      obtain ⟨hfound, hwork⟩ := hsome found rfl
      have hresults : found = job.results revision := by
        rw [results, hseen]
        exact hfound
      have hreads : job.readsOf revision =
          (seen.filter job.keeps).map fun path => (revision.id, path) := by
        rw [readsOf, chosen, hseen]
      rw [← hreads] at hwork
      subst hresults
      exact scoreRevision_told job score index revision hwork

/-! ## The whole walk -/

/-- From one session to a later one, the first `k` items were told of in full,
and no others. -/
structure Reaches (job : Job) (score : Scorer) (index : Nat)
    (items : List (Except UnitError Revision)) (k : Nat) (s t : Session) : Prop where
  outcomes : t.outcomes = s.outcomes ++ (job.tellItems score index s.cache (items.take k)).1
  cache : t.cache = (job.tellItems score index s.cache (items.take k)).2
  progress : t.progress =
    s.progress ++ (revisionsOf (items.take k)).zipIdx (s.progress.length + 1)
  /-- Of the revision that was abandoned some paths may have been read. -/
  reads : k = items.length → t.reads = s.reads ++ (revisionsOf items).flatMap job.readsOf
  isPartial : t.isPartial = decide (k < items.length)
  /-- The run ends before the walk only if someone asked for it. -/
  stopped : k < items.length → t.stopped = true
  follows : Follows job.signal s t
  /-- No one had, when an item was begun. -/
  begun : ∀ j < k, Begun job.signal t.moments (index + j)

variable {job score}

theorem Reaches.zero {index : Nat} {item : Except UnitError Revision}
    {rest : List (Except UnitError Revision)} {s t : Session} (habandoned : Abandoned s t)
    (hfollows : Follows job.signal s t) : Reaches job score index (item :: rest) 0 s t := by
  refine ⟨?_, ?_, ?_, ?_, ?_, ?_, hfollows, ?_⟩
  · rw [habandoned.outcomes, List.take_zero, tellItems, List.append_nil]
  · rw [habandoned.cache, List.take_zero, tellItems]
  · rw [habandoned.progress, List.take_zero]
    simp [revisionsOf]
  · intro h
    cases h
  · rw [habandoned.isPartial]
    simp
  · exact fun _ => habandoned.stopped
  · intro j hj
    cases hj

theorem Reaches.cons {index k : Nat} {item : Except UnitError Revision}
    {rest : List (Except UnitError Revision)} {s u t : Session}
    (htold : Told job score index item s u) (hfollows : Follows job.signal s u)
    (hbegun : Begun job.signal u.moments index)
    (hrest : Reaches job score (index + 1) rest k u t) :
    Reaches job score index (item :: rest) (k + 1) s t := by
  have hsplit : ∀ l, revisionsOf (item :: l) = revisionsOf [item] ++ revisionsOf l := fun l =>
    List.filterMap_append (l := [item])
  refine ⟨?_, ?_, ?_, ?_, ?_, ?_, hfollows.trans hrest.follows, ?_⟩
  · rw [hrest.outcomes, htold.outcomes, htold.cache, List.append_assoc]
    rfl
  · rw [hrest.cache, htold.cache]
    rfl
  · rw [hrest.progress, htold.progress, List.take_succ_cons, hsplit (rest.take k),
      List.zipIdx_append, List.append_assoc, List.length_append, List.length_zipIdx,
      Nat.add_right_comm]
  · intro h
    rw [hrest.reads (Nat.succ.inj h), htold.reads, hsplit rest, List.flatMap_append,
      List.append_assoc]
  · rw [hrest.isPartial, List.length_cons, decide_eq_decide]
    omega
  · intro h
    exact hrest.stopped (Nat.lt_of_succ_lt_succ h)
  · intro j hj
    cases j with
    | zero =>
      -- begun at the first moment of the item, and so ever after
      exact hbegun.of_isPrefix hrest.follows.moments
    | succ j =>
      have hj' := hrest.begun j (Nat.lt_of_succ_lt_succ hj)
      rwa [Nat.add_assoc, Nat.add_comm 1 j] at hj'

/-- It is too late for an item that is yielded after someone asked for the
end. -/
theorem reaches_of_stopped {index : Nat} {item : Except UnitError Revision}
    {rest : List (Except UnitError Revision)} {s : Session}
    (h : (s.pass job.signal (.yielded index)).stopped = true) :
    Reaches job score index (item :: rest) 0 s (job.walkFrom score index s (item :: rest)) := by
  simp only [walkFrom]
  rw [if_pos h]
  exact .zero ⟨rfl, rfl, rfl, rfl, h⟩
    ((pass_follows job.signal (.yielded index) s).trans (follows_of_eq rfl rfl))

/-- The session after an item that failed to load. -/
def afterLoss (job : Job) (index : Nat) (e : UnitError) (s : Session) : Session :=
  (s.pass job.signal (.yielded index)).tell [lossOf index e]

theorem afterLoss_follows (index : Nat) (e : UnitError) (s : Session) :
    Follows job.signal s (job.afterLoss index e s) :=
  (pass_follows job.signal (.yielded index) s).trans (follows_of_eq rfl rfl)

theorem reaches_of_loss {index k : Nat} {e : UnitError}
    {rest : List (Except UnitError Revision)} {s : Session} (hheard : s.Heard job.signal)
    (h : ¬ (s.pass job.signal (.yielded index)).stopped = true)
    (hrest : Reaches job score (index + 1) rest k (job.afterLoss index e s)
      (job.walkFrom score (index + 1) (job.afterLoss index e s) rest)) :
    Reaches job score index (.error e :: rest) (k + 1) s
      (job.walkFrom score index s (.error e :: rest)) := by
  simp only [walkFrom]
  rw [if_neg h]
  have htold : Told job score index (.error e) s (job.afterLoss index e s) := by
    refine ⟨rfl, rfl, ?_, ?_, rfl⟩
    · simp [afterLoss, revisionsOf, Except.toOption, Session.tell, Session.pass]
    · simp [afterLoss, revisionsOf, Except.toOption, Session.tell, Session.pass]
  have hbegun : Begun job.signal (job.afterLoss index e s).moments index :=
    begun_of_pass hheard (eq_false_of_ne_true h)
  exact .cons htold (afterLoss_follows index e s) hbegun hrest

/-- The session after a revision, or in the middle of one that was abandoned. -/
def afterVisit (job : Job) (score : Scorer) (index : Nat) (revision : Revision) (s : Session) :
    Session :=
  job.visit score index revision (s.pass job.signal (.yielded index))

theorem afterVisit_follows (index : Nat) (revision : Revision) (s : Session) :
    Follows job.signal s (job.afterVisit score index revision s) :=
  (pass_follows job.signal (.yielded index) s).trans (visit_follows job score index revision _)

theorem reaches_of_visit {index k : Nat} {revision : Revision}
    {rest : List (Except UnitError Revision)} {s : Session} (hpartial : s.isPartial = false)
    (hheard : s.Heard job.signal) (h : ¬ (s.pass job.signal (.yielded index)).stopped = true)
    (hrest : (job.afterVisit score index revision s).isPartial = false →
      Reaches job score (index + 1) rest k (job.afterVisit score index revision s)
        (job.walkFrom score (index + 1) (job.afterVisit score index revision s) rest)) :
    Reaches job score index (.ok revision :: rest)
      (if (job.afterVisit score index revision s).isPartial then 0 else k + 1) s
      (job.walkFrom score index s (.ok revision :: rest)) := by
  have hfollows : Follows job.signal s (job.afterVisit score index revision s) :=
    afterVisit_follows index revision s
  simp only [walkFrom]
  rw [if_neg h]
  rcases visit_told_or_abandoned job score index revision
    (s.pass job.signal (.yielded index)) with htold | habandoned
  · have hon : (job.afterVisit score index revision s).isPartial = false :=
      htold.isPartial.trans hpartial
    have htold' : Told job score index (.ok revision) s (job.afterVisit score index revision s) :=
      ⟨htold.outcomes, htold.cache, htold.progress, htold.reads, htold.isPartial⟩
    have hbegun : Begun job.signal (job.afterVisit score index revision s).moments index :=
      (begun_of_pass hheard (eq_false_of_ne_true h)).of_isPrefix
        (visit_follows job score index revision _).moments
    rw [hon, if_neg Bool.false_ne_true]
    rw [afterVisit] at hon
    rw [if_neg (by rw [hon]; exact Bool.false_ne_true)]
    exact .cons htold' hfollows hbegun (hrest hon)
  · have hoff : (job.afterVisit score index revision s).isPartial = true := habandoned.isPartial
    rw [hoff, if_pos rfl]
    rw [if_pos habandoned.isPartial]
    exact .zero ⟨habandoned.outcomes, habandoned.cache, habandoned.progress,
      habandoned.isPartial, habandoned.stopped⟩ hfollows

/-- **A run tells of the first items of the walk, and of no others.** How many
these are does not depend on the scores. -/
theorem walkFrom_reaches (job : Job) :
    ∀ (items : List (Except UnitError Revision)) (index : Nat) (b : Session),
      ∃ k, k ≤ items.length ∧ ∀ (score : Scorer) (s : Session), s.bare = b →
        s.isPartial = false → s.Heard job.signal →
          Reaches job score index items k s (job.walkFrom score index s items) := by
  intro items
  -- the number of items is found for the bare session, before any scorer is named
  induction items with
  | nil =>
    intro index b
    refine ⟨0, Nat.le_refl 0, ?_⟩
    intro score s _ hpartial _
    refine ⟨?_, ?_, ?_, ?_, ?_, ?_, .refl job.signal s, ?_⟩ <;>
      simp [walkFrom, tellItems, revisionsOf, hpartial]
  | cons item rest ih =>
    intro index b
    by_cases hstopped : (b.pass job.signal (.yielded index)).stopped = true
    · refine ⟨0, Nat.zero_le _, ?_⟩
      rintro score s rfl _ _
      exact reaches_of_stopped hstopped
    · cases item with
      | error e =>
        obtain ⟨k, hk, hrest⟩ := ih (index + 1) (b.pass job.signal (.yielded index))
        refine ⟨k + 1, Nat.succ_le_succ hk, ?_⟩
        rintro score s rfl hpartial hheard
        exact reaches_of_loss hheard hstopped
          (hrest score _ rfl hpartial ((afterLoss_follows index e s).heard hheard))
      | ok revision =>
        -- whether the visit goes through can be seen without scores
        obtain ⟨k, hk, hrest⟩ := ih (index + 1) (job.afterVisit job.afresh index revision b).bare
        refine ⟨if (job.afterVisit job.afresh index revision b).isPartial then 0 else k + 1, ?_, ?_⟩
        · split
          · exact Nat.zero_le _
          · exact Nat.succ_le_succ hk
        rintro score s rfl hpartial hheard
        have hbare : (job.afterVisit score index revision s).bare =
            (job.afterVisit job.afresh index revision s.bare).bare :=
          job.visit_bare score job.afresh index revision rfl
        have hsame : (job.afterVisit job.afresh index revision s.bare).isPartial =
            (job.afterVisit score index revision s).isPartial := by
          have hpartial' := congrArg Session.isPartial hbare
          exact hpartial'.symm
        rw [hsame]
        refine reaches_of_visit hpartial hheard hstopped ?_
        intro hon
        exact hrest score _ hbare hon ((afterVisit_follows index revision s).heard hheard)

/-! ## The whole run -/

/-- The session in which the walk begins. -/
def begin (job : Job) (stored : ScoreCache) : Session :=
  (Session.start job.signal stored).advance .walking

/-- The session in which the walk ends. -/
def walked (job : Job) (score : Scorer) (stored : ScoreCache)
    (items : List (Except UnitError Revision)) : Session :=
  job.walkFrom score 0 (job.begin stored) items

@[simp] theorem begin_outcomes (job : Job) (stored : ScoreCache) :
    (job.begin stored).outcomes = [] := rfl

@[simp] theorem begin_cache (job : Job) (stored : ScoreCache) :
    (job.begin stored).cache = stored := rfl

@[simp] theorem begin_isPartial (job : Job) (stored : ScoreCache) :
    (job.begin stored).isPartial = false := rfl

theorem begin_bare (job : Job) (stored : ScoreCache) :
    (job.begin stored).bare = (job.begin .empty).bare := rfl

theorem begin_heard (job : Job) (stored : ScoreCache) :
    (job.begin stored).Heard job.signal := by
  obtain ⟨states, hadvance⟩ := advance_eq .walking (Session.start job.signal stored)
  have hblank : Heard job.signal ⟨[.init], [], false, false, stored, [], [], []⟩ := by
    constructor
    · exact fun h => absurd h Bool.false_ne_true
    · rintro ⟨n, moment, hget, -⟩
      rw [List.getElem?_nil] at hget
      cases hget
  have hstart := (pass_follows job.signal .start _).heard hblank
  rw [begin, hadvance]
  exact hstart

/-- However a run is asked to end, it tells of the first items of the walk, as
many with one way to score as with another, and whatever is stored before. -/
theorem walked_reaches (job : Job) (items : List (Except UnitError Revision)) :
    ∃ k, k ≤ items.length ∧ ∀ score stored,
      Reaches job score 0 items k (job.begin stored) (job.walked score stored items) := by
  obtain ⟨k, hk, hreaches⟩ := walkFrom_reaches job items 0 (job.begin .empty).bare
  exact ⟨k, hk, fun score stored => hreaches score (job.begin stored) (job.begin_bare stored)
    (job.begin_isPartial stored) (job.begin_heard stored)⟩

/-- What some outcomes come to: a report, or a failure when the model took no
unit. -/
def verdict (job : Job) (outcomes : List Outcome) (isPartial : Bool) (runId : String)
    (now : Time.Instant) : Except RunFailure Report :=
  let aggregator := Aggregator.collect job.options.order outcomes
  if aggregator.allMismatched then
    .error ⟨.aggregating,
      .modelLoad job.model.source "every unit was rejected with a feature mismatch"⟩
  else
    .ok (aggregator.finish
      ⟨job.history.location, job.options.range.text, job.model.info, isPartial⟩ runId now)

/-- The end of a run hangs on what was told, and on whether all was. -/
theorem conclude_eq (job : Job) (s : Session) (runId : String) (now : Time.Instant) :
    ∃ states, job.conclude s runId now =
      (job.verdict s.outcomes s.isPartial runId now, { s with states := states }) := by
  obtain ⟨aggregating, haggregating⟩ := advance_eq .aggregating s
  rw [conclude, verdict, aggregate, haggregating]
  dsimp only
  split
  · obtain ⟨failed, hfailed⟩ := advance_eq .failed { s with states := aggregating }
    exact ⟨failed, by rw [hfailed]⟩
  · exact ⟨aggregating, rfl⟩

variable {job : Job} {score : Scorer} {stored : ScoreCache} {runId : String} {now : Time.Instant}

theorem runBy_of_gap {gap : String}
    (hgap : job.model.schemaGap? Feature.schema Feature.names = some gap) :
    job.runBy score stored runId now = (.error ⟨.init, .modelLoad job.model.source gap⟩,
      (Session.start job.signal stored).advance .failed) := by
  rw [runBy, hgap]

theorem runBy_of_no_walk (hgap : job.model.schemaGap? Feature.schema Feature.names = none)
    {e : FatalError} (hwalk : job.history.walk job.options.range job.options.order = .error e) :
    job.runBy score stored runId now =
      (.error ⟨.walking, e⟩, (job.begin stored).advance .failed) := by
  rw [runBy, hgap]
  dsimp only
  rw [execute, hwalk]
  rfl

theorem runBy_of_walk (hgap : job.model.schemaGap? Feature.schema Feature.names = none)
    {items : List (Except UnitError Revision)}
    (hwalk : job.history.walk job.options.range job.options.order = .ok items) :
    job.runBy score stored runId now = job.conclude (job.walked score stored items) runId now := by
  rw [runBy, hgap]
  dsimp only
  rw [execute, hwalk]
  rfl

/-- A run that told of the first `k` items of its walk. -/
structure Tells (job : Job) (score : Scorer) (stored : ScoreCache)
    (items : List (Except UnitError Revision)) (k : Nat) (runId : String) (now : Time.Instant)
    (run : Except RunFailure Report × Session) : Prop where
  verdict : run.1 = job.verdict (job.tellItems score 0 stored (items.take k)).1
    (decide (k < items.length)) runId now
  outcomes : run.2.outcomes = (job.tellItems score 0 stored (items.take k)).1
  cache : run.2.cache = (job.tellItems score 0 stored (items.take k)).2
  progress : run.2.progress = (revisionsOf (items.take k)).zipIdx 1
  reads : k = items.length → run.2.reads = (revisionsOf items).flatMap job.readsOf
  /-- The run ended before the walk only if someone asked for it. -/
  asked : k < items.length → Asked job.signal run.2.moments
  begun : ∀ j < k, Begun job.signal run.2.moments j

/-- **A run tells of the first items of its walk**, as many with one way to score
as with another, and whatever is stored before. -/
theorem runBy_tells (hgap : job.model.schemaGap? Feature.schema Feature.names = none)
    {items : List (Except UnitError Revision)}
    (hwalk : job.history.walk job.options.range job.options.order = .ok items) (runId : String)
    (now : Time.Instant) :
    ∃ k, k ≤ items.length ∧ ∀ score stored, Tells job score stored items k runId now
      (job.runBy score stored runId now) := by
  obtain ⟨k, hk, hreaches⟩ := job.walked_reaches items
  refine ⟨k, hk, ?_⟩
  intro score stored
  have h := hreaches score stored
  have houtcomes := h.outcomes
  rw [begin_outcomes, begin_cache, List.nil_append] at houtcomes
  obtain ⟨states, hconclude⟩ := job.conclude_eq (job.walked score stored items) runId now
  rw [runBy_of_walk hgap hwalk, hconclude]
  refine ⟨?_, houtcomes, h.cache, ?_, ?_, ?_, ?_⟩
  · dsimp only
    rw [houtcomes, h.isPartial]
  · exact h.progress
  · exact h.reads
  · intro hlt
    exact (h.follows.heard (job.begin_heard stored)).mp (h.stopped hlt)
  · intro j hj
    have hbegun := h.begun j hj
    rwa [Nat.zero_add] at hbegun

/-- Only a run whose model fits, and that has a walk, comes to a report. -/
theorem walk_of_report {report : Report} (h : (job.runBy score stored runId now).1 = .ok report) :
    job.model.schemaGap? Feature.schema Feature.names = none ∧
      ∃ items, job.history.walk job.options.range job.options.order = .ok items := by
  rcases hgap : job.model.schemaGap? Feature.schema Feature.names with _ | gap
  · rcases hwalk : job.history.walk job.options.range job.options.order with e | items
    · rw [runBy_of_no_walk hgap hwalk] at h
      cases h
    · exact ⟨rfl, items, rfl⟩
  · rw [runBy_of_gap hgap] at h
    cases h

/-- A report is made of what was told. -/
theorem report_eq_finish {report : Report} (h : (job.runBy score stored runId now).1 = .ok report) :
    ∃ about, report = (Aggregator.collect job.options.order
      (job.runBy score stored runId now).2.outcomes).finish about runId now := by
  obtain ⟨hgap, items, hwalk⟩ := walk_of_report h
  obtain ⟨states, hconclude⟩ := job.conclude_eq (job.walked score stored items) runId now
  rw [runBy_of_walk hgap hwalk, hconclude] at h ⊢
  simp only [verdict] at h
  split at h
  · cases h
  · injection h with hreport
    exact ⟨_, hreport.symm⟩

/-- The records of a report are those that were told. -/
theorem records_perm {report : Report} (h : (job.runBy score stored runId now).1 = .ok report) :
    report.records.Perm
      ((job.runBy score stored runId now).2.outcomes.filterMap Outcome.record?) := by
  obtain ⟨about, hreport⟩ := report_eq_finish h
  rw [hreport]
  exact Aggregator.records_finish_perm _ _ about runId now

/-- The failures of a report are those that were told. -/
theorem failures_perm {report : Report} (h : (job.runBy score stored runId now).1 = .ok report) :
    report.failures.Perm
      ((job.runBy score stored runId now).2.outcomes.filterMap Outcome.failure?) := by
  obtain ⟨about, hreport⟩ := report_eq_finish h
  rw [hreport]
  exact Aggregator.failures_finish_perm _ _ about runId now

/-- A report whose failures all blame the model has a record, if it has a failure. -/
theorem records_ne_nil_of_report {report : Report}
    (h : (job.runBy score stored runId now).1 = .ok report) (hfailed : report.failures ≠ [])
    (hblamed : ∀ f ∈ report.failures, f.error.isMismatch = true) : report.records ≠ [] := by
  intro hnone
  have hrecords := records_perm h
  have hfailures := failures_perm h
  rw [hnone, List.nil_perm] at hrecords
  have hall : (Aggregator.collect job.options.order
      (job.runBy score stored runId now).2.outcomes).allMismatched = true := by
    rw [Aggregator.allMismatched, Aggregator.collect_records, Aggregator.collect_failures, hrecords,
      ← hfailures.isEmpty_eq, ← hfailures.all_eq, List.isEmpty_eq_false_iff.mpr hfailed]
    exact List.all_eq_true.mpr hblamed
  obtain ⟨hgap, items, hwalk⟩ := walk_of_report h
  obtain ⟨states, hconclude⟩ := job.conclude_eq (job.walked score stored items) runId now
  rw [runBy_of_walk hgap hwalk, hconclude] at h hall
  rw [verdict] at h
  dsimp only at h hall
  rw [hall, if_pos rfl] at h
  cases h

end Job

end Readability.Run
