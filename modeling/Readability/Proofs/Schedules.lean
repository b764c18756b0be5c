import Readability.Proofs.Accounting

/-!
# Workers that share the units of a revision

The units of a revision are scored by a pool of workers. Each unit asks the store
once, the steps of these calls may be mixed in any way, and so may be what is
told of the units (`Job.Pooled`). Going from left to right, as `scoreUnits` does,
is one way of it (`pooled_sharing`).

Whatever the workers do, a store in which each key has the scores of its units
stays one (`Sound.moves`, one step, and `Sound.foldl`, all of them), if units of
one key score alike. So each unit is told its own scores, and a run tells the
same outcomes in blocks that are mixed within themselves (`Mixed`). That is one
of the rearrangements that no report shows:

> `run_of_any_schedule`: when contents have digests of their own, and contents of
> no known language one path, all schedules come to one report.
-/

namespace Readability.Run.Cache.Session

variable {κ α : Type} [DecidableEq κ]

/-- Calls for some keys, none of which has taken a step, on what is stored. -/
def resume (stored : Cache κ α) (asked : List (κ × α)) : Session κ α :=
  { start asked with cache := stored }

/-- What is stored, and what was returned, fits its key. -/
structure Sound (fits : κ → α → Prop) (asked : List (κ × α)) (s : Session κ α) : Prop where
  calls : s.calls.map (fun call => (call.key, call.computes)) = asked
  stored : ∀ key value, s.cache.get? key = some value → fits key value
  returned : ∀ call ∈ s.calls, ∀ value, call.progress = .returned value → fits call.key value

variable {fits : κ → α → Prop} {asked : List (κ × α)} {s t : Session κ α} {i : Nat}

theorem sound_resume {stored : Cache κ α}
    (hstored : ∀ key value, stored.get? key = some value → fits key value) :
    Sound fits asked (resume stored asked) where
  calls := (coherent_start asked).calls
  stored := hstored
  returned := by
    intro call hcall value hreturned
    obtain ⟨a, -, rfl⟩ := List.mem_map.mp hcall
    cases hreturned

theorem Sound.returned_set (h : Sound fits asked s) {call : Call κ α}
    (hcall : ∀ value, call.progress = .returned value → fits call.key value) :
    ∀ other ∈ s.calls.set i call, ∀ value, other.progress = .returned value →
      fits other.key value := by
  intro other hother value hvalue
  rcases List.mem_or_eq_of_mem_set hother with hold | rfl
  · exact h.returned other hold value hvalue
  · exact hcall value hvalue

/-- **A step stores and returns what fits**, if all that is computed fits. -/
theorem Sound.moves (hasked : ∀ a ∈ asked, fits a.1 a.2) (h : Sound fits asked s)
    (hmoves : Moves s i t) : Sound fits asked t := by
  cases hmoves with
  | idle => exact h
  | @found call value hcall hwaiting hget =>
    refine ⟨(map_set_call hcall _).trans h.calls, h.stored, h.returned_set ?_⟩
    intro result hresult
    cases hresult
    exact h.stored _ _ hget
  | @missed call hcall hwaiting hget =>
    refine ⟨(map_set_call hcall _).trans h.calls, h.stored, h.returned_set ?_⟩
    exact fun _ hresult => nomatch hresult
  | @offered call hcall hmissed =>
    have hcomputes : fits call.key call.computes := by
      refine hasked (call.key, call.computes) ?_
      rw [← h.calls]
      exact List.mem_map_of_mem (List.mem_of_getElem? hcall)
    have hstored : ∀ key value,
        (s.cache.insertIfAbsent call.key call.computes).2.get? key = some value →
          fits key value := by
      intro key value hget
      rw [get?_insertIfAbsent, Option.or_eq_some_iff] at hget
      rcases hget with hold | ⟨-, hnew⟩
      · exact h.stored key value hold
      · split_ifs at hnew with hkey
        cases hnew
        rwa [← beq_iff_eq.mp hkey]
    refine ⟨(map_set_call hcall _).trans h.calls, hstored, h.returned_set ?_⟩
    intro result hresult
    cases hresult
    exact hstored _ _ (get?_insertIfAbsent_self _ _ _)

theorem Sound.foldl (hasked : ∀ a ∈ asked, fits a.1 a.2) (schedule : List Nat) :
    ∀ {s : Session κ α}, Sound fits asked s → Sound fits asked (schedule.foldl step s) := by
  induction schedule with
  | nil => exact id
  | cons i schedule ih => exact fun h => ih (h.moves hasked (moves_step _ i))

theorem oneByOne_cons (i : Nat) (order : List Nat) :
    oneByOne (i :: order) = i :: i :: oneByOne order :=
  rfl

/-- A call that takes its two steps at once leaves the calls around it as they are. -/
theorem exists_step_step {before rest : List (Call κ α)} {key : κ} {value : α}
    (hcalls : s.calls = before ++ ⟨key, value, .waiting⟩ :: rest) :
    ∃ offered, (s.step before.length).step before.length =
      ⟨(s.cache.getOrCompute key fun _ => value).2,
        before ++ ⟨key, value, .returned (s.cache.getOrCompute key fun _ => value).1⟩ :: rest,
        offered⟩ := by
  have hcall : s.calls[before.length]? = some ⟨key, value, .waiting⟩ := by
    rw [hcalls, List.getElem?_append_right (Nat.le_refl _), Nat.sub_self]
    rfl
  rw [step_step hcall rfl, hcalls, List.set_append_right _ _ (Nat.le_refl _), Nat.sub_self]
  exact ⟨_, rfl⟩

end Readability.Run.Cache.Session

namespace Readability.Run

open Readability.History (Revision)
open Readability.Report (Aggregator Failure FarApart Outcome Rearranged WellFormed announced)
open Readability.Source (SourceUnit UnitError UnitId)

/-! ## Mixing -/

/-- A list that takes from the fronts of some queues until all of them are empty. -/
inductive Interleaves {α : Type} : List (List α) → List α → Prop
  | done {queues : List (List α)} (h : ∀ queue ∈ queues, queue = []) : Interleaves queues []
  | take {before after : List (List α)} {a : α} {queue l : List α}
      (h : Interleaves (before ++ queue :: after) l) :
      Interleaves (before ++ (a :: queue) :: after) (a :: l)

namespace Interleaves

variable {α : Type} {queues : List (List α)} {l : List α}

theorem cons_nil (h : Interleaves queues l) : Interleaves ([] :: queues) l := by
  induction h with
  | done h => exact .done (List.forall_mem_cons.mpr ⟨rfl, h⟩)
  | @take before after a queue l _ ih =>
    rw [← List.cons_append] at ih ⊢
    exact .take ih

/-- One queue after the other. -/
theorem flatten : ∀ queues : List (List α), Interleaves queues queues.flatten := by
  intro queues
  induction queues with
  | nil => exact .done fun _ hqueue => nomatch hqueue
  | cons queue queues ih =>
    rw [List.flatten_cons]
    induction queue with
    | nil => exact ih.cons_nil
    | cons a queue ihqueue =>
      rw [← List.nil_append (queue :: queues)] at ihqueue
      exact .take ihqueue

theorem perm (h : Interleaves queues l) : l.Perm queues.flatten := by
  induction h with
  | done h => rw [List.flatten_eq_nil_iff.mpr h]
  | take _ ih =>
    rw [List.flatten_append, List.flatten_cons] at ih ⊢
    exact (ih.cons _).trans List.perm_middle.symm

/-- What only one queue holds comes in the order of that queue. -/
theorem filter_eq {p : α → Bool} (h : Interleaves queues l) :
    (queues.Pairwise fun queue other => queue.filter p = [] ∨ other.filter p = []) →
      l.filter p = queues.flatten.filter p := by
  induction h with
  | done h =>
    intro _
    rw [List.flatten_eq_nil_iff.mpr h]
  | @take before after a queue l _ ih =>
    intro hone
    obtain ⟨hbefore, hfrom, hacross⟩ := List.pairwise_append.mp hone
    obtain ⟨hqueue, hafter⟩ := List.pairwise_cons.mp hfrom
    -- a queue that has lost its front holds nothing new
    have hless : (a :: queue).filter p = [] → queue.filter p = [] := fun hnone =>
      List.filter_eq_nil_iff.mpr fun b hb =>
        List.filter_eq_nil_iff.mp hnone b (List.mem_cons_of_mem a hb)
    have hl := ih (List.pairwise_append.mpr ⟨hbefore,
      List.pairwise_cons.mpr ⟨fun other hother => (hqueue other hother).imp_left hless, hafter⟩,
      fun other hother => List.forall_mem_cons.mpr
        ⟨(hacross other hother _ (List.mem_cons_self ..)).imp_right hless,
          fun later hlater => hacross other hother later (List.mem_cons_of_mem _ hlater)⟩⟩)
    rw [List.flatten_append, List.flatten_cons, List.filter_append] at hl ⊢
    rw [List.cons_append]
    by_cases ha : p a = true
    · have hnone : before.flatten.filter p = [] := by
        rw [List.filter_flatten]
        refine List.flatten_eq_nil_iff.mpr ?_
        intro kept hkept
        obtain ⟨other, hother, rfl⟩ := List.mem_map.mp hkept
        refine (hacross other hother _ (List.mem_cons_self ..)).resolve_right ?_
        rw [List.filter_cons_of_pos ha]
        exact List.cons_ne_nil _ _
      rw [hnone, List.nil_append] at hl ⊢
      rw [List.filter_cons_of_pos ha, List.filter_cons_of_pos ha, hl]
    · rw [List.filter_cons_of_neg ha, List.filter_cons_of_neg ha, hl]

end Interleaves

/-! ## Pools -/

namespace Job

variable {job : Job} {score : Scorer} {stored : ScoreCache} {units : List SourceUnit}

/-- What there is to tell of a unit once its call has returned. -/
def tellCall (timestamp : Time.Instant) (u : SourceUnit)
    (call : Cache.Call ScoreKey ContentScores) : List Outcome :=
  match call.progress with
  | .returned scores => outcomesOf u timestamp scores
  | .waiting | .missed => []

/-- What some units ask the store for, and what they compute where it has nothing. -/
def asked (job : Job) (units : List SourceUnit) : List (ScoreKey × ContentScores) :=
  units.map fun u => (job.key u, job.scores u)

/-- The calls of some units, after they took their steps in some order. -/
def callsOf (job : Job) (stored : ScoreCache) (units : List SourceUnit) (schedule : List Nat) :
    Cache.Session ScoreKey ContentScores :=
  schedule.foldl Cache.Session.step (.resume stored (job.asked units))

/-- A way to score units that a pool of workers may take: each unit asks the store
once, in two steps between which others take theirs, and what is told of it is
sent in its order, between what others send. -/
def Pooled (job : Job) (score : Scorer) : Prop :=
  ∀ timestamp stored units, ∃ schedule, (job.callsOf stored units schedule).Finished ∧
    (score timestamp stored units).2 = (job.callsOf stored units schedule).cache ∧
      Interleaves
        (List.zipWith (tellCall timestamp) units (job.callsOf stored units schedule).calls)
        (score timestamp stored units).1

/-- Scores under a key are those of the units of that key. -/
def Fits (job : Job) (units : List SourceUnit) (key : ScoreKey) (scores : ContentScores) : Prop :=
  ∀ u ∈ units, job.key u = key → scores = job.scores u

/-- Under the keys of some units, their own scores are stored if any. -/
def Stores (job : Job) (units : List SourceUnit) (stored : ScoreCache) : Prop :=
  ∀ key scores, stored.get? key = some scores → job.Fits units key scores

/-- Units of one key score alike. -/
def KeysTell (job : Job) (units : List SourceUnit) : Prop :=
  ∀ u ∈ units, ∀ v ∈ units, job.key u = job.key v → job.scores u = job.scores v

theorem stores_empty (job : Job) (units : List SourceUnit) : job.Stores units .empty :=
  fun _ _ hget => nomatch hget

/-- Keys tell the scores, where digests tell contents and a content of no known
language has one path. -/
theorem keysTell_of_onePath (hdigest : DigestsApart job.tools.digest units)
    (hpath : OnePath units) : job.KeysTell units := by
  intro u hu v hv hkey
  have hcontent := hdigest u hu v hv (congrArg ScoreKey.digest hkey)
  have hlanguage : u.language? = v.language? := congrArg ScoreKey.language hkey
  by_cases hul : u.language? = none
  · have hvl := hlanguage.symm.trans hul
    rw [scores_of_unknown hul, scores_of_unknown hvl, hpath u hu v hv hul hvl hcontent]
  · exact scores_eq_of_content hlanguage hcontent hul

/-- Calls that have returned what fits their keys tell each unit's own scores. -/
theorem zipWith_tellCall {all : List SourceUnit} (timestamp : Time.Instant) :
    ∀ (units : List SourceUnit) (calls : List (Cache.Call ScoreKey ContentScores)), units ⊆ all →
      calls.map (fun call => (call.key, call.computes)) = job.asked units →
      (∀ call ∈ calls, ∃ scores, call.progress = .returned scores ∧ job.Fits all call.key scores) →
      List.zipWith (tellCall timestamp) units calls =
        units.map fun u => outcomesOf u timestamp (job.scores u) := by
  intro units
  induction units with
  | nil => exact fun _ _ _ _ => rfl
  | cons u units ih =>
    intro calls hunits hcalls hreturned
    cases calls with
    | nil => cases hcalls
    | cons call calls =>
      obtain ⟨hcall, hcalls⟩ := List.cons.inj hcalls
      obtain ⟨hu, hunits⟩ := List.cons_subset.mp hunits
      obtain ⟨⟨scores, hscores, hfits⟩, hreturned⟩ := List.forall_mem_cons.mp hreturned
      rw [List.zipWith_cons_cons, List.map_cons, ih calls hunits hcalls hreturned, tellCall,
        hscores]
      dsimp only
      rw [hfits u hu (congrArg Prod.fst hcall).symm]

/-- **A pool tells of each unit its own scores, and stores them under its key.** -/
theorem Pooled.tells_own (hpool : job.Pooled score) {all : List SourceUnit}
    (hkeys : job.KeysTell all) (hstored : job.Stores all stored) (hunits : units ⊆ all)
    (timestamp : Time.Instant) :
    Interleaves (units.map fun u => outcomesOf u timestamp (job.scores u))
        (score timestamp stored units).1 ∧
      job.Stores all (score timestamp stored units).2 := by
  obtain ⟨schedule, hfinished, hcache, hmixed⟩ := hpool timestamp stored units
  have hasked : ∀ a ∈ job.asked units, job.Fits all a.1 a.2 := by
    intro a ha v hv hkey
    obtain ⟨u, hu, rfl⟩ := List.mem_map.mp ha
    exact hkeys u (hunits hu) v hv hkey.symm
  have hsound : Cache.Session.Sound (job.Fits all) (job.asked units)
      (job.callsOf stored units schedule) :=
    Cache.Session.Sound.foldl hasked schedule (Cache.Session.sound_resume hstored)
  rw [zipWith_tellCall timestamp units _ hunits hsound.calls] at hmixed
  · rw [hcache]
    exact ⟨hmixed, hsound.stored⟩
  · intro call hcall
    obtain ⟨scores, hscores⟩ := hfinished call hcall
    exact ⟨scores, hscores, hsound.returned call hcall scores hscores⟩

/-! ## What pools tell of a walk -/

/-- What there is to tell of the units of a revision, unit by unit. -/
def tellings (job : Job) (revision : Revision) : List (List Outcome) :=
  (unitsOf (job.results revision)).map fun u => outcomesOf u revision.timestamp (job.scores u)

/-- The account of some items in which what is told of the units of a revision is
mixed. -/
inductive Mixed (job : Job) : Nat → List (Except UnitError Revision) → List Outcome → Prop
  | nil {index : Nat} : Mixed job index [] []
  | loss {index : Nat} {e : UnitError} {rest : List (Except UnitError Revision)}
      {l : List Outcome} (h : Mixed job (index + 1) rest l) :
      Mixed job index (.error e :: rest) (lossOf index e :: l)
  | revision {index : Nat} {revision : Revision} {rest : List (Except UnitError Revision)}
      {mixed l : List Outcome} (hmixed : Interleaves (job.tellings revision) mixed)
      (h : Mixed job (index + 1) rest l) :
      Mixed job index (.ok revision :: rest)
        (.revision index revision :: (failuresOf (job.results revision)).map .failed ++ mixed ++ l)

/-- **A pool tells of the items of a walk what there is to tell**, mixed within
revisions. -/
theorem Pooled.tellItems_mixed (hpool : job.Pooled score) {all : List SourceUnit}
    (hkeys : job.KeysTell all) :
    ∀ (items : List (Except UnitError Revision)) (index : Nat) (stored : ScoreCache),
      job.Stores all stored → job.unitsIn items ⊆ all →
        job.Mixed index items (job.tellItems score index stored items).1 := by
  intro items
  induction items with
  | nil => exact fun _ _ _ _ => .nil
  | cons item rest ih =>
    intro index stored hstored hunits
    rw [tellItems]
    cases item with
    | error e => exact .loss (ih (index + 1) stored hstored hunits)
    | ok revision =>
      rw [unitsIn_ok] at hunits
      obtain ⟨hhere, hrest⟩ := List.append_subset.mp hunits
      obtain ⟨hmixed, hstored'⟩ := hpool.tells_own hkeys hstored hhere revision.timestamp
      exact .revision hmixed (ih (index + 1) _ hstored' hrest)

namespace Mixed

variable {index : Nat} {items : List (Except UnitError Revision)} {l : List Outcome}

theorem flatten_tellings (revision : Revision) : (job.tellings revision).flatten =
    (unitsOf (job.results revision)).flatMap fun u =>
      outcomesOf u revision.timestamp (job.scores u) :=
  List.flatMap_def.symm

theorem perm (h : job.Mixed index items l) : l.Perm (job.account job.scores index items) := by
  induction h with
  | nil => exact List.Perm.refl _
  | loss _ ih => exact ih.cons _
  | revision hmixed _ ih =>
    rw [account_cons, accountItem, ← flatten_tellings]
    exact (hmixed.perm.append_left _).append ih

/-- What only one unit of each revision is told comes in its order. -/
theorem filter_eq {p : Outcome → Bool} (h : job.Mixed index items l) :
    (∀ revision, .ok revision ∈ items → (job.tellings revision).Pairwise fun told other =>
      told.filter p = [] ∨ other.filter p = []) →
    l.filter p = (job.account job.scores index items).filter p := by
  induction h with
  | nil => exact fun _ => rfl
  | loss _ ih =>
    intro hone
    rw [account_cons, accountItem, List.singleton_append, List.filter_cons, List.filter_cons,
      ih fun revision hrevision => hone revision (List.mem_cons_of_mem _ hrevision)]
  | revision hmixed _ ih =>
    intro hone
    rw [account_cons, accountItem, ← flatten_tellings, List.filter_append, List.filter_append,
      List.filter_append, List.filter_append, hmixed.filter_eq (hone _ (List.mem_cons_self ..)),
      ih fun revision hrevision => hone revision (List.mem_cons_of_mem _ hrevision)]

end Mixed

/-- The paths of the units of a revision are among those that are chosen, in their
order. -/
theorem paths_unitsOf_sublist (revision : Revision) :
    ((unitsOf (job.results revision)).map (·.id.path)).Sublist (job.chosen revision) := by
  rw [results, chosen, unitsOf]
  rcases job.seenPaths revision with e | seen
  · exact List.Sublist.refl _
  · dsimp only
    generalize seen.filter job.keeps = paths
    induction paths with
    | nil => exact List.Sublist.refl _
    | cons path paths ih =>
      rw [List.map_cons, readUnit]
      rcases job.history.read revision.id path with e | content
      · exact ih.cons path
      · exact ih.cons_cons path

/-- What is told of a unit is about its path at its revision. -/
theorem isAt_of_mem_tellings {revision : Revision} {u : SourceUnit}
    (hu : u ∈ unitsOf (job.results revision)) {timestamp : Time.Instant} {scores : ContentScores}
    {o : Outcome} (ho : o ∈ outcomesOf u timestamp scores) (id path : String) :
    o.isAt id path = (revision.id == id && u.id.path == path) := by
  obtain ⟨_, -, content, -, rfl⟩ := read_of_mem_unitsOf hu
  obtain ⟨scope, hunit⟩ := exists_scope_of_mem_outcomesOf ho
  rw [Outcome.isAt, hunit, Option.any_some, partId_path, partId_revision]
  rfl

theorem revision_of_mem_tellings {revision : Revision} {u : SourceUnit}
    (hu : u ∈ unitsOf (job.results revision)) {timestamp : Time.Instant} {scores : ContentScores}
    {o : Outcome} (ho : o ∈ outcomesOf u timestamp scores) {id : UnitId}
    (hid : o.unit? = some id) : id.revision = revision.id := by
  obtain ⟨_, -, content, -, rfl⟩ := read_of_mem_unitsOf hu
  obtain ⟨scope, hunit⟩ := exists_scope_of_mem_outcomesOf ho
  cases hunit.symm.trans hid
  exact partId_revision _ _

/-! ## Reports of pools -/

/-- A walk in which revisions and the paths that are read of each can be told
apart, and which is not longer than there are places. -/
structure Distinct (job : Job) (items : List (Except UnitError Revision)) : Prop where
  ids : ((revisionsOf items).map (·.id)).Nodup
  chosen : ∀ revision, .ok revision ∈ items → (job.chosen revision).Nodup
  few : items.length ≤ Aggregator.farPlace

theorem Distinct.take {items : List (Except UnitError Revision)} (h : job.Distinct items)
    (k : Nat) : job.Distinct (items.take k) where
  ids := ((List.take_sublist k items).filterMap _ |>.map _).nodup h.ids
  chosen := fun revision hrevision => h.chosen revision (List.mem_of_mem_take hrevision)
  few := (List.length_take_le' k items).trans h.few

/-- An orderly walk is distinct, if it is not too long. -/
theorem Orderly.distinct {revisions : List Revision} (h : job.Orderly revisions)
    (hfew : revisions.length ≤ Aggregator.farPlace) : job.Distinct job.items := by
  rcases hgap : job.model.schemaGap? Feature.schema Feature.names with _ | gap
  · rw [items_of_walk hgap h.walk]
    refine ⟨?_, ?_, ?_⟩
    · rw [revisionsOf_map_ok]
      exact h.ids
    · intro revision hrevision
      obtain ⟨_, hr, hsame⟩ := List.mem_map.mp hrevision
      cases hsame
      exact h.chosen_nodup hr
    · rwa [List.length_map]
  · rw [items_of_gap hgap]
    exact ⟨List.nodup_nil, fun _ hrevision => (nomatch hrevision), Nat.zero_le _⟩

/-- Outcomes of a path at a revision come from one unit. -/
theorem pairwise_isAt {revision : Revision} (hchosen : (job.chosen revision).Nodup)
    (id path : String) : (job.tellings revision).Pairwise fun told other =>
      told.filter (Outcome.isAt id path) = [] ∨ other.filter (Outcome.isAt id path) = [] := by
  have hpaths : ((unitsOf (job.results revision)).map (·.id.path)).Nodup :=
    (paths_unitsOf_sublist revision).nodup hchosen
  -- a unit of another path has nothing to tell of this one
  have hnone : ∀ u ∈ unitsOf (job.results revision), u.id.path ≠ path →
      (outcomesOf u revision.timestamp (job.scores u)).filter (Outcome.isAt id path) = [] := by
    intro u hu hother
    refine List.filter_eq_nil_iff.mpr fun o ho => ?_
    rw [isAt_of_mem_tellings hu ho, beq_false_of_ne hother, Bool.and_false]
    exact Bool.false_ne_true
  rw [tellings, List.pairwise_map]
  refine (List.pairwise_map.mp hpaths).imp_of_mem ?_
  intro u v hu hv hne
  by_cases hpath : u.id.path = path
  · exact .inr (hnone v hv fun hv => hne (hpath.trans hv.symm))
  · exact .inl (hnone u hu hpath)

theorem names_account (scores : SourceUnit → ContentScores) (index : Nat)
    (items : List (Except UnitError Revision)) :
    (announced (job.account scores index items)).map (·.1) = (revisionsOf items).map (·.id) := by
  conv_rhs => rw [← List.zipIdx_map_fst index items]
  rw [announced_account, revisionsOf, List.filterMap_map, List.map_filterMap, List.map_filterMap]
  refine List.filterMap_congr fun item _ => ?_
  rw [Option.map_map]
  rfl

/-- No outcome of a unit is a stray. -/
theorem pairwise_isStray {index : Nat} {items : List (Except UnitError Revision)}
    {revision : Revision} (hrevision : .ok revision ∈ items) :
    (job.tellings revision).Pairwise fun told other =>
      told.filter (Outcome.isStray (job.account job.scores index items)) = [] ∨
        other.filter (Outcome.isStray (job.account job.scores index items)) = [] := by
  have hknown : revision.id ∈
      ((job.account job.scores index items).filterMap Outcome.announced?).map (·.1) := by
    have hnames := job.names_account job.scores index items
    rw [announced] at hnames
    rw [hnames]
    exact List.mem_map_of_mem (List.mem_filterMap.mpr ⟨_, hrevision, rfl⟩)
  rw [tellings, List.pairwise_map]
  refine List.pairwise_of_forall_mem_list fun u hu v _ => .inl ?_
  refine List.filter_eq_nil_iff.mpr fun o ho => ?_
  cases o with
  | revision | scored => exact Bool.false_ne_true
  | failed f =>
    have hid : f.unit.revision = revision.id := revision_of_mem_tellings hu ho rfl
    rw [Outcome.isStray, Outcome.failure?, Option.any_some, hid, List.contains_iff_mem.mpr hknown]
    exact Bool.false_ne_true

/-- **What a pool tells of a walk is an account of it, rearranged.** -/
theorem Mixed.rearranged {index : Nat} {items : List (Except UnitError Revision)}
    {l : List Outcome} (h : job.Mixed index items l)
    (hchosen : ∀ revision, .ok revision ∈ items → (job.chosen revision).Nodup) :
    Rearranged (job.account job.scores index items) l where
  perm := h.perm.symm
  units := fun id path =>
    (h.filter_eq fun revision hrevision => pairwise_isAt (hchosen revision hrevision) id path).symm
  strays := (h.filter_eq fun _ hrevision => pairwise_isStray hrevision).symm

/-- An account announces each revision once, at a place of its own. -/
theorem wellFormed_account {items : List (Except UnitError Revision)}
    (hids : ((revisionsOf items).map (·.id)).Nodup) (scores : SourceUnit → ContentScores)
    (index : Nat) : WellFormed (job.account scores index items) where
  names := by
    rwa [names_account]
  places := by
    have hplaces : ((items.zipIdx index).map (·.2)).Nodup := by
      rw [List.zipIdx_map_snd]
      exact List.nodup_range'
    rw [announced_account, List.Nodup, List.pairwise_map, List.pairwise_filterMap]
    refine (List.pairwise_map.mp hplaces).imp ?_
    rintro ⟨item, i⟩ ⟨other, j⟩ hne p hp q hq
    obtain ⟨_, -, rfl⟩ := Option.map_eq_some_iff.mp hp
    obtain ⟨_, -, rfl⟩ := Option.map_eq_some_iff.mp hq
    exact hne
  scored := by
    intro record hrecord
    rw [names_account]
    obtain ⟨⟨item, i⟩, hitem, ho⟩ := List.mem_flatMap.mp hrecord
    cases item with
    | error e => cases List.mem_singleton.mp ho
    | ok revision =>
      rcases List.mem_append.mp ho with hhead | htold
      · rcases List.mem_cons.mp hhead with hrevision | hfailed
        · cases hrevision
        · obtain ⟨_, -, hfailure⟩ := List.mem_map.mp hfailed
          cases hfailure
      · obtain ⟨u, hu, ho⟩ := List.mem_flatMap.mp htold
        have hid : record.unit.revision = revision.id := revision_of_mem_tellings hu ho rfl
        rw [hid]
        exact List.mem_map_of_mem
          (List.mem_filterMap.mpr ⟨_, List.fst_mem_of_mem_zipIdx hitem, rfl⟩)

/-- No place is as far as that of a revision that is not announced. -/
theorem farApart_account {items : List (Except UnitError Revision)}
    (hfew : items.length ≤ Aggregator.farPlace) (scores : SourceUnit → ContentScores) :
    FarApart (job.account scores 0 items) := by
  intro f g _ _ _ hfar
  rw [announced_account, List.mem_filterMap] at hfar
  obtain ⟨⟨item, i⟩, hitem, hplace⟩ := hfar
  obtain ⟨_, -, hpair⟩ := Option.map_eq_some_iff.mp hplace
  have hplace : i = Aggregator.farPlace := congrArg Prod.snd hpair
  have hless : i < items.length := List.snd_lt_of_mem_zipIdx hitem
  rw [hplace] at hless
  exact absurd hless (Nat.not_lt.mpr hfew)

/-- Rearranged outcomes come to the same verdict. -/
theorem verdict_congr {l₁ l₂ : List Outcome} (h : WellFormed l₁) (hfar : FarApart l₁)
    (hmove : Rearranged l₁ l₂) (isPartial : Bool) (runId : String) (now : Time.Instant) :
    job.verdict l₁ isPartial runId now = job.verdict l₂ isPartial runId now := by
  rw [verdict, verdict, Aggregator.allMismatched_congr hmove.perm,
    Aggregator.finish_congr_of_rearranged h hfar hmove _ runId runId now now]
  rfl

variable {runId : String} {now : Time.Instant}

/-- **A pool comes to the report of a run that scores each unit on its own**, when
the keys of its units tell their scores. -/
theorem Pooled.runBy_eq_runAfresh (hpool : job.Pooled score) (hdistinct : job.Distinct job.items)
    (hkeys : job.KeysTell (job.scoredUnits runId now))
    (hstored : job.Stores (job.scoredUnits runId now) stored) :
    (job.runBy score stored runId now).1 = (job.runAfresh runId now).1 ∧
      (job.runBy score stored runId now).2.outcomes.Perm (job.runAfresh runId now).2.outcomes := by
  rcases hgap : job.model.schemaGap? Feature.schema Feature.names with _ | gap
  · rcases hwalk : job.history.walk job.options.range job.options.order with e | items
    · rw [runAfresh, runBy_of_no_walk hgap hwalk, runBy_of_no_walk hgap hwalk]
      exact ⟨rfl, List.Perm.refl _⟩
    · obtain ⟨k, -, htells⟩ := runBy_tells hgap hwalk runId now
      rw [items_of_walk hgap hwalk] at hdistinct
      have htaken := hdistinct.take k
      rw [scoredUnits_eq (htells job.sharing .empty)] at hkeys hstored
      have hmixed := hpool.tellItems_mixed hkeys (items.take k) 0 stored hstored
        (List.Subset.refl _)
      have hown := htells job.afresh .empty
      have hmine := htells score stored
      rw [runAfresh, hmine.verdict, hmine.outcomes, hown.verdict, hown.outcomes, tellItems_afresh]
      exact ⟨(verdict_congr (wellFormed_account htaken.ids _ 0) (farApart_account htaken.few _)
        (hmixed.rearranged htaken.chosen) _ runId now).symm, hmixed.perm⟩
  · rw [runAfresh, runBy_of_gap hgap, runBy_of_gap hgap]
    exact ⟨rfl, List.Perm.refl _⟩

/-! ## From left to right -/

/-- Calls of some units after `n` other calls: unit by unit, each takes its two
steps at once, and returns what the store has for it then. -/
theorem exists_calls_sharing (timestamp : Time.Instant) :
    ∀ (units : List SourceUnit) (n : Nat) (s t : Cache.Session ScoreKey ContentScores),
      t = (Cache.Session.oneByOne (List.range' n units.length)).foldl .step s →
      ∀ before, s.calls = before ++ (Cache.Session.start (job.asked units)).calls →
        before.length = n →
        ∃ calls, t.calls = before ++ calls ∧
          (∀ call ∈ calls, ∃ scores, call.progress = .returned scores) ∧
          (List.zipWith (tellCall timestamp) units calls).flatten =
            (job.sharing timestamp s.cache units).1 ∧
          t.cache = (job.sharing timestamp s.cache units).2 := by
  intro units
  induction units with
  | nil =>
    rintro n s _ rfl before hcalls -
    exact ⟨[], hcalls, List.forall_mem_nil _, rfl, rfl⟩
  | cons u units ih =>
    rintro _ s t ht before hcalls rfl
    have hnext : s.calls = before ++ ⟨job.key u, job.scores u, .waiting⟩ ::
        (Cache.Session.start (job.asked units)).calls := hcalls
    obtain ⟨offered, hstep⟩ := Cache.Session.exists_step_step hnext
    rw [List.length_cons, List.range'_succ, Cache.Session.oneByOne_cons, List.foldl_cons,
      List.foldl_cons, hstep, List.append_cons] at ht
    obtain ⟨calls, htcalls, hreturned, htold, hcache⟩ :=
      ih _ _ t ht _ rfl List.length_append
    refine ⟨_ :: calls, htcalls.trans (List.append_assoc ..), ?_, ?_, hcache⟩
    · exact List.forall_mem_cons.mpr ⟨⟨_, rfl⟩, hreturned⟩
    · rw [List.zipWith_cons_cons, List.flatten_cons, htold]
      rfl

/-- **Going from left to right is a schedule of a pool.** -/
theorem pooled_sharing (job : Job) : job.Pooled job.sharing := by
  intro timestamp stored units
  obtain ⟨calls, hcalls, hreturned, htold, hcache⟩ :=
    exists_calls_sharing timestamp units 0 (.resume stored (job.asked units)) _ rfl [] rfl rfl
  have hall : (job.callsOf stored units (Cache.Session.oneByOne
      (List.range' 0 units.length))).calls = calls := hcalls
  refine ⟨Cache.Session.oneByOne (List.range' 0 units.length), ?_, hcache.symm, ?_⟩
  · rw [Cache.Session.Finished, hall]
    exact hreturned
  · rw [hall]
    exact htold ▸ Interleaves.flatten _

/-- **All schedules of a pool come to one report**, when contents have digests of
their own and contents of no known language have one path. -/
theorem run_of_any_schedule (hpool : job.Pooled score) (hdistinct : job.Distinct job.items)
    (hdigest : DigestsApart job.tools.digest (job.scoredUnits runId now))
    (hpath : OnePath (job.scoredUnits runId now)) :
    (job.runBy score .empty runId now).1 = (job.run runId now).1 := by
  have hkeys := keysTell_of_onePath hdigest hpath
  have hstored := job.stores_empty (job.scoredUnits runId now)
  have hpooled := (hpool.runBy_eq_runAfresh hdistinct hkeys hstored).1
  have hshared := (job.pooled_sharing.runBy_eq_runAfresh hdistinct hkeys hstored).1
  exact hpooled.trans hshared.symm

/-- A program and a file of no known language, scored by any pool. -/
theorem run_of_any_schedule_program {score : Scorer} (hpool : (programJob program).Pooled score) :
    ((programJob program).runBy score .empty "" .epoch).1 =
      ((programJob program).run "" .epoch).1 := by
  have horderly := programJob_orderly program
  have hunits := horderly.scoredUnits_eq rfl (programJob_gap program) "" .epoch
  refine run_of_any_schedule hpool (horderly.distinct (by decide)) ?_ ?_
  · rw [hunits]
    exact programJob_apart
  · rw [hunits]
    unfold OnePath
    decide

end Job

end Readability.Run
