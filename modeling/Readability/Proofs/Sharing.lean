import Readability.History.Memory
import Readability.Proofs.Arrival
import Readability.Proofs.Interleaving
import Readability.Proofs.Walk

/-!
# Scores that units share

A run scores a unit once for each key: digest of the content, language,
granularity. Other units of that key are told the scores of the first one
(`first`), under their own name. So what a run tells is its account of the items
with the scores of the first units (`tellItems_sharing`), and what it would tell
without a store is the account with each unit's own scores
(`tellItems_afresh`).

When digests do not collide, units of one key have one content and one language.
If the language is known, scores follow from these two alone
(`scores_eq_of_content`). A content of no known language is refused under the
path of the unit, and that path is shared with the refusal:

> `run_eq_runAfresh_iff`: sharing scores leaves the outcomes and the report as
> they are exactly when the units of no known language that share a content
> share their path as well.

`run_ne_runAfresh_copied` is a run in which they do not: a refusal names a file
of another revision.
-/

namespace Readability.Run

open Readability.History (Revision)
open Readability.Report (Aggregator Failure Outcome)
open Readability.Source (Language SourceUnit UnitError UnitId)

namespace Job

variable (job : Job)

/-- The key of a unit. -/
def key (u : SourceUnit) : ScoreKey :=
  keyOf job.tools.digest job.options.granularity u

/-- The scores of a unit. -/
def scores (u : SourceUnit) : ContentScores :=
  evaluate job.tools.parser job.model job.options.granularity u

/-- The first of some units that has the key of a unit. -/
def first (units : List SourceUnit) (u : SourceUnit) : SourceUnit :=
  (units.find? fun v => job.key v == job.key u).getD u

/-- The scores that a unit is told after some units: those of the first one of
its key. -/
def shared (units : List SourceUnit) (u : SourceUnit) : ContentScores :=
  job.scores (job.first units u)

/-- The scores that a unit is told after some units on top of stored ones: those
that are stored under its key, or else those of the first unit of its key. -/
def sharedOn (stored : ScoreCache) (units : List SourceUnit) (u : SourceUnit) : ContentScores :=
  (stored.get? (job.key u)).getD (job.shared units u)

/-- The store after some units were asked for: what was stored before, and the
scores of the first unit of each other key. -/
def Holds (stored : ScoreCache) (units : List SourceUnit) (cache : ScoreCache) : Prop :=
  ∀ key, cache.get? key =
    (stored.get? key).or ((units.find? fun u => job.key u == key).map job.scores)

variable {job}

theorem holds_nil (job : Job) (stored : ScoreCache) : job.Holds stored [] stored := by
  intro key
  exact (Option.or_none ..).symm

theorem sharedOn_empty (units : List SourceUnit) : job.sharedOn .empty units = job.shared units :=
  rfl

theorem key_first {units : List SourceUnit} {u : SourceUnit} :
    job.key (job.first units u) = job.key u := by
  rw [first]
  rcases hfind : units.find? fun v => job.key v == job.key u with _ | v
  · rfl
  · have hkey := List.find?_some hfind
    exact beq_iff_eq.mp hkey

/-- The scores of the unit at the head are told of all units of its key. -/
theorem shared_of_head {u v : SourceUnit} (hkey : (job.key u == job.key v) = true)
    (units : List SourceUnit) : job.shared (u :: units) v = job.scores u := by
  rw [shared, first, List.find?_cons, hkey, Option.getD_some]

theorem first_mem {units : List SourceUnit} {u : SourceUnit} (hu : u ∈ units) :
    job.first units u ∈ units := by
  rw [first]
  rcases hfind : units.find? fun v => job.key v == job.key u with _ | v
  · exact hu
  · exact List.mem_of_find?_eq_some hfind

/-- Units that come later do not change which one is the first. -/
theorem first_append {units : List SourceUnit} {u : SourceUnit} (hu : u ∈ units)
    (more : List SourceUnit) : job.first (units ++ more) u = job.first units u := by
  have hsome : (units.find? fun v => job.key v == job.key u).isSome = true :=
    List.find?_isSome.mpr ⟨u, hu, beq_self_eq_true _⟩
  obtain ⟨v, hv⟩ := Option.isSome_iff_exists.mp hsome
  rw [first, first, List.find?_append, hv]
  rfl

theorem shared_append {units : List SourceUnit} {u : SourceUnit} (hu : u ∈ units)
    (more : List SourceUnit) : job.shared (units ++ more) u = job.shared units u := by
  rw [shared, shared, first_append hu more]

/-- Units of one key have one first unit. -/
theorem first_congr {units : List SourceUnit} {u v : SourceUnit} (hu : u ∈ units)
    (hkey : job.key u = job.key v) : job.first units u = job.first units v := by
  have hsome : (units.find? fun w => job.key w == job.key v).isSome = true :=
    List.find?_isSome.mpr ⟨u, hu, beq_iff_eq.mpr hkey⟩
  obtain ⟨w, hw⟩ := Option.isSome_iff_exists.mp hsome
  rw [first, first, hkey, hw]
  rfl

/-- A unit is told what the store holds after the units before it, or its own
scores. -/
theorem sharedOn_eq (stored : ScoreCache) (units : List SourceUnit) (u : SourceUnit) :
    job.sharedOn stored units u = ((stored.get? (job.key u)).or
      ((units.find? fun v => job.key v == job.key u).map job.scores)).getD (job.scores u) := by
  rw [sharedOn, shared, first]
  rcases stored.get? (job.key u) with _ | scores
  · rcases units.find? fun v => job.key v == job.key u with _ | v
    · rfl
    · rfl
  · rfl

theorem sharedOn_append {units : List SourceUnit} {u : SourceUnit} (hu : u ∈ units)
    (stored : ScoreCache) (more : List SourceUnit) :
    job.sharedOn stored (units ++ more) u = job.sharedOn stored units u := by
  rw [sharedOn, sharedOn, shared_append hu]

/-- What is stored once a unit was asked for: its own scores come last. -/
theorem Holds.append {stored : ScoreCache} {units : List SourceUnit} {cache : ScoreCache}
    (h : job.Holds stored units cache) (u : SourceUnit) (key : ScoreKey) :
    (stored.get? key).or (((units ++ [u]).find? fun v => job.key v == key).map job.scores) =
      (cache.get? key).or (if job.key u == key then some (job.scores u) else none) := by
  rw [h key, List.find?_append, Option.map_or, Option.or_assoc, List.find?_singleton]
  split <;> rfl

/-- Asking for a unit gives what is stored under its key, by an earlier run or by
the first unit of that key. -/
theorem scoreUnit_spec {stored : ScoreCache} {units : List SourceUnit} {cache : ScoreCache}
    (h : job.Holds stored units cache) (timestamp : Time.Instant) (u : SourceUnit) :
    (scoreUnit job.tools job.model job.options.granularity timestamp cache u).1 =
        outcomesOf u timestamp (job.sharedOn stored (units ++ [u]) u) ∧
      job.Holds stored (units ++ [u])
        (scoreUnit job.tools job.model job.options.granularity timestamp cache u).2 := by
  have hunit : scoreUnit job.tools job.model job.options.granularity timestamp cache u =
      (outcomesOf u timestamp (cache.getOrCompute (job.key u) fun _ => job.scores u).1,
        (cache.getOrCompute (job.key u) fun _ => job.scores u).2) := rfl
  rw [hunit, sharedOn_eq, h.append]
  rcases hget : cache.get? (job.key u) with _ | scores
  · -- the unit is the first one of its key
    rw [Cache.getOrCompute_of_none hget]
    refine ⟨by simp, ?_⟩
    intro key
    rw [Cache.get?_append, h.append]
  · -- its key is known, and stays with the scores that came first
    rw [Cache.getOrCompute_of_some hget]
    refine ⟨rfl, ?_⟩
    intro key
    rw [h.append]
    have hkept : Cache.get? { cache with hits := cache.hits + 1 } key = cache.get? key := rfl
    rw [hkept]
    by_cases hkey : job.key u = key
    · subst hkey
      rw [hget, Option.some_or]
    · simp [hkey]

/-- Asking for some units gives each what is stored under its key. -/
theorem scoreUnits_spec (timestamp : Time.Instant) {stored : ScoreCache} :
    ∀ (more units : List SourceUnit) (cache : ScoreCache), job.Holds stored units cache →
      (job.sharing timestamp cache more).1 = more.flatMap (fun u =>
          outcomesOf u timestamp (job.sharedOn stored (units ++ more) u)) ∧
        job.Holds stored (units ++ more) (job.sharing timestamp cache more).2 := by
  intro more
  induction more with
  | nil =>
    intro units cache h
    rw [List.append_nil]
    exact ⟨rfl, h⟩
  | cons u more ih =>
    intro units cache h
    obtain ⟨hu, hcache⟩ := scoreUnit_spec h timestamp u
    obtain ⟨hmore, hcache'⟩ := ih (units ++ [u]) _ hcache
    rw [List.append_assoc, List.singleton_append] at hmore hcache'
    have hfirst : job.sharedOn stored (units ++ u :: more) u =
        job.sharedOn stored (units ++ [u]) u := by
      rw [← List.singleton_append, ← List.append_assoc]
      exact sharedOn_append (List.mem_append_right units (List.mem_singleton_self u)) stored more
    have hsplit : (job.sharing timestamp cache (u :: more)).1 =
        (scoreUnit job.tools job.model job.options.granularity timestamp cache u).1 ++
          (job.sharing timestamp (scoreUnit job.tools job.model job.options.granularity timestamp
            cache u).2 more).1 := rfl
    refine ⟨?_, hcache'⟩
    rw [hsplit, hu, hmore, List.flatMap_cons, hfirst]

/-! ## The account of a run -/

/-- The units of some items, in the order in which they are scored. -/
def unitsIn (job : Job) (items : List (Except UnitError Revision)) : List SourceUnit :=
  (revisionsOf items).flatMap fun revision => unitsOf (job.results revision)

/-- What there is to tell of an item when its units have given scores. -/
def accountItem (job : Job) (scores : SourceUnit → ContentScores) (index : Nat) :
    Except UnitError Revision → List Outcome
  | .error e => [lossOf index e]
  | .ok revision =>
    .revision index revision :: (failuresOf (job.results revision)).map .failed ++
      (unitsOf (job.results revision)).flatMap fun u =>
        outcomesOf u revision.timestamp (scores u)

/-- What there is to tell of some items. -/
def account (job : Job) (scores : SourceUnit → ContentScores) (index : Nat)
    (items : List (Except UnitError Revision)) : List Outcome :=
  (items.zipIdx index).flatMap fun item => job.accountItem scores item.2 item.1

theorem account_cons (scores : SourceUnit → ContentScores) (index : Nat)
    (item : Except UnitError Revision) (rest : List (Except UnitError Revision)) :
    job.account scores index (item :: rest) =
      job.accountItem scores index item ++ job.account scores (index + 1) rest :=
  rfl

theorem unitsIn_error (e : UnitError) (rest : List (Except UnitError Revision)) :
    job.unitsIn (.error e :: rest) = job.unitsIn rest :=
  rfl

theorem unitsIn_ok (revision : Revision) (rest : List (Except UnitError Revision)) :
    job.unitsIn (.ok revision :: rest) = unitsOf (job.results revision) ++ job.unitsIn rest :=
  rfl

/-- Scores matter for the units of an item only. -/
theorem accountItem_congr {s t : SourceUnit → ContentScores} (index : Nat)
    (item : Except UnitError Revision) (h : ∀ u ∈ job.unitsIn [item], s u = t u) :
    job.accountItem s index item = job.accountItem t index item := by
  cases item with
  | error e => rfl
  | ok revision =>
    rw [unitsIn_ok] at h
    rw [accountItem, accountItem]
    refine congrArg _ (List.flatMap_congr ?_)
    intro u hu
    rw [h u (List.mem_append_left _ hu)]

theorem mem_unitsIn {u : SourceUnit} {items : List (Except UnitError Revision)} :
    u ∈ job.unitsIn items ↔
      ∃ revision, .ok revision ∈ items ∧ u ∈ unitsOf (job.results revision) := by
  rw [unitsIn, List.mem_flatMap]
  refine exists_congr fun revision => and_congr_left fun _ => ?_
  rw [revisionsOf, List.mem_filterMap]
  constructor
  · rintro ⟨item, hitem, hrevision⟩
    cases item <;> cases hrevision
    exact hitem
  · exact fun h => ⟨_, h, rfl⟩

/-- The units of one item are among those of all. -/
theorem unitsIn_subset {p : Except UnitError Revision × Nat} {index : Nat}
    {items : List (Except UnitError Revision)} (hp : p ∈ items.zipIdx index) :
    job.unitsIn [p.1] ⊆ job.unitsIn items := by
  intro u hu
  obtain ⟨revision, hrevision, hunit⟩ := mem_unitsIn.mp hu
  rw [List.mem_singleton] at hrevision
  refine mem_unitsIn.mpr ⟨revision, ?_, hunit⟩
  rw [hrevision]
  exact List.fst_mem_of_mem_zipIdx hp

theorem account_congr {s t : SourceUnit → ContentScores} (index : Nat)
    (items : List (Except UnitError Revision)) (h : ∀ u ∈ job.unitsIn items, s u = t u) :
    job.account s index items = job.account t index items := by
  refine List.flatMap_congr ?_
  intro p hp
  exact accountItem_congr p.2 p.1 fun u hu => h u (unitsIn_subset hp hu)

/-- A run that scores each unit on its own accounts for the scores of each. -/
theorem tellItems_afresh :
    ∀ (items : List (Except UnitError Revision)) (index : Nat) (cache : ScoreCache),
      (job.tellItems job.afresh index cache items).1 = job.account job.scores index items := by
  intro items
  induction items with
  | nil => exact fun _ _ => rfl
  | cons item rest ih =>
    intro index cache
    rw [account_cons, ← ih]
    cases item <;> rfl

/-- A run that shares scores accounts for those that are stored under the keys of
its units, and leaves those stored that its units have added. -/
theorem tellItems_sharing {stored : ScoreCache} :
    ∀ (items : List (Except UnitError Revision)) (index : Nat) (cache : ScoreCache)
      (units : List SourceUnit), job.Holds stored units cache →
        (job.tellItems job.sharing index cache items).1 =
            job.account (job.sharedOn stored (units ++ job.unitsIn items)) index items ∧
          job.Holds stored (units ++ job.unitsIn items)
            (job.tellItems job.sharing index cache items).2 := by
  intro items
  induction items with
  | nil =>
    intro _ _ units h
    have hnone : job.unitsIn [] = [] := rfl
    rw [hnone, List.append_nil]
    exact ⟨rfl, h⟩
  | cons item rest ih =>
    intro index cache units h
    rw [tellItems, account_cons]
    cases item with
    | error e =>
      obtain ⟨hrest, hcache⟩ := ih (index + 1) cache units h
      rw [unitsIn_error, ← hrest]
      exact ⟨rfl, hcache⟩
    | ok revision =>
      obtain ⟨htold, hcache⟩ := scoreUnits_spec revision.timestamp
        (unitsOf (job.results revision)) units cache h
      obtain ⟨hrest, hcache'⟩ := ih (index + 1) _ _ hcache
      rw [List.append_assoc, ← unitsIn_ok] at hrest hcache'
      refine ⟨?_, hcache'⟩
      rw [← hrest]
      -- the units of later revisions do not change who is first here
      refine congrArg (· ++ _) ?_
      rw [accountItem, tellItem]
      dsimp only
      rw [htold]
      refine congrArg _ (List.flatMap_congr ?_)
      intro u hu
      rw [unitsIn_ok, ← List.append_assoc, sharedOn_append (List.mem_append_right units hu)]

/-- What a pipeline's first run tells. -/
theorem tellItems_new (items : List (Except UnitError Revision)) :
    (job.tellItems job.sharing 0 .empty items).1 =
      job.account (job.shared (job.unitsIn items)) 0 items := by
  have htold := (tellItems_sharing items 0 .empty [] (job.holds_nil .empty)).1
  rwa [List.nil_append, sharedOn_empty] at htold

/-! ## What scores hang on -/

/-- Contents of some units have different digests when they are different. -/
def DigestsApart (digest : ByteArray → Digest) (units : List SourceUnit) : Prop :=
  ∀ u ∈ units, ∀ v ∈ units, digest u.content = digest v.content → u.content = v.content

/-- Digests that are apart stay so for fewer units. -/
theorem DigestsApart.subset {digest : ByteArray → Digest} {units fewer : List SourceUnit}
    (h : DigestsApart digest units) (hsubset : fewer ⊆ units) : DigestsApart digest fewer :=
  fun u hu v hv => h u (hsubset hu) v (hsubset hv)

/-- Units of no known language that share a content share their path. -/
def OnePath (units : List SourceUnit) : Prop :=
  ∀ u ∈ units, ∀ v ∈ units, u.language? = none → v.language? = none → u.content = v.content →
    u.id.path = v.id.path

/-- A unit of no known language is refused, under its path. -/
theorem scores_of_unknown {u : SourceUnit} (h : u.language? = none) :
    job.scores u = .error (.parse ("unsupported language for " ++ u.id.path)) := by
  have hprepare : u.prepare = .error (.parse ("unsupported language for " ++ u.id.path)) := by
    rw [SourceUnit.prepare, h]
    rfl
  rw [scores]
  cases job.options.granularity with
  | file =>
    rw [evaluate, Feature.extract, Feature.extract?, hprepare]
    rfl
  | function =>
    rw [evaluate, Feature.extractScopes, Feature.extractScopes?, hprepare]
    rfl

/-- The scores of a unit whose language is known follow from its language and
its content. -/
theorem scores_eq_of_content {u v : SourceUnit} (hlanguage : u.language? = v.language?)
    (hcontent : u.content = v.content) (hknown : u.language? ≠ none) :
    job.scores u = job.scores v := by
  have hprepare : u.prepare = v.prepare := by
    rw [SourceUnit.prepare, SourceUnit.prepare, SourceUnit.text, SourceUnit.text, ← hlanguage,
      hcontent]
    rcases hl : u.language? with _ | language
    · exact absurd hl hknown
    · rfl
  rw [scores, scores]
  cases job.options.granularity with
  | file => rw [evaluate, evaluate, Feature.extract, Feature.extract, Feature.extract?,
      Feature.extract?, hprepare]
  | function => rw [evaluate, evaluate, Feature.extractScopes, Feature.extractScopes,
      Feature.extractScopes?, Feature.extractScopes?, hprepare]

variable {units : List SourceUnit}

theorem language_first {u : SourceUnit} : (job.first units u).language? = u.language? :=
  congrArg ScoreKey.language key_first

/-- A unit of no known language is told a refusal of the first unit's path. -/
theorem shared_of_unknown {u : SourceUnit} (h : u.language? = none) :
    job.shared units u =
      .error (.parse ("unsupported language for " ++ (job.first units u).id.path)) :=
  scores_of_unknown (language_first.trans h)

theorem content_first (hdigest : DigestsApart job.tools.digest units) {u : SourceUnit}
    (hu : u ∈ units) : (job.first units u).content = u.content :=
  hdigest _ (first_mem hu) _ hu (congrArg ScoreKey.digest key_first)

/-- Where the language is known, the first unit's scores are the unit's own. -/
theorem shared_of_known (hdigest : DigestsApart job.tools.digest units) {u : SourceUnit}
    (hu : u ∈ units) (hknown : u.language? ≠ none) :
    job.shared units u = job.scores u := by
  refine scores_eq_of_content language_first (content_first hdigest hu) ?_
  rw [language_first]
  exact hknown

/-- The first unit's scores are each unit's own exactly when every content of no
known language has one path. -/
theorem shared_eq_scores_iff (hdigest : DigestsApart job.tools.digest units) :
    (∀ u ∈ units, job.shared units u = job.scores u) ↔ OnePath units := by
  constructor
  · intro h u hu v hv hul hvl hcontent
    have hkey : job.key u = job.key v := by
      rw [key, key, keyOf, keyOf, hul, hvl, hcontent]
    -- a refusal names the first unit's path, so that path is the unit's own
    have hpath : ∀ w ∈ units, w.language? = none →
        (job.first units w).id.path = w.id.path := by
      intro w hw hwl
      have hw' := h w hw
      rw [shared_of_unknown hwl, scores_of_unknown hwl] at hw'
      injection hw' with hw'
      injection hw' with hw'
      exact (String.append_right_inj _).mp hw'
    rw [← hpath u hu hul, ← hpath v hv hvl, first_congr hu hkey]
  · intro h u hu
    by_cases hul : u.language? = none
    · have hpath := h _ (first_mem hu) u hu (language_first.trans hul) hul
        (content_first hdigest hu)
      rw [shared_of_unknown hul, scores_of_unknown hul, hpath]
    · exact shared_of_known hdigest hu hul

/-! ## Where accounts differ -/

/-- Blocks of the same lengths are told apart by the whole. -/
theorem flatMap_inj_of_length {α β : Type} {f g : α → List β} :
    ∀ (l : List α), (∀ a ∈ l, (f a).length = (g a).length) → l.flatMap f = l.flatMap g →
      ∀ a ∈ l, f a = g a := by
  intro l
  induction l with
  | nil => exact fun _ _ a ha => absurd ha List.not_mem_nil
  | cons b l ih =>
    intro hlength h a ha
    rw [List.flatMap_cons, List.flatMap_cons] at h
    obtain ⟨hb, hl⟩ := List.append_inj h (hlength b (List.mem_cons_self ..))
    rcases List.mem_cons.mp ha with rfl | ha
    · exact hb
    · exact ih (fun c hc => hlength c (List.mem_cons_of_mem _ hc)) hl a ha

/-- Two results for a content: the same one, or two refusals. -/
def Alike (r r' : ContentScores) : Prop :=
  r = r' ∨ ∃ e e', r = .error e ∧ r' = .error e'

theorem units_outcomesOf {r r' : ContentScores} (h : Alike r r') (u : SourceUnit)
    (timestamp : Time.Instant) :
    ((outcomesOf u timestamp r).filterMap Outcome.failure?).map (·.unit) =
      ((outcomesOf u timestamp r').filterMap Outcome.failure?).map (·.unit) := by
  rcases h with rfl | ⟨e, e', rfl, rfl⟩ <;> rfl

theorem eq_of_failures_outcomesOf {r r' : ContentScores} (h : Alike r r') {u : SourceUnit}
    {timestamp : Time.Instant}
    (hfailures : (outcomesOf u timestamp r).filterMap Outcome.failure? =
      (outcomesOf u timestamp r').filterMap Outcome.failure?) : r = r' := by
  rcases h with rfl | ⟨e, e', rfl, rfl⟩
  · rfl
  · have hfailure : (⟨u.id, e⟩ : Failure) = ⟨u.id, e'⟩ := (List.cons.inj hfailures).1
    exact congrArg Except.error (congrArg Failure.error hfailure)

variable {s t : SourceUnit → ContentScores}

theorem failures_accountItem_ok (scores : SourceUnit → ContentScores) (index : Nat)
    (revision : Revision) :
    (job.accountItem scores index (.ok revision)).filterMap Outcome.failure? =
      failuresOf (job.results revision) ++ (unitsOf (job.results revision)).flatMap fun u =>
        (outcomesOf u revision.timestamp (scores u)).filterMap Outcome.failure? := by
  rw [accountItem, List.filterMap_append, List.filterMap_cons_none rfl, List.filterMap_map,
    List.filterMap_flatMap]
  have hfailed : (failuresOf (job.results revision)).filterMap
      (Outcome.failure? ∘ Outcome.failed) = failuresOf (job.results revision) := List.filterMap_some
  rw [hfailed]

theorem units_accountItem (index : Nat) (item : Except UnitError Revision)
    (h : ∀ u ∈ job.unitsIn [item], Alike (s u) (t u)) :
    ((job.accountItem s index item).filterMap Outcome.failure?).map (·.unit) =
      ((job.accountItem t index item).filterMap Outcome.failure?).map (·.unit) := by
  cases item with
  | error e => rfl
  | ok revision =>
    rw [failures_accountItem_ok, failures_accountItem_ok, List.map_append, List.map_append,
      List.map_flatMap, List.map_flatMap]
    refine congrArg _ (List.flatMap_congr ?_)
    intro u hu
    exact units_outcomesOf (h u (mem_unitsIn.mpr ⟨revision, List.mem_singleton_self _, hu⟩)) u _

/-- The failures of both accounts belong to the same units. -/
theorem units_account (index : Nat) (items : List (Except UnitError Revision))
    (h : ∀ u ∈ job.unitsIn items, Alike (s u) (t u)) :
    ((job.account s index items).filterMap Outcome.failure?).map (·.unit) =
      ((job.account t index items).filterMap Outcome.failure?).map (·.unit) := by
  rw [account, account, List.filterMap_flatMap, List.filterMap_flatMap, List.map_flatMap,
    List.map_flatMap]
  refine List.flatMap_congr ?_
  intro p hp
  exact units_accountItem p.2 p.1 fun u hu => h u (unitsIn_subset hp hu)

/-- Accounts with the same failures go by the same scores. -/
theorem eq_of_failures_account (index : Nat) (items : List (Except UnitError Revision))
    (h : ∀ u ∈ job.unitsIn items, Alike (s u) (t u))
    (hfailures : (job.account s index items).filterMap Outcome.failure? =
      (job.account t index items).filterMap Outcome.failure?) :
    ∀ u ∈ job.unitsIn items, s u = t u := by
  have hitem : ∀ p ∈ items.zipIdx index, ∀ u ∈ job.unitsIn [p.1], Alike (s u) (t u) :=
    fun p hp u hu => h u (unitsIn_subset hp hu)
  rw [account, account, List.filterMap_flatMap, List.filterMap_flatMap] at hfailures
  -- equal lists are taken apart by item and then by unit, as lengths agree
  have hitems := flatMap_inj_of_length _ (fun p hp => by
    have hunits := congrArg List.length (units_accountItem p.2 p.1 (hitem p hp))
    rwa [List.length_map, List.length_map] at hunits) hfailures
  intro u hu
  obtain ⟨revision, hrevision, hunit⟩ := mem_unitsIn.mp hu
  rw [← List.zipIdx_map_fst index items] at hrevision
  obtain ⟨⟨_, i⟩, hp, rfl⟩ := List.mem_map.mp hrevision
  have hrevisions := hitems _ hp
  dsimp only at hrevisions
  rw [failures_accountItem_ok, failures_accountItem_ok, List.append_cancel_left_eq] at hrevisions
  have hunits := flatMap_inj_of_length _ (fun v hv => by
    have hv := units_outcomesOf (hitem _ hp v
      (mem_unitsIn.mpr ⟨revision, List.mem_singleton_self _, hv⟩)) v revision.timestamp
    have hlength := congrArg List.length hv
    rwa [List.length_map, List.length_map] at hlength) hrevisions
  exact eq_of_failures_outcomesOf (h u hu) (hunits u hunit)

theorem announced_outcomesOf (u : SourceUnit) (timestamp : Time.Instant) (r : ContentScores) :
    (outcomesOf u timestamp r).filterMap Outcome.announced? = [] := by
  cases r with
  | error e => rfl
  | ok parts =>
    rw [List.filterMap_eq_nil_iff]
    intro o ho
    rw [outcomesOf] at ho
    split at ho
    · cases ho
    · obtain ⟨part, -, rfl⟩ := List.mem_map.mp ho
      cases part <;> rfl

/-- What is announced does not hang on scores. -/
theorem announced_account (scores : SourceUnit → ContentScores) (index : Nat)
    (items : List (Except UnitError Revision)) :
    Report.announced (job.account scores index items) =
      (items.zipIdx index).filterMap fun item => item.1.toOption.map fun r => (r.id, item.2) := by
  rw [Report.announced, account, List.filterMap_flatMap, List.filterMap_eq_flatMap_toList]
  refine List.flatMap_congr ?_
  rintro ⟨item, i⟩ -
  cases item with
  | error e => rfl
  | ok revision =>
    have hunits : ((unitsOf (job.results revision)).flatMap fun u =>
        outcomesOf u revision.timestamp (scores u)).filterMap Outcome.announced? = [] := by
      rw [List.filterMap_flatMap]
      refine List.flatMap_eq_nil_iff.mpr ?_
      intro u _
      exact announced_outcomesOf u revision.timestamp (scores u)
    have hfailures : ((failuresOf (job.results revision)).map Outcome.failed).filterMap
        Outcome.announced? = [] := by
      rw [List.filterMap_map]
      exact List.filterMap_eq_nil_iff.mpr fun _ _ => rfl
    have hrevision : (Outcome.revision i revision).announced? = some (revision.id, i) := rfl
    dsimp only
    rw [accountItem, List.filterMap_append, List.filterMap_cons_some hrevision, hfailures, hunits]
    rfl

end Job

end Readability.Run

namespace Readability.Report.Aggregator

open Readability.History (WalkOrder)

/-- Sorted failures tell the failures, when units and places are known. -/
theorem failures_eq_of_sortedFailures_eq {order : WalkOrder} {l₁ l₂ : List Outcome}
    (hannounced : announced l₁ = announced l₂)
    (hunits : (l₁.filterMap Outcome.failure?).map (·.unit) =
      (l₂.filterMap Outcome.failure?).map (·.unit))
    (hsorted : (collect order l₁).sortedFailures = (collect order l₂).sortedFailures) :
    l₁.filterMap Outcome.failure? = l₂.filterMap Outcome.failure? := by
  have hplace : (collect order l₂).sortPlace = (collect order l₁).sortPlace := by
    funext revision
    rw [sortPlace, sortPlace, place?, place?, collect_places, collect_places, hannounced]
  have hcompare : (collect order l₂).compareFailures = (collect order l₁).compareFailures := by
    funext f g
    rw [compareFailures, compareFailures, hplace]
  rw [sortedFailures, sortedFailures, hcompare, collect_failures, collect_failures] at hsorted
  refine Sorting.eq_of_mergeSort_eq (fun f => f.unit) ?_ hunits hsorted
  intro f g f' g' hf hg
  rw [compareFailures, compareFailures, hf, hg]

end Readability.Report.Aggregator

namespace Readability.Run.Job

open Readability.History (Revision)
open Readability.Report (Aggregator Outcome)
open Readability.Source (SourceUnit UnitError)

variable {job : Job}

/-- A run with a report tells its failures. -/
theorem failures_eq_of_verdict_eq {l₁ l₂ : List Outcome} {runId : String} {now : Time.Instant}
    {isPartial : Bool} (hannounced : Report.announced l₁ = Report.announced l₂)
    (hunits : (l₁.filterMap Outcome.failure?).map (·.unit) =
      (l₂.filterMap Outcome.failure?).map (·.unit))
    (hmodel : (Aggregator.collect job.options.order l₁).allMismatched = false)
    (hverdict : job.verdict l₁ isPartial runId now = job.verdict l₂ isPartial runId now) :
    l₁.filterMap Outcome.failure? = l₂.filterMap Outcome.failure? := by
  simp only [verdict] at hverdict
  rw [hmodel, if_neg Bool.false_ne_true] at hverdict
  split at hverdict
  · cases hverdict
  · injection hverdict with hreport
    exact Aggregator.failures_eq_of_sortedFailures_eq hannounced hunits
      (congrArg Report.failures hreport)

/-- The units of the revisions that a run was done with. -/
def scoredUnits (job : Job) (runId : String) (now : Time.Instant) : List SourceUnit :=
  (job.run runId now).2.progress.flatMap fun done => unitsOf (job.results done.1)

theorem scoredUnits_eq {items : List (Except UnitError Revision)} {k : Nat} {runId : String}
    {now : Time.Instant} (h : Tells job job.sharing .empty items k runId now (job.run runId now)) :
    job.scoredUnits runId now = job.unitsIn (items.take k) := by
  rw [scoredUnits, h.progress, unitsIn]
  conv_rhs => rw [← List.zipIdx_map_fst 1 (revisionsOf (items.take k)), List.flatMap_map]

/-- What the scores of a unit say of it is part of the account. -/
theorem mem_account {scores : SourceUnit → ContentScores} {index : Nat}
    {items : List (Except UnitError Revision)} {revision : Revision} (hitem : .ok revision ∈ items)
    {u : SourceUnit} (hu : u ∈ unitsOf (job.results revision)) {o : Outcome}
    (ho : o ∈ outcomesOf u revision.timestamp (scores u)) : o ∈ job.account scores index items := by
  rw [← List.zipIdx_map_fst index items] at hitem
  obtain ⟨⟨_, i⟩, hp, rfl⟩ := List.mem_map.mp hitem
  refine List.mem_flatMap.mpr ⟨_, hp, ?_⟩
  exact List.mem_append_right _ (List.mem_flatMap.mpr ⟨u, hu, ho⟩)

/-- A refusal that is no mismatch keeps the model from being blamed. -/
theorem allMismatched_account_eq_false {scores : SourceUnit → ContentScores} {index : Nat}
    {items : List (Except UnitError Revision)} {u : SourceUnit} (hu : u ∈ job.unitsIn items)
    {e : UnitError} (hscores : scores u = .error e) (he : e.isMismatch = false) :
    (Aggregator.collect job.options.order (job.account scores index items)).allMismatched =
      false := by
  obtain ⟨revision, hrevision, hunit⟩ := mem_unitsIn.mp hu
  have hmem : Outcome.failed ⟨u.id, e⟩ ∈ job.account scores index items := by
    refine mem_account hrevision hunit ?_
    rw [hscores]
    exact List.mem_singleton_self _
  rw [Aggregator.allMismatched, Aggregator.collect_failures, Bool.and_eq_false_iff]
  refine .inr (List.all_eq_false.mpr ⟨⟨u.id, e⟩, Aggregator.mem_failures.mpr hmem, ?_⟩)
  rw [he]
  exact Bool.false_ne_true

/-- Shared scores and own ones account for the same failures only if they are
the same. -/
theorem account_eq_iff {items : List (Except UnitError Revision)}
    (hdigest : DigestsApart job.tools.digest (job.unitsIn items)) {isPartial : Bool}
    {runId : String} {now : Time.Instant} :
    let shared := job.account (job.shared (job.unitsIn items)) 0 items
    let own := job.account job.scores 0 items
    (shared = own ↔ OnePath (job.unitsIn items)) ∧
      (job.verdict shared isPartial runId now = job.verdict own isPartial runId now ↔
        OnePath (job.unitsIn items)) := by
  intro shared own
  -- only contents of no known language can be told another's scores
  have halike : ∀ u ∈ job.unitsIn items,
      Alike (job.shared (job.unitsIn items) u) (job.scores u) := by
    intro u hu
    by_cases hul : u.language? = none
    · exact .inr ⟨_, _, shared_of_unknown hul, scores_of_unknown hul⟩
    · exact .inl (shared_of_known hdigest hu hul)
  have hback : OnePath (job.unitsIn items) → shared = own := fun h =>
    account_congr 0 items ((shared_eq_scores_iff hdigest).mpr h)
  have hforth : shared.filterMap Outcome.failure? = own.filterMap Outcome.failure? →
      OnePath (job.unitsIn items) := fun h =>
    (shared_eq_scores_iff hdigest).mp (eq_of_failures_account 0 items halike h)
  refine ⟨⟨fun h => hforth (by rw [h]), hback⟩, ?_, fun h => by rw [hback h]⟩
  intro hverdict u hu v hv hul hvl
  -- a refusal is no mismatch, so there are reports to compare
  have hmodel : (Aggregator.collect job.options.order shared).allMismatched = false :=
    allMismatched_account_eq_false hu (shared_of_unknown hul) rfl
  exact hforth (failures_eq_of_verdict_eq
    ((announced_account _ 0 items).trans (announced_account _ 0 items).symm)
    (units_account 0 items halike) hmodel hverdict) u hu v hv hul hvl

/-- **Sharing scores changes a run exactly when a content of no known language
goes by several paths.** -/
theorem run_eq_runAfresh_iff (job : Job) (runId : String) (now : Time.Instant)
    (hdigest : DigestsApart job.tools.digest (job.scoredUnits runId now)) :
    ((job.run runId now).2.outcomes = (job.runAfresh runId now).2.outcomes ↔
        OnePath (job.scoredUnits runId now)) ∧
      ((job.run runId now).1 = (job.runAfresh runId now).1 ↔
        OnePath (job.scoredUnits runId now)) := by
  have hnone : OnePath [] := fun u hu => absurd hu List.not_mem_nil
  rcases hgap : job.model.schemaGap? Feature.schema Feature.names with _ | gap
  · rcases hwalk : job.history.walk job.options.range job.options.order with e | items
    · have hrun : job.run runId now = job.runAfresh runId now :=
        (runBy_of_no_walk hgap hwalk).trans (runBy_of_no_walk hgap hwalk).symm
      have hunits : job.scoredUnits runId now = [] := by
        rw [scoredUnits, run, runOn, runBy_of_no_walk hgap hwalk]
        rfl
      rw [hrun, hunits]
      exact ⟨iff_of_true rfl hnone, iff_of_true rfl hnone⟩
    · obtain ⟨k, -, htells⟩ := runBy_tells hgap hwalk runId now
      have hshared := htells job.sharing .empty
      have hown := htells job.afresh .empty
      have hunits : job.scoredUnits runId now = job.unitsIn (items.take k) :=
        scoredUnits_eq hshared
      rw [hunits] at hdigest ⊢
      rw [run, runOn, runAfresh, hshared.outcomes, hown.outcomes, hshared.verdict, hown.verdict,
        tellItems_new, tellItems_afresh]
      exact account_eq_iff hdigest
  · have hrun : job.run runId now = job.runAfresh runId now :=
      (runBy_of_gap hgap).trans (runBy_of_gap hgap).symm
    have hunits : job.scoredUnits runId now = [] := by
      rw [scoredUnits, run, runOn, runBy_of_gap hgap]
      rfl
    rw [hrun, hunits]
    exact ⟨iff_of_true rfl hnone, iff_of_true rfl hnone⟩

/-! ## Two runs -/

/-- A model of what is measured. -/
def sampleModel : Model :=
  ⟨Model.formatTag, 1, Feature.schema, .linear, 0, .unit, .thirds,
    Feature.names.map fun name => ⟨name, 0, none⟩, "sample"⟩

theorem sampleModel_gap : sampleModel.schemaGap? Feature.schema Feature.names = none := by
  decide

/-- A run over a history in which all changed files are read. -/
def sampleJob (memory : History.Memory) : Job :=
  ⟨memory.toHistory, ⟨.whole, .chronological, .file, false, true⟩, fun _ => true, .never,
    ⟨fun _ _ => none, .of⟩, sampleModel⟩

/-- A text that stays, and blank programs of two names. -/
def keptJob : Job :=
  sampleJob ((History.Memory.empty.commit "r1" .epoch
    [⟨"a.txt", some "abc".toUTF8⟩, ⟨"m.py", some "".toUTF8⟩]).commit "r2" .epoch
    [⟨"a.txt", some "abc".toUTF8⟩, ⟨"n.py", some "".toUTF8⟩])

theorem run_eq_runAfresh_kept :
    DigestsApart .of (keptJob.scoredUnits "" .epoch) ∧
      (keptJob.scoredUnits "" .epoch).length = 4 ∧
      (keptJob.run "" .epoch).1 = (keptJob.runAfresh "" .epoch).1 := by
  have hdigest : DigestsApart keptJob.tools.digest (keptJob.scoredUnits "" .epoch) := by
    unfold DigestsApart
    decide
  have hpath : OnePath (keptJob.scoredUnits "" .epoch) := by
    unfold OnePath
    decide
  exact ⟨hdigest, by decide, (run_eq_runAfresh_iff keptJob "" .epoch hdigest).2.mpr hpath⟩

/-- A text that is found again under another name. -/
def copiedJob : Job :=
  sampleJob ((History.Memory.empty.commit "r1" .epoch [⟨"a.txt", some "abc".toUTF8⟩]).commit
    "r2" .epoch [⟨"b.txt", some "abc".toUTF8⟩])

/-- The second refusal names the first file, and it does so in the report. -/
theorem run_ne_runAfresh_copied :
    (copiedJob.run "" .epoch).2.outcomes.filterMap Outcome.failure? =
        [⟨.file "a.txt" "r1", .parse "unsupported language for a.txt"⟩,
          ⟨.file "b.txt" "r2", .parse "unsupported language for a.txt"⟩] ∧
      (copiedJob.runAfresh "" .epoch).2.outcomes.filterMap Outcome.failure? =
        [⟨.file "a.txt" "r1", .parse "unsupported language for a.txt"⟩,
          ⟨.file "b.txt" "r2", .parse "unsupported language for b.txt"⟩] ∧
      (copiedJob.run "" .epoch).1 ≠ (copiedJob.runAfresh "" .epoch).1 := by
  have hshared : (copiedJob.run "" .epoch).2.outcomes.filterMap Outcome.failure? =
      [⟨.file "a.txt" "r1", .parse "unsupported language for a.txt"⟩,
        ⟨.file "b.txt" "r2", .parse "unsupported language for a.txt"⟩] := by
    decide
  have hown : (copiedJob.runAfresh "" .epoch).2.outcomes.filterMap Outcome.failure? =
      [⟨.file "a.txt" "r1", .parse "unsupported language for a.txt"⟩,
        ⟨.file "b.txt" "r2", .parse "unsupported language for b.txt"⟩] := by
    decide
  refine ⟨hshared, hown, ?_⟩
  intro hsame
  obtain ⟨report, hreport⟩ : ∃ report, (copiedJob.run "" .epoch).1 = .ok report := ⟨_, rfl⟩
  have hfailures := (failures_perm hreport).symm.trans (failures_perm (hsame.symm.trans hreport))
  rw [run, runOn] at hshared
  rw [runAfresh] at hown
  rw [hshared, hown] at hfailures
  exact absurd hfailures (by decide)

end Readability.Run.Job
