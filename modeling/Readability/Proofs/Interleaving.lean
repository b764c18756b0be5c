import Mathlib.Data.List.Dedup
import Mathlib.Data.List.Induction
import Readability.Run.Cache

/-!
# Calls that share a store

Scores are asked for by many workers at once. A call looks up its key, and where it finds nothing it
computes a value and offers it to the store, which keeps the first one. Between the two steps
others may look up and offer as well, so several calls may compute a value for one key. What was
offered for which key, and in which order, is noted down (`Session.offered`).

One step can do four things (`Moves`), and all of them keep the store in line with what was offered
(`Coherent`): under each key it holds the first value that was offered for it, and every call so far
was a hit, has offered a value or is still on its way.

Main statement: `run_shares`. However the steps of some calls are mixed, calls for one key return
one value, the first that was offered, and in the end hits and offers add up to the calls. Calls
that run one after the other offer one value for each key.
-/

namespace Readability.Run.Cache

/-! ## The store -/

section Store

variable {κ α : Type} [BEq κ]

theorem getOrCompute_of_some {c : Cache κ α} {key : κ} {value : α} (h : c.get? key = some value)
    (compute : Unit → α) :
    c.getOrCompute key compute = (value, { c with hits := c.hits + 1 }) := by
  rw [getOrCompute, lookup, h]

theorem getOrCompute_of_none {c : Cache κ α} {key : κ} (h : c.get? key = none)
    (compute : Unit → α) :
    c.getOrCompute key compute =
      (compute (), { c with entries := c.entries ++ [(key, compute ())] }) := by
  rw [getOrCompute, lookup, h]
  dsimp only
  rw [insertIfAbsent, h]

theorem get?_append (c : Cache κ α) (key : κ) (value : α) (k : κ) :
    get? { c with entries := c.entries ++ [(key, value)] } k =
      (c.get? k).or (if key == k then some value else none) := by
  rw [get?, get?, List.find?_append, Option.map_or]
  by_cases h : (key == k) = true <;> simp [h]

theorem insertIfAbsent_of_some {c : Cache κ α} {key : κ} {stored : α} (h : c.get? key = some stored)
    (value : α) : c.insertIfAbsent key value = (stored, c) := by
  rw [insertIfAbsent, h]

theorem insertIfAbsent_of_none {c : Cache κ α} {key : κ} (h : c.get? key = none) (value : α) :
    c.insertIfAbsent key value = (value, { c with entries := c.entries ++ [(key, value)] }) := by
  rw [insertIfAbsent, h]

theorem hits_insertIfAbsent (c : Cache κ α) (key : κ) (value : α) :
    (c.insertIfAbsent key value).2.hits = c.hits := by
  rw [insertIfAbsent]
  split <;> rfl

variable [LawfulBEq κ]

/-- A key has an entry when something is found under it. -/
theorem mem_keys {c : Cache κ α} {key : κ} :
    key ∈ c.entries.map (·.1) ↔ ∃ value, c.get? key = some value := by
  rw [get?, ← Option.isSome_iff_exists, Option.isSome_map, List.find?_isSome, List.mem_map]
  simp only [beq_iff_eq]

/-- What is stored stays; a key without a value gets the one that is offered. -/
theorem get?_insertIfAbsent (c : Cache κ α) (key : κ) (value : α) (k : κ) :
    (c.insertIfAbsent key value).2.get? k =
      (c.get? k).or (if key == k then some value else none) := by
  rcases hget : c.get? key with _ | stored
  · rw [insertIfAbsent_of_none hget, get?_append]
  · rw [insertIfAbsent_of_some hget]
    by_cases hk : key = k
    · rw [← hk, hget]
      rfl
    · rw [if_neg (mt beq_iff_eq.mp hk), Option.or_none]

/-- What the caller gets is what is stored then. -/
theorem get?_insertIfAbsent_self (c : Cache κ α) (key : κ) (value : α) :
    (c.insertIfAbsent key value).2.get? key = some (c.insertIfAbsent key value).1 := by
  rw [get?_insertIfAbsent, if_pos (beq_self_eq_true key)]
  rcases hget : c.get? key with _ | stored
  · rw [insertIfAbsent_of_none hget]
    rfl
  · rw [insertIfAbsent_of_some hget]
    rfl

theorem nodup_insertIfAbsent {c : Cache κ α} (h : (c.entries.map (·.1)).Nodup) (key : κ)
    (value : α) : ((c.insertIfAbsent key value).2.entries.map (·.1)).Nodup := by
  rcases hget : c.get? key with _ | stored
  · have hnew : key ∉ c.entries.map (·.1) := by
      rw [mem_keys, hget]
      exact fun ⟨_, hsome⟩ => nomatch hsome
    rw [insertIfAbsent_of_none hget, List.map_append, List.map_singleton, List.nodup_append_comm]
    exact List.nodup_cons.mpr ⟨hnew, h⟩
  · rwa [insertIfAbsent_of_some hget]

end Store

/-! ## Calls and their steps -/

/-- How far a call is. -/
inductive Progress (α : Type) where
  | waiting
  /-- It found nothing and computes a value. -/
  | missed
  | returned (value : α)
deriving DecidableEq

/-- Whether a call is still on its way. -/
def Progress.isOpen {α : Type} : Progress α → Bool
  | .waiting => true
  | .missed => true
  | .returned _ => false

/-- How many steps a call still has to take, at most. -/
def Progress.left {α : Type} : Progress α → Nat
  | .waiting => 2
  | .missed => 1
  | .returned _ => 0

/-- A call for a key, and the value that it computes if it has to. -/
structure Call (κ α : Type) where
  key : κ
  computes : α
  progress : Progress α
deriving DecidableEq

section Set

variable {κ α : Type} {calls : List (Call κ α)} {i : Nat} {call : Call κ α}
  (hcall : calls[i]? = some call) (progress : Progress α)
include hcall

theorem getElem?_set_call :
    (calls.set i { call with progress })[i]? = some { call with progress } := by
  obtain ⟨hi, -⟩ := List.getElem?_eq_some_iff.mp hcall
  exact List.getElem?_set_self hi

/-- A step changes neither the key of a call nor the value that it computes. -/
theorem map_set_call : (calls.set i { call with progress }).map
    (fun call => (call.key, call.computes)) = calls.map fun call => (call.key, call.computes) := by
  obtain ⟨hi, -⟩ := List.getElem?_eq_some_iff.mp hcall
  refine List.ext_getElem? fun j => ?_
  rw [List.map_set, List.getElem?_set, List.length_map]
  split_ifs with hj
  · rw [← hj, List.getElem?_map, hcall]
    rfl
  · rfl

theorem countP_set_call (hopen : call.progress.isOpen = true) :
    (calls.set i { call with progress }).countP (·.progress.isOpen) + 1 =
      calls.countP (·.progress.isOpen) + progress.isOpen.toNat := by
  have hpos : 0 < calls.countP (·.progress.isOpen) :=
    List.countP_pos_iff.mpr ⟨call, List.mem_of_getElem? hcall, hopen⟩
  obtain ⟨hi, rfl⟩ := List.getElem?_eq_some_iff.mp hcall
  rw [List.countP_set hi, if_pos hopen]
  rcases progress.isOpen with _ | _
  · exact Nat.sub_add_cancel hpos
  · exact congrArg (· + 1) (Nat.sub_add_cancel hpos)

/-- A call that comes nearer to its end leaves the others where they are. -/
theorem left_set_call (hless : progress.left + 1 ≤ call.progress.left) {j : Nat} {other : Call κ α}
    (hother : (calls.set i { call with progress })[j]? = some other) :
    ∃ before, calls[j]? = some before ∧
      other.progress.left ≤ before.progress.left - if i = j then 1 else 0 := by
  by_cases hj : i = j
  · subst hj
    rw [getElem?_set_call hcall] at hother
    cases hother
    rw [if_pos rfl]
    exact ⟨call, hcall, Nat.le_sub_of_add_le hless⟩
  · rw [List.getElem?_set_ne hj] at hother
    rw [if_neg hj]
    exact ⟨other, hother, Nat.le_refl _⟩

end Set

/-- Calls on one store, and the values that were offered to it, the first one first. -/
structure Session (κ α : Type) where
  cache : Cache κ α
  calls : List (Call κ α)
  offered : List (κ × α)

namespace Session

variable {κ α : Type} [DecidableEq κ]

/-- Calls for some keys, none of which has taken a step. -/
def start (asked : List (κ × α)) : Session κ α :=
  ⟨.empty, asked.map fun a => ⟨a.1, a.2, .waiting⟩, []⟩

/-- A call takes its next step: it looks up its key, or offers what it computed. -/
def step (s : Session κ α) (i : Nat) : Session κ α :=
  match s.calls[i]? with
  | none => s
  | some call =>
    match call.progress with
    | .waiting =>
      match s.cache.lookup call.key with
      | (some value, cache) =>
        ⟨cache, s.calls.set i { call with progress := .returned value }, s.offered⟩
      | (none, cache) => ⟨cache, s.calls.set i { call with progress := .missed }, s.offered⟩
    | .missed =>
      let (value, cache) := s.cache.insertIfAbsent call.key call.computes
      ⟨cache, s.calls.set i { call with progress := .returned value },
        s.offered ++ [(call.key, call.computes)]⟩
    | .returned _ => s

/-- The calls after they took their steps in some order. -/
def run (asked : List (κ × α)) (schedule : List Nat) : Session κ α :=
  schedule.foldl step (start asked)

/-- All calls have returned. -/
def Finished (s : Session κ α) : Prop :=
  ∀ call ∈ s.calls, ∃ value, call.progress = .returned value

/-- What the next step of a call can do. -/
inductive Moves (s : Session κ α) (i : Nat) : Session κ α → Prop
  | idle (h : ∀ call, s.calls[i]? = some call → ∃ value, call.progress = .returned value) :
      Moves s i s
  | found {call : Call κ α} {value : α} (hcall : s.calls[i]? = some call)
      (hwaiting : call.progress = .waiting) (hget : s.cache.get? call.key = some value) :
      Moves s i ⟨{ s.cache with hits := s.cache.hits + 1 },
        s.calls.set i { call with progress := .returned value }, s.offered⟩
  | missed {call : Call κ α} (hcall : s.calls[i]? = some call) (hwaiting : call.progress = .waiting)
      (hget : s.cache.get? call.key = none) :
      Moves s i ⟨s.cache, s.calls.set i { call with progress := .missed }, s.offered⟩
  | offered {call : Call κ α} (hcall : s.calls[i]? = some call)
      (hmissed : call.progress = .missed) :
      Moves s i ⟨(s.cache.insertIfAbsent call.key call.computes).2,
        s.calls.set i
          { call with progress := .returned (s.cache.insertIfAbsent call.key call.computes).1 },
        s.offered ++ [(call.key, call.computes)]⟩

section Step

variable {s : Session κ α} {i : Nat} {call : Call κ α}

theorem step_found {value : α} (hcall : s.calls[i]? = some call)
    (hwaiting : call.progress = .waiting) (hget : s.cache.get? call.key = some value) :
    s.step i = ⟨{ s.cache with hits := s.cache.hits + 1 },
      s.calls.set i { call with progress := .returned value }, s.offered⟩ := by
  rw [step, hcall]
  simp only [hwaiting, lookup, hget]

theorem step_missed (hcall : s.calls[i]? = some call) (hwaiting : call.progress = .waiting)
    (hget : s.cache.get? call.key = none) :
    s.step i = ⟨s.cache, s.calls.set i { call with progress := .missed }, s.offered⟩ := by
  rw [step, hcall]
  simp only [hwaiting, lookup, hget]

theorem step_offered (hcall : s.calls[i]? = some call) (hmissed : call.progress = .missed) :
    s.step i = ⟨(s.cache.insertIfAbsent call.key call.computes).2,
      s.calls.set i
        { call with progress := .returned (s.cache.insertIfAbsent call.key call.computes).1 },
      s.offered ++ [(call.key, call.computes)]⟩ := by
  rw [step, hcall]
  simp only [hmissed]

theorem step_idle {value : α} (hcall : s.calls[i]? = some call)
    (hreturned : call.progress = .returned value) : s.step i = s := by
  rw [step, hcall]
  simp only [hreturned]

/-- A call can do no other than these four things. -/
theorem moves_step (s : Session κ α) (i : Nat) : Moves s i (s.step i) := by
  rcases hcall : s.calls[i]? with _ | call
  · rw [step, hcall]
    exact .idle fun call h => absurd (hcall.symm.trans h) (Option.some_ne_none call).symm
  · rcases hprogress : call.progress with _ | _ | value
    · rcases hget : s.cache.get? call.key with _ | value
      · rw [step_missed hcall hprogress hget]
        exact .missed hcall hprogress hget
      · rw [step_found hcall hprogress hget]
        exact .found hcall hprogress hget
    · rw [step_offered hcall hprogress]
      exact .offered hcall hprogress
    · rw [step_idle hcall hprogress]
      refine .idle fun other h => ⟨value, ?_⟩
      cases hcall.symm.trans h
      exact hprogress

/-- **A call that takes its two steps at once is one use of the store.** -/
theorem step_step (hcall : s.calls[i]? = some call) (hwaiting : call.progress = .waiting) :
    (s.step i).step i =
      ⟨(s.cache.getOrCompute call.key fun _ => call.computes).2,
        s.calls.set i { call with
          progress := .returned (s.cache.getOrCompute call.key fun _ => call.computes).1 },
        s.offered ++ if s.cache.get? call.key = none then [(call.key, call.computes)] else []⟩ := by
  rcases hget : s.cache.get? call.key with _ | value
  · rw [step_missed hcall hwaiting hget, step_offered (getElem?_set_call hcall _) rfl]
    rw [getOrCompute_of_none hget, insertIfAbsent_of_none hget, List.set_set,
      if_pos rfl]
  · rw [step_found hcall hwaiting hget, step_idle (getElem?_set_call hcall _) rfl]
    rw [getOrCompute_of_some hget, if_neg (Option.some_ne_none value), List.append_nil]

end Step

/-! ## What every step keeps -/

/-- An entry that is stored stays, whatever step comes next. -/
theorem get?_step {s t : Session κ α} {i : Nat} (hmoves : Moves s i t) {key : κ} {value : α}
    (hget : s.cache.get? key = some value) : t.cache.get? key = some value := by
  cases hmoves with
  | idle => exact hget
  | found => exact hget
  | missed => exact hget
  | offered =>
    dsimp only
    rw [get?_insertIfAbsent, hget]
    rfl

/-- A store in line with the calls on it: it holds for each key what was offered first, a call that
has returned has what is stored, and every call is counted once. -/
structure Coherent (asked : List (κ × α)) (s : Session κ α) : Prop where
  calls : s.calls.map (fun call => (call.key, call.computes)) = asked
  offers : s.offered ⊆ asked
  first : ∀ key, s.cache.get? key = (s.offered.find? fun offer => offer.1 == key).map (·.2)
  nodup : (s.cache.entries.map (·.1)).Nodup
  returned : ∀ call ∈ s.calls, ∀ value, call.progress = .returned value →
    s.cache.get? call.key = some value
  counted : s.cache.hits + s.offered.length + s.calls.countP (·.progress.isOpen) = asked.length

theorem coherent_start (asked : List (κ × α)) : Coherent asked (start asked) where
  calls := by
    rw [start, List.map_map]
    exact List.map_id asked
  offers := List.nil_subset asked
  first := fun _ => rfl
  nodup := List.nodup_nil
  returned := by
    intro call hcall value hreturned
    obtain ⟨a, -, rfl⟩ := List.mem_map.mp hcall
    cases hreturned
  counted := by
    have hall : (start asked).calls.countP (·.progress.isOpen) = asked.length := by
      rw [start, List.countP_map, List.countP_eq_length]
      exact fun _ _ => rfl
    rw [hall]
    exact Nat.zero_add _

theorem Coherent.mem_asked {asked : List (κ × α)} {s : Session κ α} (h : Coherent asked s)
    {call : Call κ α} (hcall : call ∈ s.calls) : (call.key, call.computes) ∈ asked := by
  rw [← h.calls]
  exact List.mem_map_of_mem hcall

/-- Calls that have returned have what is stored, also after one more of them has returned. -/
theorem Coherent.returned_set {asked : List (κ × α)} {s : Session κ α} (h : Coherent asked s)
    {cache : Cache κ α}
    (hkept : ∀ {key value}, s.cache.get? key = some value → cache.get? key = some value) (i : Nat)
    {call : Call κ α}
    (hcall : ∀ value, call.progress = .returned value → cache.get? call.key = some value) :
    ∀ other ∈ s.calls.set i call, ∀ value, other.progress = .returned value →
      cache.get? other.key = some value := by
  intro other hother value hvalue
  rcases List.mem_or_eq_of_mem_set hother with hold | rfl
  · exact hkept (h.returned other hold value hvalue)
  · exact hcall value hvalue

/-- **A step keeps the store in line with its calls.** -/
theorem Coherent.moves {asked : List (κ × α)} {s t : Session κ α} {i : Nat} (h : Coherent asked s)
    (hmoves : Moves s i t) : Coherent asked t := by
  have hkept : ∀ {key value}, s.cache.get? key = some value → t.cache.get? key = some value :=
    get?_step hmoves
  cases hmoves with
  | idle => exact h
  | @found call value hcall hwaiting hget =>
    refine ⟨(map_set_call hcall _).trans h.calls, h.offers, h.first, h.nodup, ?_, ?_⟩
    · refine h.returned_set hkept i fun result hresult => ?_
      cases hresult
      exact hget
    · have hcount : _ + 1 = s.calls.countP (·.progress.isOpen) + 0 :=
        countP_set_call hcall (.returned value) (by rw [hwaiting]; rfl)
      have hcounted := h.counted
      dsimp only
      omega
  | @missed call hcall hwaiting hget =>
    refine ⟨(map_set_call hcall _).trans h.calls, h.offers, h.first, h.nodup, ?_, ?_⟩
    · exact h.returned_set hkept i fun _ hresult => nomatch hresult
    · have hcount : _ + 1 = s.calls.countP (·.progress.isOpen) + 1 :=
        countP_set_call hcall .missed (by rw [hwaiting]; rfl)
      have hcounted := h.counted
      dsimp only
      omega
  | @offered call hcall hmissed =>
    have hasked := h.mem_asked (List.mem_of_getElem? hcall)
    refine ⟨(map_set_call hcall _).trans h.calls, ?_, fun key => ?_,
      nodup_insertIfAbsent h.nodup _ _, ?_, ?_⟩
    · exact List.append_subset.mpr ⟨h.offers, List.cons_subset.mpr ⟨hasked, List.nil_subset _⟩⟩
    · rw [get?_insertIfAbsent, h.first, List.find?_append, Option.map_or, List.find?_singleton]
      split_ifs with hkey
      · rfl
      · rfl
    · refine h.returned_set hkept i fun result hresult => ?_
      cases hresult
      exact get?_insertIfAbsent_self _ _ _
    · have hcount : _ + 1 = s.calls.countP (·.progress.isOpen) + 0 := countP_set_call hcall
        (.returned (s.cache.insertIfAbsent call.key call.computes).1) (by rw [hmissed]; rfl)
      have hcounted := h.counted
      dsimp only
      rw [hits_insertIfAbsent, List.length_append, List.length_singleton]
      omega

theorem run_append (asked : List (κ × α)) (schedule more : List Nat) :
    run asked (schedule ++ more) = more.foldl step (run asked schedule) :=
  List.foldl_append

theorem run_concat (asked : List (κ × α)) (schedule : List Nat) (i : Nat) :
    run asked (schedule ++ [i]) = (run asked schedule).step i :=
  run_append asked schedule [i]

theorem coherent_run (asked : List (κ × α)) (schedule : List Nat) :
    Coherent asked (run asked schedule) := by
  induction schedule using List.reverseRecOn with
  | nil => exact coherent_start asked
  | append_singleton schedule i ih =>
    rw [run_concat]
    exact ih.moves (moves_step _ i)

/-! ## How far calls get -/

/-- With each of its steps a call comes nearer to its end. -/
theorem left_step {s t : Session κ α} {i j : Nat} (hmoves : Moves s i t) {call : Call κ α}
    (hcall : t.calls[j]? = some call) : ∃ before, s.calls[j]? = some before ∧
      call.progress.left ≤ before.progress.left - if i = j then 1 else 0 := by
  cases hmoves with
  | idle hreturned =>
    refine ⟨call, hcall, ?_⟩
    split_ifs with hj
    · rw [hj] at hreturned
      obtain ⟨value, hvalue⟩ := hreturned call hcall
      rw [hvalue]
      exact Nat.le_refl 0
    · exact Nat.le_refl _
  | found hbefore hwaiting =>
    exact left_set_call hbefore _ (by rw [hwaiting]; exact Nat.le_succ 1) hcall
  | missed hbefore hwaiting =>
    exact left_set_call hbefore _ (by rw [hwaiting]; exact Nat.le_refl 2) hcall
  | offered hbefore hmissed =>
    exact left_set_call hbefore _ (by rw [hmissed]; exact Nat.le_refl 1) hcall

theorem left_run (asked : List (κ × α)) (schedule : List Nat) {j : Nat} {call : Call κ α}
    (hcall : (run asked schedule).calls[j]? = some call) :
    call.progress.left ≤ 2 - schedule.count j := by
  induction schedule using List.reverseRecOn generalizing call with
  | nil =>
    obtain ⟨a, -, rfl⟩ := List.mem_map.mp (List.mem_of_getElem? hcall)
    exact Nat.le_refl 2
  | append_singleton schedule i ih =>
    rw [run_concat] at hcall
    obtain ⟨before, hbefore, hless⟩ := left_step (moves_step _ i) hcall
    have hstart := ih hbefore
    rw [List.count_append, List.count_singleton]
    simp only [beq_iff_eq]
    omega

/-- **Calls that all took two steps have returned, in whatever order they took them.** -/
theorem finished_of_count {asked : List (κ × α)} {schedule : List Nat}
    (h : ∀ i < asked.length, 2 ≤ schedule.count i) : (run asked schedule).Finished := by
  intro call hmem
  obtain ⟨j, hcall⟩ := List.mem_iff_getElem?.mp hmem
  have hj : j < asked.length := by
    rw [← (coherent_run asked schedule).calls, List.length_map]
    exact (List.getElem?_eq_some_iff.mp hcall).1
  have hleft := left_run asked schedule hcall
  have hcount := h j hj
  rcases hprogress : call.progress with _ | _ | value
  · rw [hprogress, Progress.left] at hleft
    omega
  · rw [hprogress, Progress.left] at hleft
    omega
  · exact ⟨value, rfl⟩

/-! ## One call after the other -/

/-- The steps of calls of which each one returns before the next one begins. -/
def oneByOne (order : List Nat) : List Nat :=
  order.flatMap fun i => [i, i]

theorem two_le_count_oneByOne {order : List Nat} {i : Nat} (h : i ∈ order) :
    2 ≤ (oneByOne order).count i := by
  obtain ⟨before, after, rfl⟩ := List.append_of_mem h
  rw [oneByOne, List.flatMap_append, List.flatMap_cons, List.count_append, List.count_append]
  have htwo : [i, i].count i = 2 := by simp
  omega

theorem Coherent.mem_offered_keys {asked : List (κ × α)} {s : Session κ α} (h : Coherent asked s)
    {key : κ} : key ∈ s.offered.map (·.1) ↔ ∃ value, s.cache.get? key = some value := by
  rw [h.first, ← Option.isSome_iff_exists, Option.isSome_map, List.find?_isSome, List.mem_map]
  simp only [beq_iff_eq]

/-- No call is between its steps, and no key was offered twice. -/
structure Settled (s : Session κ α) : Prop where
  between : ∀ call ∈ s.calls, call.progress ≠ .missed
  offered : (s.offered.map (·.1)).Nodup

/-- A call that takes its two steps at once offers a value only for a new key. -/
theorem Settled.step_step {asked : List (κ × α)} {s : Session κ α} (hs : Coherent asked s)
    (h : Settled s) (i : Nat) : Settled ((s.step i).step i) := by
  rcases hcall : s.calls[i]? with _ | call
  · have hidle : s.step i = s := by rw [step, hcall]
    rwa [hidle, hidle]
  · rcases hprogress : call.progress with _ | _ | value
    · rw [Session.step_step hcall hprogress]
      refine ⟨fun other hother => ?_, ?_⟩
      · rcases List.mem_or_eq_of_mem_set hother with hold | rfl
        · exact h.between other hold
        · exact fun hmissed => nomatch hmissed
      · dsimp only
        split_ifs with hget
        · have hnew : call.key ∉ s.offered.map (·.1) := by
            rw [hs.mem_offered_keys, hget]
            exact fun ⟨_, hsome⟩ => nomatch hsome
          rw [List.map_append, List.map_singleton, List.nodup_append_comm]
          exact List.nodup_cons.mpr ⟨hnew, h.offered⟩
        · rw [List.append_nil]
          exact h.offered
    · exact absurd hprogress (h.between call (List.mem_of_getElem? hcall))
    · rwa [step_idle hcall hprogress, step_idle hcall hprogress]

theorem settled_oneByOne (asked : List (κ × α)) (order : List Nat) :
    Settled (run asked (oneByOne order)) := by
  induction order using List.reverseRecOn with
  | nil =>
    refine ⟨fun call hcall => ?_, List.nodup_nil⟩
    obtain ⟨a, -, rfl⟩ := List.mem_map.mp hcall
    exact fun hmissed => nomatch hmissed
  | append_singleton order i ih =>
    have hsteps : oneByOne (order ++ [i]) = oneByOne order ++ [i, i] := by
      rw [oneByOne, List.flatMap_append, List.flatMap_singleton, oneByOne]
    rw [hsteps, run_append]
    exact ih.step_step (coherent_run asked _) i

/-! ## What callers can rely on -/

/-- The first value that was offered for a key. -/
def IsFirst (offered : List (κ × α)) (key : κ) (value : α) : Prop :=
  ∃ older newer, offered = older ++ (key, value) :: newer ∧ ∀ offer ∈ older, offer.1 ≠ key

theorem Coherent.isFirst {asked : List (κ × α)} {s : Session κ α} (h : Coherent asked s) {key : κ}
    {value : α} (hget : s.cache.get? key = some value) : IsFirst s.offered key value := by
  rw [h.first] at hget
  obtain ⟨offer, hoffer, rfl⟩ := Option.map_eq_some_iff.mp hget
  obtain ⟨hkey, older, newer, hsplit, hother⟩ := List.find?_eq_some_iff_append.mp hoffer
  cases beq_iff_eq.mp hkey
  refine ⟨older, newer, hsplit, fun other hmem => ?_⟩
  exact bne_iff_ne.mp (hother other hmem)

/-- The counts when all calls have returned. -/
structure Tally (asked : List (κ × α)) (s : Session κ α) : Prop where
  size : s.cache.size = (asked.map (·.1)).dedup.length
  counted : s.cache.hits + s.offered.length = asked.length
  computed : ∀ key ∈ asked.map (·.1), key ∈ s.offered.map (·.1)

theorem Coherent.tally {asked : List (κ × α)} {s : Session κ α} (h : Coherent asked s)
    (hfinished : s.Finished) : Tally asked s := by
  have hstored : ∀ key, key ∈ asked.map (·.1) ↔ ∃ value, s.cache.get? key = some value := by
    intro key
    constructor
    · rw [← h.calls, List.map_map, List.mem_map]
      rintro ⟨call, hcall, rfl⟩
      obtain ⟨value, hvalue⟩ := hfinished call hcall
      exact ⟨value, h.returned call hcall value hvalue⟩
    · rw [← h.mem_offered_keys]
      exact fun hkey => List.map_subset _ h.offers hkey
  refine ⟨?_, ?_, fun key hkey => h.mem_offered_keys.mpr ((hstored key).mp hkey)⟩
  · have hperm : (s.cache.entries.map (·.1)).Perm (asked.map (·.1)).dedup := by
      refine (List.perm_ext_iff_of_nodup h.nodup (List.nodup_dedup _)).mpr fun key => ?_
      rw [List.mem_dedup, mem_keys, hstored]
    rw [size, ← hperm.length_eq, List.length_map]
  · have hopen : s.calls.countP (·.progress.isOpen) = 0 := by
      refine List.countP_eq_zero.mpr fun call hcall => ?_
      obtain ⟨value, hvalue⟩ := hfinished call hcall
      rw [hvalue]
      exact Bool.false_ne_true
    rw [← h.counted, hopen]
    rfl

/-- What holds of some calls on one store, in whatever order they take their steps. -/
structure Shares (asked : List (κ × α)) : Prop where
  calls : ∀ schedule,
    (run asked schedule).calls.map (fun call => (call.key, call.computes)) = asked
  /-- An entry neither changes nor goes once it is stored. -/
  kept : ∀ schedule more key value, (run asked schedule).cache.get? key = some value →
    (run asked (schedule ++ more)).cache.get? key = some value
  /-- A call returns the first value that was offered for its key. -/
  first : ∀ schedule, ∀ call ∈ (run asked schedule).calls, ∀ value,
    call.progress = .returned value → IsFirst (run asked schedule).offered call.key value
  same : ∀ schedule, ∀ call ∈ (run asked schedule).calls, ∀ other ∈ (run asked schedule).calls,
    call.key = other.key → ∀ value result, call.progress = .returned value →
      other.progress = .returned result → value = result
  /-- Two steps are enough for every call. -/
  ends : ∀ schedule, (∀ i < asked.length, 2 ≤ schedule.count i) → (run asked schedule).Finished
  tally : ∀ schedule, (run asked schedule).Finished → Tally asked (run asked schedule)
  /-- Calls that run one after the other compute one value for each key. -/
  alone : ∀ order, (∀ i < asked.length, i ∈ order) →
    (run asked (oneByOne order)).Finished ∧ ∀ key ∈ asked.map (·.1),
      ((run asked (oneByOne order)).offered.map (·.1)).count key = 1

/-- **However calls are mixed, those for one key return the value that was offered first.** -/
theorem run_shares (asked : List (κ × α)) : Shares asked where
  calls := fun schedule => (coherent_run asked schedule).calls
  kept := by
    intro schedule more key value hget
    induction more using List.reverseRecOn with
    | nil => rwa [List.append_nil]
    | append_singleton more i ih =>
      rw [← List.append_assoc, run_concat]
      exact get?_step (moves_step _ i) ih
  first := by
    intro schedule call hcall value hvalue
    have h := coherent_run asked schedule
    exact h.isFirst (h.returned call hcall value hvalue)
  same := by
    intro schedule call hcall other hother hkey value result hvalue hresult
    have h := coherent_run asked schedule
    have hget := h.returned call hcall value hvalue
    rw [hkey, h.returned other hother result hresult] at hget
    exact (Option.some.inj hget).symm
  ends := fun _ => finished_of_count
  tally := fun schedule hfinished => (coherent_run asked schedule).tally hfinished
  alone := by
    intro order horder
    have hfinished : (run asked (oneByOne order)).Finished :=
      finished_of_count fun i hi => two_le_count_oneByOne (horder i hi)
    refine ⟨hfinished, fun key hkey => ?_⟩
    refine List.count_eq_one_of_mem (settled_oneByOne asked order).offered ?_
    exact ((coherent_run asked _).tally hfinished).computed key hkey

/-- Two calls look up a key before one of them offers a value: both compute, and both return what
the second one offers first. -/
example :
    let s := run [(7, 'a'), (7, 'b'), (7, 'c')] [0, 1, 1, 2, 0]
    s.calls.map (·.progress) = [.returned 'b', .returned 'b', .returned 'b'] ∧
      s.offered = [(7, 'b'), (7, 'a')] ∧ s.cache.hits = 1 := by
  decide

end Session

end Readability.Run.Cache
