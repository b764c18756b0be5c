import Mathlib.Data.List.Nodup
import Readability.Proofs.StableSort
import Readability.Report.Aggregate

/-!
# The report does not depend on the order of arrival

Outcomes reach the aggregator in whatever order they were found. What it keeps
of them is three lists (`collect_places`, `collect_records`,
`collect_failures`), and all that a report says follows from the places as a
finite map and from the sorted records and failures.

The sorts are stable, so the order of arrival shows only among ties. Records
that tie belong to one path of one revision (`tie_records`), because each
revision has a place of its own. Failures may also belong to revisions that were
never announced: these share one place, behind all others, and are told in the
order they came (`tie_failures`).

Main statement: `finish_eq_of_rearranged`. One place has to be kept out of it:
a revision announced at `Aggregator.farPlace` cannot be told from one that was
never announced, and `report_depends_on_arrival_at_farPlace` shows the order of
arrival in the report.
-/

namespace Readability.Report

open Readability.History (Revision WalkOrder)
open Readability.Source (UnitId)

namespace Outcome

/-- The name and the place of the revision that is announced. -/
def announced? : Outcome → Option (String × Nat)
  | .revision index r => some (r.id, index)
  | .scored _ | .failed _ => none

/-- The record that is brought. -/
def record? : Outcome → Option Record
  | .scored r => some r
  | .revision _ _ | .failed _ => none

/-- The failure that is brought. -/
def failure? : Outcome → Option Failure
  | .failed f => some f
  | .revision _ _ | .scored _ => none

/-- The unit that an outcome is about. -/
def unit? : Outcome → Option UnitId
  | .revision _ _ => none
  | .scored r => some r.unit
  | .failed f => some f.unit

/-- Whether an outcome is about a path at a revision. -/
def isAt (revision path : String) (o : Outcome) : Bool :=
  o.unit?.any fun u => u.revision == revision && u.path == path

@[simp] theorem isAt_revision (revision path : String) (index : Nat) (r : Revision) :
    isAt revision path (.revision index r) = false :=
  rfl

@[simp] theorem isAt_scored (revision path : String) (r : Record) :
    isAt revision path (.scored r) = (r.unit.revision == revision && r.unit.path == path) :=
  rfl

@[simp] theorem isAt_failed (revision path : String) (f : Failure) :
    isAt revision path (.failed f) = (f.unit.revision == revision && f.unit.path == path) :=
  rfl

/-- Whether an outcome is a failure at a revision that is not announced among
some outcomes. -/
def isStray (among : List Outcome) (o : Outcome) : Bool :=
  o.failure?.any fun f => !((among.filterMap announced?).map (·.1)).contains f.unit.revision

end Outcome

/-- The revisions announced among some outcomes, with their places. -/
def announced (l : List Outcome) : List (String × Nat) := l.filterMap Outcome.announced?

/-- Outcomes as a run brings them, in whatever order. -/
structure WellFormed (l : List Outcome) : Prop where
  /-- No revision is announced twice. -/
  names : ((announced l).map (·.1)).Nodup
  /-- No place is given twice. -/
  places : ((announced l).map (·.2)).Nodup
  /-- Only units of announced revisions have a record. -/
  scored : ∀ record, .scored record ∈ l → record.unit.revision ∈ (announced l).map (·.1)

/-- No failure of a revision that was not announced shares its path with one of
the revision announced at the place behind all others. -/
def FarApart (l : List Outcome) : Prop :=
  ∀ f g, .failed f ∈ l → .failed g ∈ l → f.unit.revision ∉ (announced l).map (·.1) →
    (g.unit.revision, Aggregator.farPlace) ∈ announced l → f.unit.path ≠ g.unit.path

/-- The same outcomes in another order, by senders that keep their own: one for
each path of a revision, and one for the failures of unknown revisions. -/
structure Rearranged (l₁ l₂ : List Outcome) : Prop where
  perm : l₁.Perm l₂
  units : ∀ revision path,
    l₁.filter (Outcome.isAt revision path) = l₂.filter (Outcome.isAt revision path)
  strays : l₁.filter (Outcome.isStray l₁) = l₂.filter (Outcome.isStray l₁)

namespace Aggregator

variable {order : WalkOrder} {l l₁ l₂ : List Outcome}

/-! ## What the aggregator keeps -/

theorem foldl_push (a : Aggregator) :
    ∀ (l : List Outcome), l.foldl push a =
      ⟨a.order, (announced l).reverse ++ a.places, a.records ++ l.filterMap Outcome.record?,
        a.failures ++ l.filterMap Outcome.failure?⟩ := by
  intro l
  induction l generalizing a with
  | nil => simp [announced]
  | cons o l ih =>
    rw [List.foldl_cons, ih]
    cases o <;>
      simp [push, announced, Outcome.announced?, Outcome.record?, Outcome.failure?,
        List.filterMap_cons]

theorem collect_eq (order : WalkOrder) (l : List Outcome) :
    collect order l = ⟨order, (announced l).reverse, l.filterMap Outcome.record?,
      l.filterMap Outcome.failure?⟩ := by
  rw [collect, foldl_push]
  simp [start]

@[simp] theorem collect_order (order : WalkOrder) (l : List Outcome) :
    (collect order l).order = order := by
  rw [collect_eq]

@[simp] theorem collect_places (order : WalkOrder) (l : List Outcome) :
    (collect order l).places = (announced l).reverse := by
  rw [collect_eq]

@[simp] theorem collect_records (order : WalkOrder) (l : List Outcome) :
    (collect order l).records = l.filterMap Outcome.record? := by
  rw [collect_eq]

@[simp] theorem collect_failures (order : WalkOrder) (l : List Outcome) :
    (collect order l).failures = l.filterMap Outcome.failure? := by
  rw [collect_eq]

/-! ## Places -/

/-- The place of a revision is the one it was announced at, if it has one only. -/
theorem place?_eq_some_iff_of_unique
    (hunique : ∀ p ∈ announced l, ∀ q ∈ announced l, p.1 = q.1 → p = q) (revision : String)
    (place : Nat) :
    (collect order l).place? revision = some place ↔ (revision, place) ∈ announced l := by
  rw [place?, collect_places, Option.map_eq_some_iff]
  constructor
  · rintro ⟨⟨name, index⟩, hfind, rfl⟩
    have hname := List.find?_some hfind
    have hmem := List.mem_of_find?_eq_some hfind
    rw [List.mem_reverse] at hmem
    rw [beq_iff_eq] at hname
    rwa [← hname]
  · intro hmem
    have hsome : ((announced l).reverse.find? fun p => p.1 == revision).isSome = true :=
      List.find?_isSome.mpr ⟨_, List.mem_reverse.mpr hmem, beq_self_eq_true revision⟩
    obtain ⟨p, hfind⟩ := Option.isSome_iff_exists.mp hsome
    have hname := List.find?_some hfind
    have hp := List.mem_reverse.mp (List.mem_of_find?_eq_some hfind)
    rw [beq_iff_eq] at hname
    refine ⟨p, hfind, ?_⟩
    rw [hunique p hp _ hmem hname]

/-- So it is if no revision is announced twice. -/
theorem place?_eq_some_iff (hnames : ((announced l).map (·.1)).Nodup) (revision : String)
    (place : Nat) :
    (collect order l).place? revision = some place ↔ (revision, place) ∈ announced l :=
  place?_eq_some_iff_of_unique (fun _ hp _ hq => List.inj_on_of_nodup_map hnames hp hq) _ _

theorem place?_eq_none_iff (revision : String) :
    (collect order l).place? revision = none ↔ revision ∉ (announced l).map (·.1) := by
  rw [place?, collect_places, Option.map_eq_none_iff, List.find?_eq_none]
  simp only [List.mem_reverse, beq_iff_eq, List.mem_map, not_exists, not_and]

theorem exists_place? (hnames : ((announced l).map (·.1)).Nodup) {revision : String}
    (hmem : revision ∈ (announced l).map (·.1)) :
    ∃ place, (collect order l).place? revision = some place := by
  obtain ⟨⟨_, place⟩, hpair, rfl⟩ := List.mem_map.mp hmem
  exact ⟨place, (place?_eq_some_iff hnames _ _).mpr hpair⟩

/-- Places do not depend on the order in which revisions are announced. -/
theorem place?_congr (hnames : ((announced l₁).map (·.1)).Nodup) (hperm : l₁.Perm l₂)
    (revision : String) :
    (collect order l₁).place? revision = (collect order l₂).place? revision := by
  have hannounced : (announced l₁).Perm (announced l₂) := hperm.filterMap _
  have hnames₂ := (hannounced.map (·.1)).nodup_iff.mp hnames
  ext place
  rw [place?_eq_some_iff hnames, place?_eq_some_iff hnames₂, hannounced.mem_iff]

theorem eraseDups_of_nodup {α : Type} [BEq α] [LawfulBEq α] :
    ∀ (l : List α), l.Nodup → l.eraseDups = l := by
  intro l
  induction l with
  | nil => exact fun _ => rfl
  | cons a l ih =>
    intro hnodup
    obtain ⟨ha, hl⟩ := List.nodup_cons.mp hnodup
    rw [List.eraseDups_cons, List.filter_eq_self.mpr, ih hl]
    intro b hb
    rw [Bool.not_eq_true', beq_eq_false_iff_ne]
    rintro rfl
    exact ha hb

/-- Each revision counts once. -/
theorem revisionsWalked_eq (hnames : ((announced l).map (·.1)).Nodup) :
    (collect order l).revisionsWalked = (announced l).length := by
  rw [revisionsWalked, collect_places, eraseDups_of_nodup]
  · rw [List.length_map, List.length_reverse]
  · rw [List.map_reverse]
    exact List.nodup_reverse.mpr hnames

/-- Two announced revisions at one place are the same. -/
theorem revision_eq_of_place? (h : WellFormed l) {r s : String} {place : Nat}
    (hr : (collect order l).place? r = some place) (hs : (collect order l).place? s = some place) :
    r = s := by
  rw [place?_eq_some_iff h.names] at hr hs
  exact congrArg Prod.fst (List.inj_on_of_nodup_map h.places hr hs rfl)

/-! ## Ties -/

theorem compareRecords_eq_iff (a : Aggregator) (r s : Record) :
    a.compareRecords r s = .eq ↔ a.sortPlace r.unit.revision = a.sortPlace s.unit.revision ∧
      r.unit.path = s.unit.path ∧ r.scopeLine = s.scopeLine := by
  rw [compareRecords, Ordering.then_eq_eq, Ordering.then_eq_eq]
  simp only [Std.compare_eq_iff_eq]

theorem compareFailures_eq_iff (a : Aggregator) (f g : Failure) :
    a.compareFailures f g = .eq ↔ a.sortPlace f.unit.revision = a.sortPlace g.unit.revision ∧
      f.unit.path = g.unit.path := by
  rw [compareFailures, Ordering.then_eq_eq]
  simp only [Std.compare_eq_iff_eq]

instance (a : Aggregator) : Std.TransCmp a.compareRecords :=
  inferInstanceAs <| Std.TransCmp <| compareLex
    (compareOn fun r : Record => a.sortPlace r.unit.revision)
    (compareLex (compareOn fun r : Record => r.unit.path) (compareOn Record.scopeLine))

instance (a : Aggregator) : Std.TransCmp a.compareFailures :=
  inferInstanceAs <| Std.TransCmp <| compareLex
    (compareOn fun f : Failure => a.sortPlace f.unit.revision)
    (compareOn fun f : Failure => f.unit.path)

/-- Records that tie belong to one path of one revision. -/
theorem tie_records (h : WellFormed l) {r s : Record} (hr : .scored r ∈ l) (hs : .scored s ∈ l)
    (htie : (collect order l).compareRecords r s = .eq) :
    s.unit.revision = r.unit.revision ∧ s.unit.path = r.unit.path := by
  obtain ⟨hplace, hpath, -⟩ := (compareRecords_eq_iff _ _ _).mp htie
  obtain ⟨p, hp⟩ := exists_place? h.names (h.scored r hr)
  obtain ⟨q, hq⟩ := exists_place? h.names (h.scored s hs)
  rw [sortPlace, sortPlace, hp, hq] at hplace
  cases hplace
  exact ⟨revision_eq_of_place? h hq hp, hpath.symm⟩

/-- Failures that tie have one path, and belong to one revision or to revisions
that were not announced. -/
theorem tie_failures (h : WellFormed l) (hfar : FarApart l) {f g : Failure} (hf : .failed f ∈ l)
    (hg : .failed g ∈ l) (htie : (collect order l).compareFailures f g = .eq) :
    g.unit.path = f.unit.path ∧ (g.unit.revision = f.unit.revision ∨
      f.unit.revision ∉ (announced l).map (·.1) ∧ g.unit.revision ∉ (announced l).map (·.1)) := by
  obtain ⟨hplace, hpath⟩ := (compareFailures_eq_iff _ _ _).mp htie
  refine ⟨hpath.symm, ?_⟩
  -- a revision without a place goes to `farPlace`, where an announced one may be
  rw [sortPlace, sortPlace] at hplace
  rcases hp : (collect order l).place? f.unit.revision with _ | p <;>
    rcases hq : (collect order l).place? g.unit.revision with _ | q <;>
    rw [hp, hq] at hplace
  · exact .inr ⟨(place?_eq_none_iff _).mp hp, (place?_eq_none_iff _).mp hq⟩
  · cases hplace
    exact absurd hpath (hfar f g hf hg ((place?_eq_none_iff _).mp hp)
      ((place?_eq_some_iff h.names _ _).mp hq))
  · cases hplace
    exact absurd hpath.symm (hfar g f hg hf ((place?_eq_none_iff _).mp hq)
      ((place?_eq_some_iff h.names _ _).mp hp))
  · cases hplace
    exact .inl (revision_eq_of_place? h hq hp)

/-! ## The sorted lists -/

/-- What is brought, of the kind `f`, and meets `p` can be looked for among the
outcomes that meet `q`. -/
theorem filter_filterMap_of_imp {α β : Type} {f : α → Option β} {p : β → Bool} {q : α → Bool} :
    ∀ (l : List α), (∀ a ∈ l, ∀ b, f a = some b → p b = true → q a = true) →
      (l.filterMap f).filter p = ((l.filter q).filterMap f).filter p := by
  intro l
  induction l with
  | nil => exact fun _ => rfl
  | cons a l ih =>
    intro hq
    have hl := ih fun c hc => hq c (List.mem_cons_of_mem _ hc)
    have ha := hq a (List.mem_cons_self ..)
    rcases hfa : f a with _ | b
    · rw [List.filterMap_cons_none hfa, hl]
      by_cases hqa : q a = true
      · rw [List.filter_cons_of_pos hqa, List.filterMap_cons_none hfa]
      · rw [List.filter_cons_of_neg hqa]
    · rw [List.filterMap_cons_some hfa]
      by_cases hpb : p b = true
      · rw [List.filter_cons_of_pos hpb, List.filter_cons_of_pos (ha b hfa hpb),
          List.filterMap_cons_some hfa, List.filter_cons_of_pos hpb, hl]
      · rw [List.filter_cons_of_neg hpb, hl]
        by_cases hqa : q a = true
        · rw [List.filter_cons_of_pos hqa, List.filterMap_cons_some hfa,
            List.filter_cons_of_neg hpb]
        · rw [List.filter_cons_of_neg hqa]

theorem mem_records {record : Record} :
    record ∈ l.filterMap Outcome.record? ↔ .scored record ∈ l := by
  rw [List.mem_filterMap]
  constructor
  · rintro ⟨o, ho, hrecord⟩
    cases o <;> cases hrecord
    exact ho
  · exact fun h => ⟨_, h, rfl⟩

theorem mem_failures {failure : Failure} :
    failure ∈ l.filterMap Outcome.failure? ↔ .failed failure ∈ l := by
  rw [List.mem_filterMap]
  constructor
  · rintro ⟨o, ho, hfailure⟩
    cases o <;> cases hfailure
    exact ho
  · exact fun h => ⟨_, h, rfl⟩

theorem sortPlace_congr (hnames : ((announced l₁).map (·.1)).Nodup) (hperm : l₁.Perm l₂) :
    (collect order l₁).sortPlace = (collect order l₂).sortPlace := by
  funext revision
  rw [sortPlace, sortPlace, place?_congr hnames hperm]

theorem sortedRecords_congr (h : WellFormed l₁) (hmove : Rearranged l₁ l₂) :
    (collect order l₁).sortedRecords = (collect order l₂).sortedRecords := by
  have hcompare : (collect order l₂).compareRecords = (collect order l₁).compareRecords := by
    funext r s
    rw [compareRecords, compareRecords, sortPlace_congr h.names hmove.perm]
  rw [sortedRecords, sortedRecords, hcompare, collect_records, collect_records]
  refine Sorting.mergeSort_cmp_congr (hmove.perm.filterMap _) ?_
  intro r hr
  -- the whole class comes from the sender of one path at one revision
  have hclass : ∀ o ∈ l₁, ∀ s, o.record? = some s →
      decide ((collect order l₁).compareRecords r s = .eq) = true →
      o.isAt r.unit.revision r.unit.path = true := by
    intro o ho s hs htie
    cases o <;> cases hs
    obtain ⟨hrevision, hpath⟩ := tie_records h (mem_records.mp hr) ho (of_decide_eq_true htie)
    simp [hrevision, hpath]
  rw [filter_filterMap_of_imp l₁ hclass, filter_filterMap_of_imp l₂, hmove.units]
  intro o ho
  exact hclass o (hmove.perm.mem_iff.mpr ho)

theorem sortedFailures_congr (h : WellFormed l₁) (hfar : FarApart l₁) (hmove : Rearranged l₁ l₂) :
    (collect order l₁).sortedFailures = (collect order l₂).sortedFailures := by
  have hcompare : (collect order l₂).compareFailures = (collect order l₁).compareFailures := by
    funext f g
    rw [compareFailures, compareFailures, sortPlace_congr h.names hmove.perm]
  rw [sortedFailures, sortedFailures, hcompare, collect_failures, collect_failures]
  refine Sorting.mergeSort_cmp_congr (hmove.perm.filterMap _) ?_
  intro f hf
  -- the whole class comes from one sender: that of unknown revisions, or of one path
  obtain ⟨sender, hsender, hclass⟩ : ∃ sender : Outcome → Bool,
      l₁.filter sender = l₂.filter sender ∧ ∀ o ∈ l₁, ∀ g, o.failure? = some g →
        decide ((collect order l₁).compareFailures f g = .eq) = true → sender o = true := by
    by_cases hknown : f.unit.revision ∈ (announced l₁).map (·.1)
    · refine ⟨_, hmove.units f.unit.revision f.unit.path, ?_⟩
      intro o ho g hg htie
      cases o <;> cases hg
      obtain ⟨hpath, hrevision | ⟨hstray, -⟩⟩ :=
        tie_failures h hfar (mem_failures.mp hf) ho (of_decide_eq_true htie)
      · simp [hrevision, hpath]
      · exact absurd hknown hstray
    · refine ⟨_, hmove.strays, ?_⟩
      intro o ho g hg htie
      cases o <;> cases hg
      have hstray : g.unit.revision ∉ (announced l₁).map (·.1) := by
        obtain ⟨-, hrevision | ⟨-, hstray⟩⟩ :=
          tie_failures h hfar (mem_failures.mp hf) ho (of_decide_eq_true htie)
        · rwa [hrevision]
        · exact hstray
      rw [announced] at hstray
      simp [Outcome.isStray, Outcome.failure?, hstray]
  rw [filter_filterMap_of_imp l₁ hclass, filter_filterMap_of_imp l₂, hsender]
  intro o ho
  exact hclass o (hmove.perm.mem_iff.mpr ho)

/-! ## The report -/

/-- The records of a report are those that were brought. -/
theorem records_finish_perm (order : WalkOrder) (l : List Outcome) (about : Meta) (runId : String)
    (now : Time.Instant) :
    ((collect order l).finish about runId now).records.Perm (l.filterMap Outcome.record?) := by
  rw [← collect_records order]
  exact List.mergeSort_perm _ _

/-- The failures of a report are those that were brought. -/
theorem failures_finish_perm (order : WalkOrder) (l : List Outcome) (about : Meta) (runId : String)
    (now : Time.Instant) :
    ((collect order l).finish about runId now).failures.Perm (l.filterMap Outcome.failure?) := by
  rw [← collect_failures order]
  exact List.mergeSort_perm _ _

/-- A report follows from the order, the places and the sorted lists. -/
theorem finish_congr {a b : Aggregator} (horder : a.order = b.order) (hplace : a.place? = b.place?)
    (hwalked : a.revisionsWalked = b.revisionsWalked) (hrecords : a.sortedRecords = b.sortedRecords)
    (hfailures : a.sortedFailures = b.sortedFailures) (about : Meta) (runId runId' : String)
    (now now' : Time.Instant) :
    a.finish about runId now = { b.finish about runId' now' with runId, generatedAt := now } := by
  have hchron : a.chronological = b.chronological := by
    funext sorted
    rw [chronological, chronological, horder, hplace]
  have hsummaries : a.walkedSummaries = b.walkedSummaries := by
    funext sorted
    rw [walkedSummaries, walkedSummaries, horder]
  simp only [finish, hwalked, hrecords, hfailures, hchron, hsummaries]

theorem allMismatched_congr (hperm : l₁.Perm l₂) :
    (collect order l₁).allMismatched = (collect order l₂).allMismatched := by
  have hrecords := hperm.filterMap Outcome.record?
  have hfailures := hperm.filterMap Outcome.failure?
  simp only [allMismatched, collect_records, collect_failures]
  rw [hrecords.isEmpty_eq, hfailures.isEmpty_eq, hfailures.all_eq]

/-- Rearranged outcomes come to one report. -/
theorem finish_congr_of_rearranged (h : WellFormed l₁) (hfar : FarApart l₁)
    (hmove : Rearranged l₁ l₂) (about : Meta) (runId runId' : String) (now now' : Time.Instant) :
    (collect order l₁).finish about runId now =
      { (collect order l₂).finish about runId' now' with runId, generatedAt := now } := by
  refine finish_congr ?_ ?_ ?_ ?_ ?_ about runId runId' now now'
  · rw [collect_order, collect_order]
  · exact funext (place?_congr h.names hmove.perm)
  · have hannounced : (announced l₁).Perm (announced l₂) := hmove.perm.filterMap _
    rw [revisionsWalked_eq h.names, hannounced.length_eq,
      revisionsWalked_eq ((hannounced.map (·.1)).nodup_iff.mp h.names)]
  · exact sortedRecords_congr h hmove
  · exact sortedFailures_congr h hfar hmove

/-- **The report does not depend on the order of arrival**, its name and its
date apart: not the order of its records and failures, nor any number in it. -/
theorem finish_eq_of_rearranged (h : WellFormed l₁) (hfar : FarApart l₁)
    (hmove : Rearranged l₁ l₂) (about : Meta) (runId runId' : String) (now now' : Time.Instant) :
    (collect order l₁).finish about runId now =
        { (collect order l₂).finish about runId' now' with runId, generatedAt := now } ∧
      (collect order l₁).allMismatched = (collect order l₂).allMismatched :=
  ⟨finish_congr_of_rearranged h hfar hmove about runId runId' now now',
    allMismatched_congr hmove.perm⟩

/-- A revision with two functions on one line and a broken file, and two
revisions that were lost. -/
def sampleOutcome : Nat → Outcome
  | 0 => .revision 0 ⟨"r1", [], .epoch, "", "", []⟩
  | 1 => .scored ⟨⟨"a.py", "r1", some ⟨"f", "function", 3, 3⟩⟩, .python, default, 1, .low, .epoch⟩
  | 2 => .scored ⟨⟨"a.py", "r1", some ⟨"g", "function", 3, 3⟩⟩, .python, default, 2, .low, .epoch⟩
  | 3 => .failed ⟨.file "b.py" "r1", .parse "broken"⟩
  | 4 => .failed ⟨.file "" "#1", .repository "lost"⟩
  | _ => .failed ⟨.file "" "#2", .repository "lost"⟩

theorem finish_sampleOutcome_rearranged :
    (collect .newestFirst ([0, 1, 2, 3, 4, 5].map sampleOutcome)).finish ⟨"", "", .blank, false⟩
        "first" .epoch =
      { (collect .newestFirst ([4, 1, 5, 3, 2, 0].map sampleOutcome)).finish
          ⟨"", "", .blank, false⟩ "second" .epoch with
        runId := "first", generatedAt := .epoch } := by
  refine (finish_eq_of_rearranged ⟨?_, ?_, ?_⟩ ?_ ⟨?_, ?_, ?_⟩ _ _ _ _ _).1
  · decide
  · decide
  · simp [sampleOutcome, announced, Outcome.announced?]
  · simp [FarApart, sampleOutcome, announced, Outcome.announced?, farPlace]
  · exact List.Perm.map _ (by decide)
  · intro revision path
    by_cases hr : "r1" = revision
    · subst hr
      by_cases ha : "a.py" = path
      · subst ha
        simp [sampleOutcome, UnitId.file]
      · simp [sampleOutcome, List.filter_cons, UnitId.file, ha]
    · by_cases hlost : "#1" = revision
      · subst hlost
        simp [sampleOutcome, List.filter_cons, UnitId.file]
      · simp [sampleOutcome, List.filter_cons, UnitId.file, hr, hlost]
  · rfl

/-- A revision announced behind all places, and a failure there and at a
revision that was not announced, in both orders. -/
def farOutcome : Nat → Outcome
  | 0 => .revision farPlace ⟨"r1", [], .epoch, "", "", []⟩
  | 1 => .failed ⟨.file "a.py" "r1", .parse "known"⟩
  | _ => .failed ⟨.file "a.py" "r2", .parse "stray"⟩

/-- At `farPlace` the order of arrival shows in the report. -/
theorem report_depends_on_arrival_at_farPlace :
    WellFormed ([0, 1, 2].map farOutcome) ∧
      Rearranged ([0, 1, 2].map farOutcome) ([0, 2, 1].map farOutcome) ∧
      ((collect .newestFirst ([0, 1, 2].map farOutcome)).finish ⟨"", "", .blank, false⟩ ""
          .epoch).failures ≠
        ((collect .newestFirst ([0, 2, 1].map farOutcome)).finish ⟨"", "", .blank, false⟩ ""
          .epoch).failures := by
  refine ⟨⟨?_, ?_, ?_⟩, ⟨?_, ?_, ?_⟩, ?_⟩
  · decide
  · decide
  · simp [farOutcome]
  · exact List.Perm.map _ (by decide)
  · intro revision path
    by_cases h : "r1" = revision
    · subst h
      simp [farOutcome, List.filter_cons, UnitId.file]
    · simp [farOutcome, List.filter_cons, UnitId.file, h]
  · rfl
  · -- both orders are sorted as they stand
    simp only [finish, sortedFailures]
    rw [List.mergeSort_of_pairwise (by decide), List.mergeSort_of_pairwise (by decide)]
    simp [farOutcome, List.filterMap_cons, Outcome.failure?]

end Aggregator

end Readability.Report
