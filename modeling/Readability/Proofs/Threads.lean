import Mathlib
import Readability.Proofs.Separators
import Readability.Proofs.Timeline

/-!
# Units followed over the revisions

A report follows each unit through its revisions under a name. Names are texts made of
a path, a function and a number, and the number is counted along the records as they
come; a `Thread` is what they stand for.

Counting starts anew with each revision (`threadsFrom_flatMap`), and within one the
records of a thread's path and function are numbered in the order of their lines, so
that no revision gives a thread more than one record (`filter_threadsFrom`). Where
paths have no colon and functions are not named like numbered ones, no two threads go
by one name (`key_inj`).

> `finish_ofThreads`: a report has one entry for each thread that some revision holds,
> over the revisions that hold it.
-/

namespace Readability.Report

open Readability.History (WalkOrder)

/-! ## Threads and their names -/

/-- What is followed over the revisions: a file, or the functions of one name that
have the same place among their namesakes, counted from zero. -/
@[ext]
structure Thread where
  path : String
  name : Option String
  place : Nat
deriving DecidableEq

/-- The name of a function among its namesakes; the first one goes without a number. -/
def numbered (name : String) (place : Nat) : String :=
  if 0 < place then name ++ "#" ++ toString (place + 1) else name

/-- Not the name of a numbered function. -/
def IsPlain (name : String) : Prop :=
  ∀ (text : String) (number : Nat), name ≠ text ++ "#" ++ toString number

theorem isPlain_of_notMem {name : String} (h : '#' ∉ name.toList) : IsPlain name := by
  rintro text number rfl
  refine h ?_
  rw [String.toList_append, String.toList_append]
  exact List.mem_append_left _ (List.mem_append_right _ (List.mem_singleton_self _))

/-- Numbered names tell functions and places apart. -/
theorem numbered_inj {name name' : String} {place place' : Nat} (hname : IsPlain name)
    (hname' : IsPlain name') (h : numbered name place = numbered name' place') :
    name = name' ∧ place = place' := by
  have hdigits : ∀ n : Nat, '#' ∉ (Nat.toDigits 10 n).reverse := by
    intro n hmem
    have hdigit := Nat.isDigit_of_mem_toDigits (by decide) (by decide) (List.mem_reverse.mp hmem)
    exact absurd hdigit (by decide)
  rw [numbered, numbered] at h
  split_ifs at h with hplace hplace' hplace'
  · -- the number is all that comes behind the last sign
    have hchars := congrArg (fun s : String => s.toList.reverse) h
    have hrepr : ∀ n : Nat, (toString n).toList = Nat.toDigits 10 n := fun n => Nat.toList_repr
    have hsign : "#".toList = ['#'] := rfl
    simp only [String.toList_append, List.reverse_append, hrepr, hsign, List.reverse_singleton,
      List.singleton_append] at hchars
    obtain ⟨hnumber, htext⟩ := Source.Path.cut_inj (hdigits _) (hdigits _) hchars
    have hvalue := congrArg (Nat.ofDigitChars 10 · 0) (List.reverse_inj.mp hnumber)
    simp only [Nat.ofDigitChars_ten_toDigits] at hvalue
    exact ⟨String.toList_inj.mp (List.reverse_inj.mp htext), Nat.succ.inj hvalue⟩
  · exact absurd h.symm (hname' _ _)
  · exact absurd h (hname _ _)
  · exact ⟨h, (Nat.eq_zero_of_not_pos hplace).trans (Nat.eq_zero_of_not_pos hplace').symm⟩

namespace Thread

/-- The name of a thread in a report. -/
def key (t : Thread) : String :=
  match t.name with
  | none => t.path
  | some name => t.path ++ "::" ++ numbered name t.place

/-- Whether a record goes by the path and the function of a thread. -/
def names (t : Thread) (r : Record) : Bool :=
  t.path == r.unit.path && t.name == r.unit.scope.map (·.name)

/-- Threads whose names can be read back. -/
structure Sound (t : Thread) : Prop where
  path : ':' ∉ t.path.toList
  name : ∀ name ∈ t.name, IsPlain name
  file : t.name = none → t.place = 0

/-- **No two threads go by one name.** -/
theorem key_inj {t u : Thread} (ht : t.Sound) (hu : u.Sound) (h : t.key = u.key) : t = u := by
  obtain ⟨path, name, place⟩ := t
  obtain ⟨path', name', place'⟩ := u
  have hlist := congrArg String.toList h
  have hcolons : "::".toList = [':', ':'] := rfl
  cases name with
  | none =>
    cases name' with
    | none =>
      have hplace : place = 0 := ht.file rfl
      have hplace' : place' = 0 := hu.file rfl
      have hpath : path = path' := h
      rw [hplace, hplace', hpath]
    | some name' =>
      -- only the name of a function has a colon
      simp only [key, String.toList_append, hcolons] at hlist
      refine absurd ht.path ?_
      rw [hlist]
      simp
  | some name =>
    cases name' with
    | none =>
      simp only [key, String.toList_append, hcolons] at hlist
      refine absurd hu.path ?_
      rw [← hlist]
      simp
    | some name' =>
      simp only [key, String.toList_append, hcolons, List.append_assoc, List.cons_append,
        List.nil_append] at hlist
      obtain ⟨hpath, hrest⟩ := Source.Path.cut_inj ht.path hu.path hlist
      obtain ⟨hname, hplace⟩ := numbered_inj (ht.name name rfl) (hu.name name' rfl)
        (String.toList_inj.mp (List.tail_eq_of_cons_eq hrest))
      have hpath : path = path' := String.toList_inj.mp hpath
      rw [hpath, hname, hplace]

end Thread

namespace Record

/-- The thread of a record, from its place among its namesakes. -/
def thread (r : Record) (place : Nat) : Thread :=
  ⟨r.unit.path, r.unit.scope.map (·.name), place⟩

theorem trendKey_eq (r : Record) (place : Nat) :
    r.trendKey (place + 1) = (r.thread place).key := by
  cases hscope : r.unit.scope with
  | none => simp only [trendKey, Thread.key, thread, hscope, Option.map_none]
  | some span =>
    simp only [trendKey, Thread.key, thread, hscope, Option.map_some, numbered,
      Nat.lt_add_left_iff_pos]
    split_ifs
    · simp only [String.append_assoc]
    · rfl

theorem thread_eq_iff {r : Record} {place : Nat} {t : Thread} :
    r.thread place = t ↔ t.names r = true ∧ place = t.place := by
  rw [thread, Thread.names, Bool.and_eq_true, beq_iff_eq, beq_iff_eq, Thread.ext_iff]
  constructor
  · rintro ⟨hpath, hname, hplace⟩
    exact ⟨⟨hpath.symm, hname.symm⟩, hplace⟩
  · rintro ⟨⟨hpath, hname⟩, hplace⟩
    exact ⟨hpath.symm, hname.symm, hplace⟩

/-- Among records of one kind and one revision, those of a thread's names are the
namesakes of any of them. -/
theorem isNamesake_eq_names {t : Thread} {r s : Record} (h : t.names r)
    (hrevision : s.unit.revision = r.unit.revision)
    (hkind : s.unit.scope.isSome = r.unit.scope.isSome) : r.isNamesake s = t.names s := by
  rw [Thread.names, Bool.and_eq_true, beq_iff_eq, beq_iff_eq] at h
  rw [isNamesake, Thread.names, h.1, h.2, hrevision, beq_self_eq_true, Bool.true_and]
  refine congrArg _ ?_
  rw [scopeName, scopeName]
  cases hr : r.unit.scope <;> cases hs : s.unit.scope <;> rw [hr, hs] at hkind
  · rfl
  · cases hkind
  · cases hkind
  · rfl

end Record

/-! ## Counting -/

/-- Records with their threads, numbered as they come; `before` holds those already
numbered. -/
def threadsFrom (before : List Record) : List Record → List (Thread × Record)
  | [] => []
  | r :: rest => (r.thread (before.countP r.isNamesake), r) :: threadsFrom (r :: before) rest

theorem keyedFrom_eq_map : ∀ before records : List Record,
    keyedFrom before records = (threadsFrom before records).map fun p => (p.1.key, p.2.score) := by
  intro before records
  induction records generalizing before with
  | nil => rfl
  | cons r rest ih =>
    rw [keyedFrom, threadsFrom, List.map_cons, ih, r.trendKey_eq]

theorem map_snd_threadsFrom : ∀ before records : List Record,
    (threadsFrom before records).map Prod.snd = records := by
  intro before records
  induction records generalizing before with
  | nil => rfl
  | cons r rest ih => rw [threadsFrom, List.map_cons, ih]

theorem threadsFrom_append : ∀ before records more : List Record,
    threadsFrom before (records ++ more) =
      threadsFrom before records ++ threadsFrom (records.reverse ++ before) more := by
  intro before records more
  induction records generalizing before with
  | nil => rfl
  | cons r rest ih =>
    rw [List.cons_append, threadsFrom, threadsFrom, ih, List.cons_append, List.reverse_cons,
      List.append_assoc, List.singleton_append]

/-- Records of other revisions are not counted. -/
theorem threadsFrom_other {before : List Record} : ∀ kept records : List Record,
    (∀ r ∈ records, ∀ s ∈ before, s.unit.revision ≠ r.unit.revision) →
      threadsFrom (kept ++ before) records = threadsFrom kept records := by
  intro kept records
  induction records generalizing kept with
  | nil => exact fun _ => rfl
  | cons r rest ih =>
    intro h
    obtain ⟨hr, hrest⟩ := List.forall_mem_cons.mp h
    have hnone : before.countP r.isNamesake = 0 := by
      refine List.countP_eq_zero.mpr ?_
      intro s hs hsame
      rw [Record.isNamesake, Bool.and_eq_true, Bool.and_eq_true, beq_iff_eq] at hsame
      exact hr s hs hsame.1.1.symm
    rw [threadsFrom, threadsFrom, List.countP_append, hnone, Nat.add_zero, ← List.cons_append,
      ih (r :: kept) hrest]

/-- Each revision is counted on its own. -/
theorem threadsFrom_flatMap {f : String → List Record}
    (hf : ∀ id, ∀ r ∈ f id, r.unit.revision = id) : ∀ ids : List String, ids.Nodup →
      threadsFrom [] (ids.flatMap f) = ids.flatMap fun id => threadsFrom [] (f id) := by
  intro ids
  induction ids with
  | nil => exact fun _ => rfl
  | cons id ids ih =>
    intro hnodup
    obtain ⟨hid, hnodup⟩ := List.nodup_cons.mp hnodup
    have hother : ∀ r ∈ ids.flatMap f, ∀ s ∈ (f id).reverse, s.unit.revision ≠ r.unit.revision := by
      intro r hr s hs
      obtain ⟨id', hid', hr⟩ := List.mem_flatMap.mp hr
      rw [hf id s (List.mem_reverse.mp hs), hf id' r hr]
      exact fun hsame => hid (hsame ▸ hid')
    rw [List.flatMap_cons, List.flatMap_cons, threadsFrom_append, List.append_nil, ← ih hnodup,
      ← threadsFrom_other [] _ hother, List.nil_append]

/-- **A revision gives a thread one record at most**: of the records of its names, the
one at its place. -/
theorem filter_threadsFrom (t : Thread) {id : String} {kind : Bool} {records : List Record}
    (hrevision : ∀ r ∈ records, r.unit.revision = id)
    (hkind : ∀ r ∈ records, r.unit.scope.isSome = kind) :
    (threadsFrom [] records).filter (fun p => p.1 == t) =
      ((records.filter t.names)[t.place]?).toList.map fun r => (t, r) := by
  -- a record is numbered by those before it, so the list is taken from its end
  induction records using List.reverseRecOn with
  | nil => rfl
  | append_singleton records r ih =>
    simp only [List.forall_mem_append, List.forall_mem_singleton] at hrevision hkind
    rw [threadsFrom_append, List.filter_append, ih hrevision.1 hkind.1, List.append_nil,
      threadsFrom, threadsFrom, List.countP_reverse, List.filter_append, List.filter_singleton,
      List.filter_singleton]
    cases hnames : t.names r with
    | false =>
      have hne : (r.thread (records.countP r.isNamesake) == t) = false := by
        rw [beq_eq_false_iff_ne, Ne, Record.thread_eq_iff, hnames]
        exact fun h => Bool.false_ne_true h.1
      simp [hne]
    | true =>
      have hcount : records.countP r.isNamesake = (records.filter t.names).length := by
        rw [← List.countP_eq_length_filter]
        refine List.countP_congr fun s hs => ?_
        rw [Record.isNamesake_eq_names hnames]
        · rw [hrevision.1 s hs, hrevision.2]
        · rw [hkind.1 s hs, hkind.2]
      have hthread : ∀ n, (r.thread n == t) = decide (n = t.place) := by
        intro n
        rw [Bool.eq_iff_iff, beq_iff_eq, decide_eq_true_iff, Record.thread_eq_iff]
        exact and_iff_right hnames
      rw [hcount, hthread]
      -- the record comes behind all that its names gave so far
      rcases lt_trichotomy t.place (records.filter t.names).length with hlt | heq | hgt
      · simp [hlt.ne', List.getElem?_append_left hlt]
      · simp [heq, Record.thread_eq_iff.mpr ⟨hnames, heq.symm⟩]
      · have hlen : (records.filter t.names ++ [r]).length ≤ t.place := by
          rw [List.length_append, List.length_singleton]
          exact hgt
        simp [hgt.ne, List.getElem?_eq_none hgt.le, List.getElem?_eq_none hlen]

/-! ## The entries of any records -/

/-- Entries stand in the order of their names, each name once. -/
theorem sorted_fileTrends (records : List Record) :
    (fileTrends records).Pairwise fun entry next => entry.path < next.path := by
  have hsorted := List.pairwise_mergeSort' (· ≤ ·) ((keyedFrom [] records).map (·.1)).eraseDups
  have hnodup := (List.mergeSort_perm ((keyedFrom [] records).map (·.1)).eraseDups
    fun a b => a ≤ b).nodup_iff.mpr (nodup_eraseDups _)
  rw [fileTrends, List.pairwise_map]
  exact (hsorted.and hnodup).imp fun hkeys => lt_of_le_of_ne hkeys.1 hkeys.2

/-- Each record is a sample of one entry. -/
theorem sum_samples_fileTrends (records : List Record) :
    ((fileTrends records).map (·.samples)).sum = records.length := by
  have hperm := List.mergeSort_perm ((keyedFrom [] records).map (·.1)).eraseDups fun a b => a ≤ b
  have hgroups := Sorting.flatMap_filter_perm (fun k : String × Float => k.1) _
    (keyedFrom [] records) (hperm.nodup_iff.mpr (nodup_eraseDups _)) ?_
  · have hlen := hgroups.length_eq
    have hsize : (keyedFrom [] records).length = records.length := by
      rw [keyedFrom_eq_map, List.length_map, ← List.length_map Prod.snd, map_snd_threadsFrom]
    rw [← hsize, ← hlen, List.length_flatMap, fileTrends, List.map_map]
    refine congrArg List.sum (List.map_congr_left ?_)
    intro key _
    exact List.length_map _
  · intro k hk
    exact hperm.mem_iff.mpr (List.mem_eraseDups.mpr (List.mem_map_of_mem hk))

/-! ## What the revisions hold -/

/-- The records of a revision that go by a thread's path and function, in the order of
their lines; on one line, as they came in. -/
def namesakes (l : List Outcome) (id : String) (t : Thread) : List Record :=
  ((ofRevision id (l.filterMap Outcome.record?)).filter t.names).mergeSort fun r s =>
    r.scopeLine ≤ s.scopeLine

/-- The record of a thread in a revision. -/
def held (l : List Outcome) (id : String) (t : Thread) : Option Record :=
  (namesakes l id t)[t.place]?

/-- The revisions that hold a thread, the oldest first, with its records. -/
def showings (order : WalkOrder) (l : List Outcome) (t : Thread) : List (String × Record) :=
  (timeline order l).filterMap fun id => (held l id t).map fun record => (id, record)

/-- An entry of a report that follows a thread over the revisions that hold it. -/
structure Follows (order : WalkOrder) (l : List Outcome) (t : Thread) (entry : FileTrend) :
    Prop where
  key : entry.path = t.key
  nodup : ((showings order l t).map (·.1)).Nodup
  samples : entry.samples = (showings order l t).length
  first : (showings order l t).head?.map (·.2.score) = some entry.firstScore
  last : (showings order l t).getLast?.map (·.2.score) = some entry.lastScore
  delta : entry.delta = if entry.samples = 1 then 0 else entry.lastScore - entry.firstScore

/-- What a report has to say of the units over time. -/
structure OfThreads (order : WalkOrder) (l : List Outcome) (report : Report) : Prop where
  /-- Each thread that a revision holds has one entry, and there are no others. -/
  entries : ∃ threads : List Thread, threads.Nodup ∧
    (∀ t, t ∈ threads ↔ ∃ id record, held l id t = some record) ∧
    List.Forall₂ (Follows order l) threads report.files
  sorted : report.files.Pairwise fun entry next => entry.path < next.path
  allRecords : (report.files.map (·.samples)).sum = report.records.length

/-- Records that their names tell apart: all of files, each file once in a revision, or
all of functions, no path with a colon, and no function named like a numbered one. -/
structure Distinct (records : List Record) : Prop where
  kind : ((∀ r ∈ records, r.unit.scope = none) ∧
      (records.map fun r => (r.unit.revision, r.unit.path)).Nodup) ∨
    ∀ r ∈ records, r.unit.scope ≠ none
  path : ∀ r ∈ records, ':' ∉ r.unit.path.toList
  name : ∀ r ∈ records, ∀ span ∈ r.unit.scope, IsPlain span.name

variable {order : WalkOrder} {l : List Outcome}

theorem namesakes_eq_filter_block (id : String) (t : Thread) :
    namesakes l id t = (block l id).filter t.names := by
  rw [namesakes, block, sortNames,
    Sorting.filter_mergeSort Sorting.isLE_trans_of_cmp Sorting.isLE_total_of_cmp]
  refine Sorting.mergeSort_congr_of_mem ?_
  intro r hr s hs
  have hpath : ∀ r : Record, t.names r → r.unit.path = t.path := by
    intro r hr
    rw [Thread.names, Bool.and_eq_true, beq_iff_eq] at hr
    exact hr.1.symm
  rw [Record.compareNames, hpath r (List.mem_filter.mp hr).2, hpath s (List.mem_filter.mp hs).2,
    Std.compare_self, Ordering.eq_then, Bool.eq_iff_iff, decide_eq_true_iff, Nat.isLE_compare]

theorem mem_of_held {id : String} {t : Thread} {record : Record} (h : held l id t = some record) :
    .scored record ∈ l ∧ record.unit.revision = id ∧ t.names record := by
  rw [held, namesakes_eq_filter_block] at h
  obtain ⟨hblock, hnames⟩ := List.mem_filter.mp (List.mem_of_getElem? h)
  obtain ⟨hscored, hrevision⟩ := mem_block.mp hblock
  exact ⟨hscored, hrevision, hnames⟩

/-- A file has no namesake where each file is there once in a revision. -/
theorem length_namesakes_le_one
    (honce : ((l.filterMap Outcome.record?).map fun r => (r.unit.revision, r.unit.path)).Nodup)
    (id : String) (t : Thread) : (namesakes l id t).length ≤ 1 := by
  have hnodup : ((namesakes l id t).map fun r => (r.unit.revision, r.unit.path)).Nodup := by
    refine ((List.mergeSort_perm _ _).map _).nodup_iff.mpr (honce.sublist ?_)
    exact (List.filter_sublist.trans List.filter_sublist).map _
  have hsame : ∀ p ∈ (namesakes l id t).map fun r => (r.unit.revision, r.unit.path),
      p = (id, t.path) := by
    refine List.forall_mem_map.mpr ?_
    intro r hr
    rw [namesakes_eq_filter_block] at hr
    obtain ⟨hblock, hnames⟩ := List.mem_filter.mp hr
    exact Prod.ext (revision_of_mem_block id r hblock)
      (congrArg Thread.path (Record.thread_eq_iff.mpr ⟨hnames, rfl⟩))
  rw [List.eq_replicate_of_mem hsame, List.nodup_replicate, List.length_map] at hnodup
  exact hnodup

/-- All records are of one kind. -/
theorem Distinct.exists_kind {records : List Record} (hd : Distinct records) :
    ∃ kind, ∀ r ∈ records, r.unit.scope.isSome = kind := by
  rcases hd.kind with hfiles | hfunctions
  · exact ⟨false, fun r hr => by rw [hfiles.1 r hr, Option.isSome_none]⟩
  · exact ⟨true, fun r hr => Option.isSome_iff_ne_none.mpr (hfunctions r hr)⟩

/-- **The threads of a report can be read back from their names.** -/
theorem Distinct.sound (hd : Distinct (l.filterMap Outcome.record?)) {id : String} {t : Thread}
    {record : Record} (h : held l id t = some record) : t.Sound := by
  obtain ⟨hscored, -, hnames⟩ := mem_of_held h
  have hmem : record ∈ l.filterMap Outcome.record? := Aggregator.mem_records.mpr hscored
  have hthread := Record.thread_eq_iff.mpr ⟨hnames, rfl⟩
  refine ⟨?_, ?_, ?_⟩
  · rw [← hthread]
    exact hd.path record hmem
  · rw [← hthread]
    intro name hname
    obtain ⟨span, hspan, rfl⟩ := Option.map_eq_some_iff.mp hname
    exact hd.name record hmem span hspan
  · intro hfile
    have hnone : record.unit.scope = none := by
      rw [← hthread] at hfile
      exact Option.map_eq_none_iff.mp hfile
    rcases hd.kind with ⟨-, honce⟩ | hfunctions
    · obtain ⟨hplace, -⟩ := List.getElem?_eq_some_iff.mp h
      exact Nat.lt_one_iff.mp (hplace.trans_le (length_namesakes_le_one honce id t))
    · exact absurd hnone (hfunctions record hmem)

/-! ## The report -/

section

variable (h : OneToOne l)

include h

/-- The records of a thread, over time, are what the revisions hold of it. -/
theorem filter_threadsFrom_timeline {kind : Bool}
    (hkind : ∀ r ∈ l.filterMap Outcome.record?, r.unit.scope.isSome = kind) (order : WalkOrder)
    (t : Thread) :
    (threadsFrom [] ((timeline order l).flatMap (block l))).filter (fun p => p.1 == t) =
      (showings order l t).map fun p => (t, p.2) := by
  have hblock : ∀ id, (threadsFrom [] (block l id)).filter (fun p => p.1 == t) =
      (held l id t).toList.map fun r => (t, r) := by
    intro id
    rw [held, namesakes_eq_filter_block]
    have hblock : ∀ r ∈ block l id, r.unit.scope.isSome = kind :=
      fun r hr => hkind r (Aggregator.mem_records.mpr (mem_block.mp hr).1)
    exact filter_threadsFrom t (revision_of_mem_block id) hblock
  rw [threadsFrom_flatMap revision_of_mem_block _ (h.nodup_timeline order), List.filter_flatMap,
    showings, List.map_filterMap, List.filterMap_eq_flatMap_toList]
  refine List.flatMap_congr ?_
  intro id _
  rw [hblock]
  cases held l id t <;> rfl

theorem mem_showings {t : Thread} {p : String × Record} :
    p ∈ showings order l t ↔ held l p.1 t = some p.2 := by
  rw [showings, List.mem_filterMap]
  constructor
  · rintro ⟨id, -, hp⟩
    obtain ⟨record, hheld, rfl⟩ := Option.map_eq_some_iff.mp hp
    exact hheld
  · intro hheld
    obtain ⟨hscored, hrevision, -⟩ := mem_of_held hheld
    refine ⟨p.1, mem_timeline.mpr ?_, Option.map_eq_some_iff.mpr ⟨p.2, hheld, rfl⟩⟩
    rw [← hrevision]
    exact h.scored p.2 hscored

/-- The threads of the records over time are those that some revision holds. -/
theorem mem_threadsFrom_iff {kind : Bool}
    (hkind : ∀ r ∈ l.filterMap Outcome.record?, r.unit.scope.isSome = kind) (order : WalkOrder)
    (t : Thread) :
    t ∈ (threadsFrom [] ((timeline order l).flatMap (block l))).map (·.1) ↔
      ∃ id record, held l id t = some record := by
  have hfilter := filter_threadsFrom_timeline h hkind order t
  calc t ∈ (threadsFrom [] ((timeline order l).flatMap (block l))).map (·.1)
      ↔ (showings order l t).map (fun p => (t, p.2)) ≠ [] := by
        rw [← hfilter, Ne, List.filter_eq_nil_iff, List.mem_map]
        simp only [beq_iff_eq, not_forall, not_not, exists_prop]
    _ ↔ ∃ id record, held l id t = some record := by
        rw [Ne, List.map_eq_nil_iff, List.eq_nil_iff_forall_not_mem, not_forall_not, Prod.exists]
        simp only [mem_showings h]

end

theorem map_fst_showings (order : WalkOrder) (l : List Outcome) (t : Thread) :
    (showings order l t).map (·.1) = (timeline order l).filter fun id => (held l id t).isSome := by
  rw [showings, List.map_filterMap, ← List.filterMap_eq_filter]
  refine List.filterMap_congr ?_
  intro id _
  cases hheld : held l id t <;> simp [Option.guard, hheld]

/-- A name whose scores are those of a thread has the entry of that thread. -/
theorem follows_fileTrend (hnodup : (timeline order l).Nodup) {t : Thread}
    (hshown : showings order l t ≠ []) {keyed : List (String × Float)}
    (hkeyed : (keyed.filter fun k => k.1 == t.key).map (·.2) =
      (showings order l t).map (·.2.score)) :
    Follows order l t (fileTrend keyed t.key) := by
  have honce : ((showings order l t).map (·.1)).Nodup := by
    rw [map_fst_showings]
    exact hnodup.filter _
  have hlen : 0 < ((showings order l t).map (·.2.score)).length := by
    rw [List.length_map]
    exact List.length_pos_iff.mpr hshown
  have hfilled : ∀ {score : Option Float}, score.isSome → score = some (score.getD 0)
    | some _, _ => rfl
  rw [fileTrend, hkeyed]
  refine ⟨rfl, honce, List.length_map _, ?_, ?_, ?_⟩
  · rw [← List.head?_map, List.headD_eq_head?_getD]
    exact hfilled (by simpa using hshown)
  · rw [← List.getLast?_map, List.getLastD_eq_getLast?]
    exact hfilled (by simpa using hshown)
  · dsimp only
    refine if_congr ?_ rfl rfl
    omega

/-- Threads whose names are apart are counted like their names. -/
theorem eraseDups_map {α β : Type} [BEq α] [LawfulBEq α] [BEq β] [LawfulBEq β] {f : α → β} :
    ∀ l : List α, (∀ a ∈ l, ∀ b ∈ l, f a = f b → a = b) →
      (l.map f).eraseDups = l.eraseDups.map f
  | [], _ => rfl
  | a :: l, hinj => by
    have hfilter : (l.map f).filter (fun b => !b == f a) = (l.filter fun b => !b == a).map f := by
      rw [List.filter_map]
      refine congrArg _ (List.filter_congr ?_)
      intro b hb
      have hiff : f b = f a ↔ b = a :=
        ⟨hinj b (List.mem_cons_of_mem _ hb) a List.mem_cons_self, congrArg f⟩
      rw [Function.comp_apply, Bool.eq_iff_iff, Bool.not_eq_true', Bool.not_eq_true',
        beq_eq_false_iff_ne, beq_eq_false_iff_ne, Ne, Ne, hiff]
    have hrest : ∀ b ∈ l.filter fun b => !b == a, b ∈ a :: l :=
      fun b hb => List.mem_cons_of_mem _ (List.mem_of_mem_filter hb)
    rw [List.map_cons, List.eraseDups_cons, List.eraseDups_cons, List.map_cons, hfilter,
      eraseDups_map _ fun b hb c hc => hinj b (hrest b hb) c (hrest c hc)]
  termination_by l => l.length
  decreasing_by exact Nat.lt_succ_of_le (List.length_filter_le _ l)

section

variable (h : OneToOne l) (hd : Distinct (l.filterMap Outcome.record?))

include h hd

/-- The scores under a thread's name are the thread's own. -/
theorem filter_keyedFrom_timeline (order : WalkOrder) {t : Thread}
    (ht : ∃ id record, held l id t = some record) :
    ((keyedFrom [] ((timeline order l).flatMap (block l))).filter fun k => k.1 == t.key).map
      (·.2) = (showings order l t).map (·.2.score) := by
  obtain ⟨kind, hkind⟩ := hd.exists_kind
  have hsound : ∀ {u}, (∃ id record, held l id u = some record) → u.Sound := by
    rintro u ⟨id, record, hheld⟩
    exact hd.sound hheld
  have hkeys : ∀ p ∈ threadsFrom [] ((timeline order l).flatMap (block l)),
      (p.1.key == t.key) = (p.1 == t) := by
    intro p hp
    have hheld := (mem_threadsFrom_iff h hkind order p.1).mp (List.mem_map_of_mem hp)
    rw [Bool.eq_iff_iff, beq_iff_eq, beq_iff_eq]
    exact ⟨Thread.key_inj (hsound hheld) (hsound ht), congrArg Thread.key⟩
  rw [keyedFrom_eq_map, List.filter_map, List.map_map]
  have hfilter := List.filter_congr hkeys
  rw [filter_threadsFrom_timeline h hkind order t] at hfilter
  calc (((threadsFrom [] ((timeline order l).flatMap (block l))).filter
        fun p => p.1.key == t.key).map fun p => p.2.score)
      = ((showings order l t).map fun p => (t, p.2)).map fun p => p.2.score := by rw [hfilter]
    _ = (showings order l t).map fun p => p.2.score := List.map_map

/-- **A report follows each thread under one entry**, in both orders of the walk. -/
theorem finish_ofThreads (order : WalkOrder) (about : Meta) (runId : String)
    (now : Time.Instant) :
    OfThreads order l ((Aggregator.collect order l).finish about runId now) := by
  obtain ⟨kind, hkind⟩ := hd.exists_kind
  have hrecords : ((Aggregator.collect order l).finish about runId now).records =
      (walked l).flatMap (block l) := h.sortedRecords_eq_flatMap order
  have hfiles : ((Aggregator.collect order l).finish about runId now).files =
      fileTrends ((timeline order l).flatMap (block l)) := by
    rw [← h.chronological_sortedRecords order]
    rfl
  generalize hrun : (timeline order l).flatMap (block l) = chronological at hfiles
  -- there are as many names as threads
  have hkeys : ((keyedFrom [] chronological).map (·.1)).eraseDups =
      (((threadsFrom [] chronological).map (·.1)).eraseDups).map Thread.key := by
    rw [← eraseDups_map, keyedFrom_eq_map, List.map_map, List.map_map]
    · rfl
    · intro t ht u hu
      rw [← hrun, mem_threadsFrom_iff h hkind] at ht hu
      obtain ⟨_, _, ht⟩ := ht
      obtain ⟨_, _, hu⟩ := hu
      exact Thread.key_inj (hd.sound ht) (hd.sound hu)
  refine ⟨⟨((threadsFrom [] chronological).map (·.1)).eraseDups.mergeSort fun t u => t.key ≤ u.key,
    ?_, ?_, ?_⟩, ?_, ?_⟩
  · exact (List.mergeSort_perm _ _).nodup_iff.mpr (nodup_eraseDups _)
  · intro t
    rw [List.mem_mergeSort, List.mem_eraseDups, ← hrun, mem_threadsFrom_iff h hkind]
  · rw [hfiles, fileTrends, hkeys,
      ← List.map_mergeSort (r := fun t u : Thread => t.key ≤ u.key) fun _ _ _ _ => rfl,
      List.map_map, List.forall₂_map_right_iff, List.forall₂_same]
    intro t ht
    rw [List.mem_mergeSort, List.mem_eraseDups, ← hrun, mem_threadsFrom_iff h hkind] at ht
    obtain ⟨id, record, hheld⟩ := ht
    refine follows_fileTrend (h.nodup_timeline order) ?_ ?_
    · exact List.ne_nil_of_mem ((mem_showings h (p := (id, record))).mpr hheld)
    · rw [← hrun]
      exact filter_keyedFrom_timeline h hd order ⟨id, record, hheld⟩
  · rw [hfiles]
    exact sorted_fileTrends _
  · rw [hfiles, sum_samples_fileTrends, hrecords, ← hrun]
    exact ((order.arrange_perm (walked l)).flatMap_right _).length_eq

end

/-- Two functions of one name; the newest revision, which comes first, has another one
between them. -/
def overloads : List Outcome :=
  let function (name : String) (line : Nat) (revision : String) (score : Float) : Outcome :=
    let unit := (Source.UnitId.file "a.cpp" revision).withScope ⟨name, "function", line, line⟩
    .scored ⟨unit, .cpp, default, score, .low, .epoch⟩
  [.revision 0 ⟨"r2", ["r1"], .epoch, "", "", []⟩, function "f" 9 "r2" 1,
    function "f" 1 "r1" 0.5, .revision 1 ⟨"r1", [], .epoch, "", "", []⟩,
    function "g" 5 "r2" 0.75, function "f" 1 "r2" 0.25, function "f" 5 "r1" 0]

theorem finish_ofThreads_overloads :
    (OneToOne overloads ∧ Distinct (overloads.filterMap Outcome.record?)) ∧
      OfThreads .newestFirst overloads
        ((Aggregator.collect .newestFirst overloads).finish ⟨"", "", .blank, false⟩ ""
          .epoch) := by
  have hone : OneToOne overloads := by
    refine ⟨by decide, ?_⟩
    simp [overloads, announced, Outcome.announced?, Source.UnitId.file, Source.UnitId.withScope]
  have hdistinct : Distinct (overloads.filterMap Outcome.record?) := by
    have hunits : ∀ r ∈ overloads.filterMap Outcome.record?, r.unit.path = "a.cpp" ∧
        (r.unit.scope.map (·.name) = some "f" ∨ r.unit.scope.map (·.name) = some "g") := by
      simp [overloads, Outcome.record?, Source.UnitId.withScope, Source.UnitId.file, or_imp,
        forall_and]
    refine ⟨.inr ?_, ?_, ?_⟩
    · intro r hr hnone
      simpa [hnone] using (hunits r hr).2
    · intro r hr
      rw [(hunits r hr).1]
      decide
    · intro r hr span hspan
      refine isPlain_of_notMem ?_
      rw [Option.mem_def] at hspan
      have hname := (hunits r hr).2
      simp only [hspan, Option.map_some, Option.some.injEq] at hname
      rcases hname with hname | hname <;> rw [hname] <;> decide
  exact ⟨⟨hone, hdistinct⟩, finish_ofThreads hone hdistinct .newestFirst _ _ _⟩

end Readability.Report
