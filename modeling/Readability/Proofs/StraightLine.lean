import Mathlib.Data.List.Nodup
import Mathlib.Data.List.TakeWhile
import Mathlib.Logic.Relation
import Readability.Git.Walk

/-!
# Walks along a straight line

In a log in which each commit has the one before it as its only parent (`Straight`) a walk has no
choice. A commit leads to itself and to what is behind it in the log (`leads_iff`), so what a range
holds is known, and only one order has all children before their parents (`eq_of_perm`).

Main statement: `isRange_iff`. Counted from the oldest commit, the commits of a range are the places
from the lower end on (`StartsAt`) up to the upper end, the latest first. The walk of the queue
comes to the same ones (`commitsBetween_eq`): never more than one commit waits in it.
-/

namespace Readability.Git

namespace Repository

/-- One commit of a log is a parent of another one. -/
def IsParent (r : Repository) (c parent : Commit) : Prop :=
  parent ∈ r.log ∧ parent.id ∈ c.parents

/-- A commit leads to itself, to its parents, and to all that they lead to. -/
def Leads (r : Repository) : Commit → Commit → Prop :=
  Relation.ReflTransGen r.IsParent

/-- The commits of a range, each once: all that the upper end leads to and the lower end does not,
children before their parents. -/
structure IsRange (r : Repository) (lower : Option Commit) (upper : Commit)
    (commits : List Commit) : Prop where
  nodup : commits.Nodup
  mem : ∀ c, c ∈ commits ↔ r.Leads upper c ∧ ∀ d ∈ lower, ¬ r.Leads d c
  order : commits.Pairwise fun c d => c.id ∉ d.parents

end Repository

/-- Commits in a straight line, the latest first. Behind the last one the line goes on
with the ids `below`. -/
def Straight (below : List String) : List Commit → Prop
  | [] => True
  | c :: older =>
    c.parents = (older.map (·.id) ++ below).head?.toList ∧
      c.id ∉ older.map (·.id) ++ below ∧ Straight below older

theorem Straight.of_append {below : List String} {newer older : List Commit}
    (h : Straight below (newer ++ older)) :
    Straight (older.map (·.id) ++ below) newer ∧ Straight below older := by
  induction newer with
  | nil => exact ⟨trivial, h⟩
  | cons c newer ih =>
    rw [List.cons_append] at h
    obtain ⟨hparents, hid, hrest⟩ := h
    obtain ⟨hnewer, holder⟩ := ih hrest
    rw [List.map_append, List.append_assoc] at hparents hid
    exact ⟨⟨hparents, hid, hnewer⟩, holder⟩

/-- No commit of a line has the latest one as its parent. -/
theorem Straight.mem_of_parent {below : List String} {log : List Commit} (h : Straight below log)
    {c : Commit} (hc : c ∈ log) {id : String} (hid : id ∈ c.parents) :
    id ∈ log.tail.map (·.id) ++ below := by
  induction log with
  | nil => exact absurd hc List.not_mem_nil
  | cons d older ih =>
    obtain ⟨hparents, -, hrest⟩ := h
    rcases List.mem_cons.mp hc with rfl | hc
    · rw [hparents] at hid
      exact List.mem_of_mem_head? (Option.mem_toList.mp hid)
    · rcases List.mem_append.mp (ih hrest hc) with hmem | hmem
      · exact List.mem_append_left _ (List.map_subset _ (List.tail_sublist _).subset hmem)
      · exact List.mem_append_right _ hmem

/-- All others are someone's parent. -/
theorem Straight.exists_child {below : List String} {c : Commit} {older : List Commit}
    (h : Straight below (c :: older)) {d : Commit} (hd : d ∈ older) :
    ∃ child ∈ c :: older, d.id ∈ child.parents := by
  induction older generalizing c with
  | nil => exact absurd hd List.not_mem_nil
  | cons next older ih =>
    obtain ⟨hparents, -, hrest⟩ := h
    rcases List.mem_cons.mp hd with rfl | hd
    · exact ⟨c, List.mem_cons_self, by rw [hparents]; exact List.mem_singleton_self _⟩
    · obtain ⟨child, hchild, hmem⟩ := ih hrest hd
      exact ⟨child, List.mem_cons_of_mem _ hchild, hmem⟩

/-- Whoever stands behind another commit is none of its parents. -/
theorem Straight.children_first {below : List String} {log : List Commit}
    (h : Straight below log) : log.Pairwise fun c d => c.id ∉ d.parents := by
  induction log with
  | nil => exact List.Pairwise.nil
  | cons c older ih =>
    refine List.pairwise_cons.mpr ⟨fun d hd hparent => h.2.1 ?_, ih h.2.2⟩
    exact h.mem_of_parent (List.mem_cons_of_mem c hd) hparent

/-- No commit of a line is its own parent. -/
theorem Straight.not_own_parent {below : List String} {log : List Commit} (h : Straight below log)
    {c : Commit} (hc : c ∈ log) : c.id ∉ c.parents := by
  obtain ⟨newer, older, rfl⟩ := List.append_of_mem hc
  have hrest := h.of_append.2
  exact fun hparent => hrest.2.1 (hrest.mem_of_parent List.mem_cons_self hparent)

/-- **A line has one order in which all children stand before their parents.** -/
theorem Straight.eq_of_perm {below : List String} {log : List Commit} (h : Straight below log)
    {commits : List Commit} (hperm : commits.Perm log)
    (horder : commits.Pairwise fun c d => c.id ∉ d.parents) : commits = log := by
  induction log generalizing commits with
  | nil => exact hperm.eq_nil
  | cons c older ih =>
    cases commits with
    | nil => exact absurd hperm.symm.eq_nil (List.cons_ne_nil c older)
    | cons first rest =>
      obtain ⟨hfirst, hrest⟩ := List.pairwise_cons.mp horder
      -- any other commit than the latest one has a child to wait for
      have hsame : first = c := by
        have hmem := hperm.subset List.mem_cons_self
        refine (List.mem_cons.mp hmem).resolve_right fun holder => ?_
        obtain ⟨child, hchild, hparent⟩ := h.exists_child holder
        rcases List.mem_cons.mp (hperm.symm.subset hchild) with rfl | hlater
        · exact h.not_own_parent hmem hparent
        · exact hfirst child hlater hparent
      subst hsame
      rw [ih h.2.2 hperm.cons_inv hrest]

/-! ## What ids lead to -/

/-- **Ids lead to all commits from the first one of theirs on.** -/
theorem reachable_eq {below : List String} {log : List Commit} (h : Straight below log)
    (wanted : List String) :
    reachable wanted log = log.dropWhile fun c => !wanted.contains c.id := by
  induction log generalizing wanted with
  | nil => rfl
  | cons c older ih =>
    obtain ⟨hparents, -, hrest⟩ := h
    rw [reachable, List.dropWhile_cons]
    by_cases hc : wanted.contains c.id = true
    · rw [if_pos hc, hc, ih hrest, hparents]
      cases older with
      | nil => rfl
      | cons d older =>
        have hd : ((((d :: older).map (·.id) ++ below).head?.toList ++ wanted).contains d.id) =
            true := List.contains_iff_mem.mpr List.mem_cons_self
        rw [List.dropWhile_cons, hd]
        rfl
    · rw [if_neg hc, if_pos (by rw [Bool.not_eq_true', ← Bool.not_eq_true]; exact hc), ih hrest]

/-! ## One commit after the other -/

namespace Queue

/-- The queue of one commit. -/
def single (c : Commit) : Queue := ⟨#[c]⟩

theorem insert_empty (c : Commit) : empty.insert c = single c := by
  rw [insert, rise]
  rfl

theorem take?_single (c : Commit) : (single c).take? = some (c, empty) := by
  have hsink : sink #[] 0 = #[] := by
    rw [sink]
    rfl
  show some (c, (⟨sink #[] 0⟩ : Queue)) = _
  rw [hsink]
  rfl

end Queue

/-- In a line the next commit becomes free, and no other one. -/
theorem released_eq {below : List String} {c : Commit} {older : List Commit}
    (h : Straight below (c :: older)) : released older c.parents = older.head?.toList := by
  obtain ⟨hparents, -, hrest⟩ := h
  rw [hparents]
  cases older with
  | nil =>
    cases below with
    | nil => rfl
    | cons id below => rfl
  | cons d older =>
    obtain ⟨-, hid, -⟩ := id hrest
    have hwaits : (d :: older).any (fun c => c.parents.contains d.id) = false := by
      rw [List.any_eq_false]
      intro child hchild hparent
      exact hid (hrest.mem_of_parent hchild (List.contains_iff_mem.mp hparent))
    have hnext : (d :: older).find? (fun c => c.id == d.id) = some d :=
      List.find?_cons_of_pos (beq_self_eq_true d.id)
    show released (d :: older) [d.id] = [d]
    rw [released, hwaits, hnext]
    rfl

theorem arrange_empty (count : Nat) (waiting : List Commit) :
    arrange count .empty waiting = [] := by
  cases count with
  | zero => rfl
  | succ count => rfl

theorem arrange_eq {below : List String} {c : Commit} {older : List Commit}
    (h : Straight below (c :: older)) {count : Nat} (hcount : older.length ≤ count) :
    arrange (count + 1) (Queue.single c) (c :: older) = c :: older := by
  induction older generalizing c count with
  | nil =>
    have hleft : [c].filter (fun other => other.id != c.id) = [] := by simp
    have hfree := released_eq h
    rw [arrange, Queue.take?_single]
    dsimp only
    rw [hleft, hfree]
    exact congrArg _ (arrange_empty count [])
  | cons d older ih =>
    have hleft : (c :: d :: older).filter (fun other => other.id != c.id) = d :: older := by
      have hid : c.id ∉ (d :: older).map (·.id) := fun hmem => h.2.1 (List.mem_append_left _ hmem)
      rw [List.filter_cons_of_neg (by simp), List.filter_eq_self]
      intro other hother
      rw [bne_iff_ne]
      intro hsame
      exact hid (hsame ▸ List.mem_map_of_mem hother)
    have hfree := released_eq h
    obtain ⟨count, rfl⟩ : ∃ k, count = k + 1 :=
      Nat.exists_eq_add_one.mpr (Nat.lt_of_lt_of_le (Nat.zero_lt_succ _) hcount)
    rw [arrange, Queue.take?_single]
    dsimp only
    rw [hleft, hfree]
    show c :: arrange (count + 1) (Queue.empty.insert d) (d :: older) = _
    rw [Queue.insert_empty, ih h.2.2 (Nat.le_of_succ_le_succ hcount)]

/-- **A line is written as it stands.** -/
theorem topological_eq {below : List String} {log : List Commit} (h : Straight below log) :
    topological log = log := by
  cases log with
  | nil => rfl
  | cons c older =>
    have htips : (c :: older).filter (fun c' => !(c :: older).any fun child =>
        child.parents.contains c'.id) = [c] := by
      rw [List.filter_cons_of_pos, List.filter_eq_nil_iff.mpr]
      · intro d hd hnone
        obtain ⟨child, hchild, hparent⟩ := h.exists_child hd
        rw [Bool.not_eq_true', List.any_eq_false] at hnone
        exact hnone child hchild (List.contains_iff_mem.mpr hparent)
      · rw [Bool.not_eq_true', List.any_eq_false]
        intro child hchild hparent
        exact h.2.1 (h.mem_of_parent hchild (List.contains_iff_mem.mp hparent))
    rw [topological, htips]
    show arrange (older.length + 1) (Queue.empty.insert c) (c :: older) = _
    rw [Queue.insert_empty, arrange_eq h (Nat.le_refl _)]

/-! ## Ranges -/

theorem Straight.nodup {below : List String} {log : List Commit} (h : Straight below log) :
    (log.map (·.id)).Nodup := by
  induction log with
  | nil => exact List.nodup_nil
  | cons c older ih =>
    obtain ⟨-, hid, hrest⟩ := h
    exact List.nodup_cons.mpr ⟨fun hmem => hid (List.mem_append_left _ hmem), ih hrest⟩

/-- Where a range starts in a line whose oldest commit comes first: behind the lower end, or with
the first commit when there is no lower end. -/
inductive StartsAt (trunk : List Commit) : Option Commit → Nat → Prop
  | whole : StartsAt trunk none 0
  | behind {c : Commit} {place : Nat} (h : trunk[place]? = some c) :
      StartsAt trunk (some c) (place + 1)

theorem StartsAt.mem {trunk : List Commit} {lower : Option Commit} {first : Nat}
    (h : StartsAt trunk lower first) : ∀ c ∈ lower, c ∈ trunk := by
  cases h with
  | whole => exact fun _ hnone => nomatch hnone
  | behind hplace =>
    rintro c ⟨⟩
    exact List.mem_of_getElem? hplace

theorem exists_startsAt {trunk : List Commit} {lower : Option Commit}
    (h : ∀ c ∈ lower, c ∈ trunk) : ∃ first, StartsAt trunk lower first := by
  cases lower with
  | none => exact ⟨0, .whole⟩
  | some c =>
    obtain ⟨place, hplace⟩ := List.mem_iff_getElem?.mp (h c rfl)
    exact ⟨place + 1, .behind hplace⟩

section Line

-- the commits of a line, the oldest first
variable {trunk : List Commit} (htrunk : Straight [] trunk.reverse)
include htrunk

theorem nodup_of_straight : (trunk.map (·.id)).Nodup := by
  have hnodup := htrunk.nodup
  rwa [List.map_reverse, List.nodup_reverse] at hnodup

/-- Before and behind a place the ids are others. -/
theorem id_ne_of_place {place : Nat} {c d : Commit} (hc : c ∈ trunk.take place)
    (hd : d ∈ trunk.drop place) : c.id ≠ d.id := by
  have hnodup := nodup_of_straight htrunk
  rw [← List.take_append_drop place trunk, List.map_append] at hnodup
  exact (List.nodup_append.mp hnodup).2.2 _ (List.mem_map_of_mem hc) _ (List.mem_map_of_mem hd)

/-- An id leads to the commits of a line up to its own. -/
theorem reachable_of_place {c : Commit} {place : Nat} (hc : trunk[place]? = some c) :
    reachable [c.id] trunk.reverse = (trunk.take (place + 1)).reverse := by
  have hsplit : trunk.reverse =
      (trunk.drop (place + 1)).reverse ++ (trunk.take (place + 1)).reverse := by
    rw [← List.reverse_append, List.take_append_drop]
  have hfirst : trunk.take (place + 1) = trunk.take place ++ [c] := by
    rw [List.take_add_one, hc]
    rfl
  rw [reachable_eq htrunk, hsplit, List.dropWhile_append_of_pos, hfirst, List.reverse_concat,
    List.dropWhile_cons_of_neg (by simp)]
  -- what comes later in the line has other ids
  intro d hd
  have hother : c.id ≠ d.id := by
    refine id_ne_of_place htrunk ?_ (List.mem_reverse.mp hd)
    rw [hfirst]
    exact List.mem_append_right _ (List.mem_singleton_self c)
  simpa using hother.symm

theorem StartsAt.reachable_eq {lower : Option Commit} {first : Nat}
    (h : StartsAt trunk lower first) :
    reachable (lower.map (·.id)).toList trunk.reverse = (trunk.take first).reverse := by
  cases h with
  | whole =>
    rw [Git.reachable_eq htrunk]
    exact List.dropWhile_eq_nil_iff.mpr fun _ _ => rfl
  | behind hplace => exact reachable_of_place htrunk hplace

/-- What is left of a line behind its first commits. -/
theorem filter_take (first last : Nat) :
    ((trunk.take last).reverse.filter fun c =>
        !(((trunk.take first).reverse.map (·.id)).contains c.id)) =
      ((trunk.take last).drop first).reverse := by
  have hsplit := List.take_append_drop first (trunk.take last)
  have hgone : ((trunk.take last).take first).filter (fun c =>
      !(((trunk.take first).reverse.map (·.id)).contains c.id)) = [] := by
    rw [List.filter_eq_nil_iff]
    intro c hc hleft
    have hmem : c ∈ trunk.take first := by
      rw [List.take_take, Nat.min_comm, ← List.take_take] at hc
      exact List.mem_of_mem_take hc
    rw [Bool.not_eq_true', ← Bool.not_eq_true, List.contains_iff_mem] at hleft
    exact hleft (List.mem_map_of_mem (List.mem_reverse.mpr hmem))
  have hkept : ((trunk.take last).drop first).filter (fun c =>
      !(((trunk.take first).reverse.map (·.id)).contains c.id)) = (trunk.take last).drop first := by
    rw [List.filter_eq_self]
    intro d hd
    rw [Bool.not_eq_true', ← Bool.not_eq_true, List.contains_iff_mem]
    intro hmem
    obtain ⟨c, hc, hsame⟩ := List.mem_map.mp hmem
    rw [List.drop_take] at hd
    exact id_ne_of_place htrunk (List.mem_reverse.mp hc) (List.mem_of_mem_take hd) hsame
  rw [List.filter_reverse]
  conv_lhs => rw [← hsplit]
  rw [List.filter_append, hgone, hkept, List.nil_append]

/-- The places between two others are a line of their own. -/
theorem straight_between (first last : Nat) :
    ∃ below, Straight below ((trunk.take last).drop first).reverse := by
  have hsplit : trunk.reverse = (trunk.drop last).reverse ++
      (((trunk.take last).drop first).reverse ++ ((trunk.take last).take first).reverse) := by
    rw [← List.reverse_append, ← List.reverse_append, List.take_append_drop,
      List.take_append_drop]
  rw [hsplit] at htrunk
  exact ⟨_, htrunk.of_append.2.of_append.1⟩

theorem mem_between (first last : Nat) (c : Commit) :
    c ∈ ((trunk.take last).drop first).reverse ↔ c ∈ trunk.take last ∧ c ∉ trunk.take first := by
  rw [← filter_take htrunk, List.mem_filter, List.mem_reverse]
  refine and_congr_right fun hc => ?_
  rw [Bool.not_eq_true', ← Bool.not_eq_true, List.contains_iff_mem, not_iff_not]
  constructor
  · intro hid
    obtain ⟨d, hd, hsame⟩ := List.mem_map.mp hid
    have hd := List.mem_reverse.mp hd
    rwa [← List.inj_on_of_nodup_map (nodup_of_straight htrunk) (List.mem_of_mem_take hd)
      (List.mem_of_mem_take hc) hsame]
  · exact fun hmem => List.mem_map_of_mem (List.mem_reverse.mpr hmem)

end Line

namespace Repository

variable {r : Repository} {trunk : List Commit}

/-- **Between two places of a line stand the commits of a range.** -/
theorem commitsBetween_eq (hr : r.lost = []) (hlog : r.log = trunk.reverse)
    (htrunk : Straight [] trunk.reverse) {upper : Commit} {last : Nat}
    (hupper : trunk[last]? = some upper)
    {lower : Option Commit} {first : Nat} (hlower : StartsAt trunk lower first) :
    r.commitsBetween lower upper = .ok ((trunk.take (last + 1)).drop first).reverse := by
  have hnone : ∀ commits, r.firstLost? commits = none := by
    intro commits
    rw [firstLost?, List.findSome?_eq_none_iff]
    intro c _
    rw [List.find?_eq_none]
    intro id _ hlost
    rw [isLost, hr] at hlost
    cases hlost
  obtain ⟨below, hstraight⟩ := straight_between htrunk first (last + 1)
  rw [commitsBetween]
  dsimp only
  rw [hnone, hlog, hlower.reachable_eq htrunk, reachable_of_place htrunk hupper,
    filter_take htrunk, topological_eq hstraight]

/-- A commit of a line leads to itself and to all that is behind it. -/
theorem leads_iff_of_suffix (hline : Straight [] r.log) {c : Commit} {older : List Commit}
    (hsuffix : c :: older <:+ r.log) {d : Commit} : r.Leads c d ↔ d ∈ c :: older := by
  have hhead : r.Leads c d ↔ c = d ∨ ∃ p, r.IsParent c p ∧ r.Leads p d :=
    Relation.ReflTransGen.cases_head_iff
  have hstraight : Straight [] (c :: older) := by
    obtain ⟨newer, hlog⟩ := hsuffix
    rw [← hlog] at hline
    exact hline.of_append.2
  rw [hhead, List.mem_cons, eq_comm]
  refine or_congr_right ?_
  -- down the line: a commit's only parent is the one behind it
  cases older with
  | nil =>
    refine iff_of_false ?_ List.not_mem_nil
    rintro ⟨p, ⟨-, hparent⟩, -⟩
    rw [hstraight.1] at hparent
    exact List.not_mem_nil hparent
  | cons next older =>
    have hnext := (List.suffix_cons c (next :: older)).trans hsuffix
    rw [← leads_iff_of_suffix hline hnext]
    have hmem : next ∈ r.log := hnext.subset List.mem_cons_self
    constructor
    · rintro ⟨p, ⟨hp, hparent⟩, hleads⟩
      rw [hstraight.1] at hparent
      have hid : p.id = next.id := List.mem_singleton.mp hparent
      rwa [List.inj_on_of_nodup_map hline.nodup hp hmem hid] at hleads
    · intro hleads
      refine ⟨next, ⟨hmem, ?_⟩, hleads⟩
      rw [hstraight.1]
      exact List.mem_singleton_self next.id

/-- Counted from the oldest commit, a commit leads to the places up to its own. -/
theorem leads_iff (hlog : r.log = trunk.reverse) (htrunk : Straight [] trunk.reverse) {c : Commit}
    {place : Nat} (hc : trunk[place]? = some c) {d : Commit} :
    r.Leads c d ↔ d ∈ trunk.take (place + 1) := by
  have hback : (trunk.take (place + 1)).reverse = c :: (trunk.take place).reverse := by
    rw [List.take_add_one, hc, Option.toList_some, List.reverse_concat]
  have hsuffix : c :: (trunk.take place).reverse <:+ r.log := by
    rw [← hback, hlog, List.reverse_suffix]
    exact List.take_prefix _ _
  rw [leads_iff_of_suffix (by rwa [hlog]) hsuffix, ← hback, List.mem_reverse]

/-- The lower end of a range leads to the places before the first one. -/
theorem leads_iff_of_startsAt (hlog : r.log = trunk.reverse) (htrunk : Straight [] trunk.reverse)
    {lower : Option Commit} {first : Nat} (h : StartsAt trunk lower first) (c : Commit) :
    (∃ d ∈ lower, r.Leads d c) ↔ c ∈ trunk.take first := by
  cases h with
  | whole =>
    rw [List.take_zero]
    exact iff_of_false (fun ⟨_, hnone, _⟩ => nomatch hnone) List.not_mem_nil
  | behind hplace =>
    rw [← leads_iff hlog htrunk hplace]
    simp only [Option.mem_some_iff, exists_eq_left']

/-- **The commits of a range of a line are those between two places, the latest first.** -/
theorem isRange_iff (hlog : r.log = trunk.reverse) (htrunk : Straight [] trunk.reverse)
    {upper : Commit} {last : Nat} (hupper : trunk[last]? = some upper) {lower : Option Commit}
    {first : Nat} (hlower : StartsAt trunk lower first) {commits : List Commit} :
    r.IsRange lower upper commits ↔ commits = ((trunk.take (last + 1)).drop first).reverse := by
  obtain ⟨below, hstraight⟩ := straight_between htrunk first (last + 1)
  have hmem : ∀ c, c ∈ ((trunk.take (last + 1)).drop first).reverse ↔
      r.Leads upper c ∧ ∀ d ∈ lower, ¬ r.Leads d c := by
    intro c
    rw [mem_between htrunk, leads_iff hlog htrunk hupper,
      ← leads_iff_of_startsAt hlog htrunk hlower]
    simp only [not_exists, not_and]
  have hnodup := List.Nodup.of_map _ hstraight.nodup
  constructor
  · -- the commits are the same, and there is one order for them
    intro h
    have hperm := (List.perm_ext_iff_of_nodup h.nodup hnodup).mpr fun c => by rw [h.mem, hmem]
    exact hstraight.eq_of_perm hperm h.order
  · rintro rfl
    exact ⟨hnodup, hmem, hstraight.children_first⟩

/-- The walk of the queue along a line yields the commits of the range. -/
theorem isRange_commitsBetween (hr : r.lost = []) (hline : Straight [] r.log) {upper : Commit}
    (hupper : upper ∈ r.log) {lower : Option Commit} (hlower : ∀ c ∈ lower, c ∈ r.log) :
    ∃ commits, r.commitsBetween lower upper = .ok commits ∧ r.IsRange lower upper commits := by
  have hlog : r.log = r.log.reverse.reverse := (List.reverse_reverse _).symm
  have htrunk : Straight [] r.log.reverse.reverse := by rwa [← hlog]
  obtain ⟨last, hlast⟩ := List.mem_iff_getElem?.mp (List.mem_reverse.mpr hupper)
  obtain ⟨first, hfirst⟩ := exists_startsAt fun c hc => List.mem_reverse.mpr (hlower c hc)
  exact ⟨_, commitsBetween_eq hr hlog htrunk hlast hfirst,
    (isRange_iff hlog htrunk hlast hfirst).mpr rfl⟩

end Repository

end Readability.Git
