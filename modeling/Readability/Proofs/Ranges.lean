import Readability.Proofs.Snapshots

/-!
# Ranges of a history in memory

The ends of a range stand at places of the history: the upper one at that of an id or
of the head (`EndsAt`), the lower one right behind an id or before all commits
(`StartsAt`). A range leads astray exactly when an end names no commit, or the head is
meant where there is none (`Astray`).

Where both ends are known, so is the walk (`walk_of_ends`): it takes a stretch of the
history, turns it round, and only then looks at the limit and the order.

Main statement: `walkLaws`. Which commits a walk yields is said by their places alone,
and ranges that meet at a commit join into one.
-/

namespace Readability.History.Memory

variable {h : Memory}

/-! ## The ends of a range -/

/-- The commit of an id stands at a place, counted from the oldest one. -/
def StandsAt (h : Memory) (id : String) (place : Nat) : Prop :=
  h.ids[place]? = some id

/-- A range ends at a place. The last commit is the head, and is meant where no end is
given. -/
def EndsAt (h : Memory) (upper : Option String) (place : Nat) : Prop :=
  (upper = none ∨ upper = some "HEAD") ∧ place + 1 = h.snapshots.length ∨
    ∃ id, upper = some id ∧ h.StandsAt id place

/-- A range starts at a place: behind the commit of an id, or with the oldest one. -/
def StartsAt (h : Memory) (lower : Option String) (place : Nat) : Prop :=
  match lower with
  | none => place = 0
  | some id => ∃ before, h.StandsAt id before ∧ place = before + 1

/-- An end of a range leads to no commit. Only an upper end can name the head. -/
def Astray (h : Memory) (range : RevisionRange) : Prop :=
  (∃ id, range.lower = some id ∧ id ∉ h.ids) ∨
    (∃ id, range.upper = some id ∧ id ≠ "HEAD" ∧ id ∉ h.ids) ∨
    h.snapshots = [] ∧ (range.upper = none ∨ range.upper = some "HEAD")

/-- A range selects a place: it lies behind the lower end, and the upper end does not lie
before it. -/
def Selects (h : Memory) (lower upper : Option String) (place : Nat) : Prop :=
  (∀ id, lower = some id → ∃ first, h.StandsAt id first ∧ first < place) ∧
    ∃ last, h.EndsAt upper last ∧ place ≤ last

theorem exists_standsAt {id : String} (hid : id ∈ h.ids) : ∃ place, h.StandsAt id place :=
  List.getElem?_of_mem hid

/-- An id stands at one place only. -/
theorem StandsAt.unique (hids : h.ids.Nodup) {id : String} {place other : Nat}
    (hplace : h.StandsAt id place) (hother : h.StandsAt id other) : place = other := by
  obtain ⟨hlt, -⟩ := List.getElem?_eq_some_iff.mp hplace
  exact (List.getElem?_inj hlt hids).mp (hplace.trans hother.symm)

/-- The search for an id finds where it stands. -/
theorem indexOf_eq_ok_iff (hids : h.ids.Nodup) {id : String} {place : Nat} :
    h.indexOf id = .ok place ↔ h.StandsAt id place := by
  rcases hfind : h.snapshots.findIdx? fun s => s.revision.id == id with _ | found
  · have hnone : ¬ h.StandsAt id place := by
      intro hplace
      obtain ⟨s, hs, hid⟩ := List.mem_map.mp (List.mem_of_getElem? hplace)
      have hother := List.findIdx?_eq_none_iff.mp hfind s hs
      rw [beq_eq_false_iff_ne] at hother
      exact hother hid
    rw [indexOf, hfind]
    exact iff_of_false nofun hnone
  · obtain ⟨hlt, hid, -⟩ := List.findIdx?_eq_some_iff_getElem.mp hfind
    rw [beq_iff_eq] at hid
    have hfound : h.StandsAt id found := by
      rw [StandsAt, ids, List.getElem?_map, List.getElem?_eq_getElem hlt, Option.map_some, hid]
    rw [indexOf, hfind]
    constructor
    · intro hplace
      injection hplace with hplace
      exact hplace ▸ hfound
    · intro hplace
      rw [hfound.unique hids hplace]

theorem upperIndex_eq_ok_iff (hids : h.ids.Nodup) (hhead : "HEAD" ∉ h.ids)
    {upper : Option String} {last : Nat} :
    h.upperIndex upper = .ok last ↔ h.EndsAt upper last := by
  -- no commit has the head's name, so only one of the two ways to end can apply
  by_cases hmeant : upper = none ∨ upper = some "HEAD"
  · have hname : (upper.getD "HEAD" == "HEAD") = true := by
      rcases hmeant with rfl | rfl <;> rfl
    have hplace : ¬ ∃ id, upper = some id ∧ h.StandsAt id last := by
      rintro ⟨id, hid, hplace⟩
      rcases hmeant with rfl | rfl
      · cases hid
      · cases hid
        exact hhead (List.mem_of_getElem? hplace)
    rw [upperIndex, if_pos hname, EndsAt, or_iff_left hplace, and_iff_right hmeant]
    by_cases hnone : h.snapshots.isEmpty = true
    · rw [if_pos hnone, List.isEmpty_iff.mp hnone]
      refine iff_of_false ?_ (Nat.succ_ne_zero last)
      rintro ⟨⟩
    · have hpos := List.length_pos_of_ne_nil fun hnil => hnone (List.isEmpty_iff.mpr hnil)
      rw [if_neg hnone, Except.ok.injEq]
      omega
  · obtain ⟨id, rfl⟩ : ∃ id, upper = some id :=
      Option.ne_none_iff_exists'.mp fun hnone => hmeant (.inl hnone)
    have hname : ¬ ((some id).getD "HEAD" == "HEAD") = true := by
      rw [beq_iff_eq]
      exact fun hid => hmeant (.inr (congrArg some hid))
    rw [upperIndex, if_neg hname, EndsAt, or_iff_right fun hlast => hmeant hlast.1]
    refine (indexOf_eq_ok_iff hids).trans ⟨fun hplace => ⟨id, rfl, hplace⟩, ?_⟩
    rintro ⟨_, hid, hplace⟩
    cases hid
    exact hplace

theorem lowerCount_eq_ok_iff (hids : h.ids.Nodup) {lower : Option String} {first : Nat} :
    h.lowerCount lower = .ok first ↔ h.StartsAt lower first := by
  cases lower with
  | none =>
    rw [lowerCount, Except.ok.injEq]
    exact eq_comm
  | some id =>
    show (h.indexOf id).map (· + 1) = .ok first ↔
      ∃ before, h.StandsAt id before ∧ first = before + 1
    simp only [← indexOf_eq_ok_iff hids]
    rcases h.indexOf id with e | place
    · refine iff_of_false nofun ?_
      rintro ⟨_, hplace, -⟩
      cases hplace
    · refine ⟨fun hfirst => ⟨place, rfl, ?_⟩, ?_⟩
      · injection hfirst with hfirst
        exact hfirst.symm
      · rintro ⟨_, hplace, rfl⟩
        cases hplace
        rfl

/-- A range that leads astray lacks an end, and any other has both. -/
theorem not_astray_iff {range : RevisionRange} :
    ¬ h.Astray range ↔ ∃ first last, h.StartsAt range.lower first ∧ h.EndsAt range.upper last := by
  constructor
  · intro hrange
    obtain ⟨hlower, hupper, hsome⟩ := by simpa only [Astray, not_or] using hrange
    have hfirst : ∃ first, h.StartsAt range.lower first := by
      rcases hlow : range.lower with _ | id
      · exact ⟨0, rfl⟩
      · obtain ⟨place, hplace⟩ := exists_standsAt (by_contra fun hid => hlower ⟨id, hlow, hid⟩)
        exact ⟨place + 1, place, hplace, rfl⟩
    have hlast : ∃ last, h.EndsAt range.upper last := by
      by_cases hmeant : range.upper = none ∨ range.upper = some "HEAD"
      · have hpos := List.length_pos_of_ne_nil fun hnone => hsome ⟨hnone, hmeant⟩
        exact ⟨h.snapshots.length - 1, .inl ⟨hmeant, by omega⟩⟩
      · obtain ⟨id, hup⟩ : ∃ id, range.upper = some id :=
          Option.ne_none_iff_exists'.mp fun hnone => hmeant (.inl hnone)
        have hname : id ≠ "HEAD" := fun hid => hmeant (.inr (hid ▸ hup))
        obtain ⟨place, hplace⟩ :=
          exists_standsAt (by_contra fun hid => hupper ⟨id, hup, hname, hid⟩)
        exact ⟨place, .inr ⟨id, hup, hplace⟩⟩
    obtain ⟨first, hfirst⟩ := hfirst
    obtain ⟨last, hlast⟩ := hlast
    exact ⟨first, last, hfirst, hlast⟩
  · rintro ⟨first, last, hfirst, hlast⟩ (⟨id, hlow, hid⟩ | ⟨id, hup, hname, hid⟩ | ⟨hnone, -⟩)
    · rw [hlow] at hfirst
      obtain ⟨before, hplace, -⟩ := hfirst
      exact hid (List.mem_of_getElem? hplace)
    · rcases hlast with ⟨hnot | hnot, -⟩ | ⟨_, hsame, hplace⟩
      · rw [hup] at hnot
        cases hnot
      · rw [hup] at hnot
        exact hname (Option.some.inj hnot)
      · rw [hup] at hsame
        cases hsame
        exact hid (List.mem_of_getElem? hplace)
    · rcases hlast with ⟨-, hlength⟩ | ⟨id, -, hplace⟩
      · rw [hnone] at hlength
        exact absurd hlength (Nat.succ_ne_zero last)
      · have hmem : id ∈ h.ids := List.mem_of_getElem? hplace
        rw [ids, hnone] at hmem
        exact absurd hmem List.not_mem_nil

/-! ## The walk between two ends -/

/-- **Between two ends the walk takes what stands there.** -/
theorem walk_of_ends (hids : h.ids.Nodup) (hhead : "HEAD" ∉ h.ids) (range : RevisionRange)
    {first last : Nat} (hfirst : h.StartsAt range.lower first)
    (hlast : h.EndsAt range.upper last) (order : WalkOrder) :
    h.walk range order = .ok (match order with
      | .newestFirst => h.newest first last range.limit
      | .chronological => (h.newest first last range.limit).reverse) := by
  rw [walk, (upperIndex_eq_ok_iff hids hhead).mpr hlast, (lowerCount_eq_ok_iff hids).mpr hfirst]
  rfl

/-- Without ends there is no walk. -/
theorem ends_of_walk (hids : h.ids.Nodup) (hhead : "HEAD" ∉ h.ids) {range : RevisionRange}
    {order : WalkOrder} {revisions : List Revision} (hwalk : h.walk range order = .ok revisions) :
    ∃ first last, h.StartsAt range.lower first ∧ h.EndsAt range.upper last := by
  rw [walk] at hwalk
  rcases hlast : h.upperIndex range.upper with e | last
  · rw [hlast] at hwalk
    cases hwalk
  rcases hfirst : h.lowerCount range.lower with e | first
  · rw [hlast, hfirst] at hwalk
    cases hwalk
  exact ⟨first, last, (lowerCount_eq_ok_iff hids).mp hfirst,
    (upperIndex_eq_ok_iff hids hhead).mp hlast⟩

/-! ## Faults of a range -/

theorem indexOf_eq_error {id : String} {e : FatalError} (hid : h.indexOf id = .error e) :
    ∃ reason, e = .invalidRange reason := by
  rw [indexOf] at hid
  split at hid
  · cases hid
  · cases hid
    exact ⟨_, rfl⟩

theorem upperIndex_eq_error {upper : Option String} {e : FatalError}
    (hlast : h.upperIndex upper = .error e) : ∃ reason, e = .invalidRange reason := by
  rw [upperIndex] at hlast
  split at hlast
  · split at hlast
    · cases hlast
      exact ⟨_, rfl⟩
    · cases hlast
  · exact indexOf_eq_error hlast

theorem lowerCount_eq_error {lower : Option String} {e : FatalError}
    (hfirst : h.lowerCount lower = .error e) : ∃ reason, e = .invalidRange reason := by
  cases lower with
  | none => cases hfirst
  | some id =>
    rw [lowerCount] at hfirst
    rcases hid : h.indexOf id with e' | place
    · rw [hid] at hfirst
      cases hfirst
      exact indexOf_eq_error hid
    · rw [hid] at hfirst
      cases hfirst

/-- Whatever keeps a walk from its revisions is a fault of its range. -/
theorem walk_eq_error {range : RevisionRange} {order : WalkOrder} {e : FatalError}
    (hwalk : h.walk range order = .error e) : ∃ reason, e = .invalidRange reason := by
  rw [walk] at hwalk
  rcases hlast : h.upperIndex range.upper with e' | last
  · rw [hlast] at hwalk
    cases hwalk
    exact upperIndex_eq_error hlast
  rcases hfirst : h.lowerCount range.lower with e' | first
  · rw [hlast, hfirst] at hwalk
    cases hwalk
    exact lowerCount_eq_error hfirst
  · rw [hlast, hfirst] at hwalk
    cases hwalk

/-! ## Stretches of a history -/

/-- What stands between two places holds the commits of these places and of those between
them. -/
theorem mem_newest_iff (hids : h.ids.Nodup) {first last place : Nat} {r : Revision}
    (hr : h.revisions[place]? = some r) :
    r ∈ h.newest first last none ↔ first ≤ place ∧ place ≤ last := by
  have hnodup : h.revisions.Nodup := by
    refine List.Nodup.of_map (·.id) ?_
    rw [revisions, List.map_map]
    exact hids
  obtain ⟨hlt, hget⟩ := List.getElem?_eq_some_iff.mp hr
  -- the place of a commit in the history is known, since no commit comes twice
  have hslice : h.newest first last none = ((h.revisions.take (last + 1)).drop first).reverse := by
    rw [newest, revisions, List.map_reverse, List.map_drop, List.map_take]
  rw [hslice, List.mem_reverse, List.mem_iff_getElem?]
  simp only [List.getElem?_drop, List.getElem?_take]
  constructor
  · rintro ⟨i, hi⟩
    split at hi
    · have hsame := (List.getElem?_inj hlt hnodup).mp (hr.trans hi.symm)
      omega
    · cases hi
  · rintro ⟨hfirst, hlast⟩
    refine ⟨place - first, ?_⟩
    rw [Nat.add_sub_cancel' hfirst, if_pos (by omega), hr]

/-- Stretches that meet make up one. -/
theorem newest_append {first middle last : Nat} (hfirst : first ≤ middle + 1)
    (hlast : middle ≤ last) :
    h.newest (middle + 1) last none ++ h.newest first middle none = h.newest first last none := by
  have htake : h.snapshots.take (middle + 1) = (h.snapshots.take (last + 1)).take (middle + 1) := by
    rw [List.take_take, Nat.min_eq_left (by omega)]
  have hsplit : (h.snapshots.take (middle + 1)).drop first ++
      (h.snapshots.take (last + 1)).drop (middle + 1) =
        (h.snapshots.take (last + 1)).drop first := by
    rw [htake, List.drop_take]
    have hjoin := List.take_append_drop (middle + 1 - first)
      ((h.snapshots.take (last + 1)).drop first)
    rwa [List.drop_drop, Nat.add_sub_cancel' hfirst] at hjoin
  simp only [newest]
  rw [← List.map_append, ← List.reverse_append, hsplit]

theorem newest_eq_nil {first last : Nat} (hle : last < first) (limit : Option Nat) :
    h.newest first last limit = [] := by
  have hnone : (h.snapshots.take (last + 1)).drop first = [] := by
    rw [List.drop_eq_nil_iff, List.length_take]
    omega
  cases limit with
  | none => simp only [newest, hnone, List.reverse_nil, List.map_nil]
  | some limit => simp only [newest, hnone, List.reverse_nil, List.map_nil, List.take_nil]

/-! ## The laws of the walk -/

/-- A range selects the places from its start to its end. -/
theorem selects_iff (hids : h.ids.Nodup) (hhead : "HEAD" ∉ h.ids) {lower upper : Option String}
    {first last : Nat} (hfirst : h.StartsAt lower first) (hlast : h.EndsAt upper last)
    (place : Nat) : h.Selects lower upper place ↔ first ≤ place ∧ place ≤ last := by
  have hlower : (∀ id, lower = some id → ∃ before, h.StandsAt id before ∧ before < place) ↔
      first ≤ place := by
    cases lower with
    | none =>
      rw [show first = 0 from hfirst]
      exact iff_of_true nofun (Nat.zero_le place)
    | some id =>
      obtain ⟨before, hbefore, rfl⟩ := hfirst
      constructor
      · intro hall
        obtain ⟨other, hother, hlt⟩ := hall id rfl
        rwa [hother.unique hids hbefore] at hlt
      · rintro hlt _ ⟨⟩
        exact ⟨before, hbefore, hlt⟩
  have hupper : (∃ last, h.EndsAt upper last ∧ place ≤ last) ↔ place ≤ last := by
    refine ⟨?_, fun hle => ⟨last, hlast, hle⟩⟩
    rintro ⟨other, hother, hle⟩
    have hsame := ((upperIndex_eq_ok_iff hids hhead).mpr hother).symm.trans
      ((upperIndex_eq_ok_iff hids hhead).mpr hlast)
    injection hsame with hsame
    rwa [hsame] at hle
  exact and_congr hlower hupper

theorem walk_limit (lower upper : Option String) (limit : Nat) :
    h.walk ⟨lower, upper, some limit⟩ .newestFirst =
      (h.walk ⟨lower, upper, none⟩ .newestFirst).map (·.take limit) := by
  rw [walk, walk]
  rcases h.upperIndex upper with e | last
  · rfl
  · rcases h.lowerCount lower with e | first <;> rfl

theorem walk_chronological (range : RevisionRange) :
    h.walk range .chronological = (h.walk range .newestFirst).map List.reverse := by
  rw [walk, walk]
  rcases h.upperIndex range.upper with e | last
  · rfl
  · rcases h.lowerCount range.lower with e | first <;> rfl

/-- The walk from behind an id. -/
theorem walk_behind (hids : h.ids.Nodup) (hhead : "HEAD" ∉ h.ids) {id : String}
    {upper : Option String} {first last : Nat} (hfirst : h.StandsAt id first)
    (hlast : h.EndsAt upper last) :
    h.walk ⟨some id, upper, none⟩ .newestFirst = .ok (h.newest (first + 1) last none) :=
  have hstart : h.StartsAt (some id) (first + 1) := ⟨first, hfirst, rfl⟩
  walk_of_ends hids hhead ⟨some id, upper, none⟩ hstart hlast .newestFirst

/-- What the walks over the ranges of a history yield. -/
structure WalkLaws (h : Memory) : Prop where
  /-- A range that leads astray is refused. -/
  refuses : ∀ range order, h.Astray range →
    ∃ reason, h.walk range order = .error (.invalidRange reason)
  /-- Any other range has its walk. -/
  succeeds : ∀ range order, ¬ h.Astray range → ∃ revisions, h.walk range order = .ok revisions
  /-- It yields the commits that the range selects and no others, the newest first. -/
  selects : ∀ lower upper newest, h.walk ⟨lower, upper, none⟩ .newestFirst = .ok newest →
    newest.reverse.Sublist h.revisions ∧
      ∀ place r, h.revisions[place]? = some r → (r ∈ newest ↔ h.Selects lower upper place)
  /-- It yields nothing where the lower end is not before the upper one. -/
  nothing : ∀ id upper first last, h.StandsAt id first → h.EndsAt upper last → last ≤ first →
    h.walk ⟨some id, upper, none⟩ .newestFirst = .ok []
  /-- A limit keeps the newest ones. -/
  limits : ∀ lower upper limit, h.walk ⟨lower, upper, some limit⟩ .newestFirst =
    (h.walk ⟨lower, upper, none⟩ .newestFirst).map (·.take limit)
  /-- In the order of time the same commits come the other way round. -/
  reverses : ∀ range, h.walk range .chronological =
    (h.walk range .newestFirst).map List.reverse
  /-- Ranges that meet at a commit make up one. Its walk is that of the newer range and then
  that of the older one; in the order of time it is the other way round. -/
  joins : ∀ a b upper first middle last, h.StandsAt a first → h.StandsAt b middle →
    h.EndsAt upper last → first ≤ middle → middle ≤ last →
    ∃ newer older, h.walk ⟨some b, upper, none⟩ .newestFirst = .ok newer ∧
      h.walk ⟨some a, some b, none⟩ .newestFirst = .ok older ∧
      h.walk ⟨some a, upper, none⟩ .newestFirst = .ok (newer ++ older) ∧
      h.walk ⟨some a, upper, none⟩ .chronological = .ok (older.reverse ++ newer.reverse)

/-- **A walk yields the commits between the ends of its range.** -/
theorem walkLaws (hids : h.ids.Nodup) (hhead : "HEAD" ∉ h.ids) : h.WalkLaws where
  refuses range order hastray := by
    rcases hwalk : h.walk range order with e | revisions
    · obtain ⟨reason, rfl⟩ := walk_eq_error hwalk
      exact ⟨reason, rfl⟩
    · exact absurd hastray (not_astray_iff.mpr (ends_of_walk hids hhead hwalk))
  succeeds range order hrange := by
    obtain ⟨first, last, hfirst, hlast⟩ := not_astray_iff.mp hrange
    exact ⟨_, walk_of_ends hids hhead range hfirst hlast order⟩
  selects lower upper newest hwalk := by
    obtain ⟨first, last, hfirst, hlast⟩ := ends_of_walk hids hhead hwalk
    rw [walk_of_ends hids hhead _ hfirst hlast] at hwalk
    injection hwalk with hnewest
    subst hnewest
    refine ⟨newest_sublist first last none, ?_⟩
    intro place r hr
    exact (mem_newest_iff hids hr).trans (selects_iff hids hhead hfirst hlast place).symm
  nothing id upper first last hfirst hlast hle := by
    rw [walk_behind hids hhead hfirst hlast, newest_eq_nil (by omega)]
  limits := walk_limit
  reverses := walk_chronological
  joins a b upper first middle last ha hb hlast hfm hml := by
    have hwhole := walk_behind hids hhead ha hlast
    rw [← newest_append (by omega) hml] at hwhole
    refine ⟨_, _, walk_behind hids hhead hb hlast, walk_behind hids hhead ha (.inr ⟨b, rfl, hb⟩),
      hwhole, ?_⟩
    rw [walk_chronological, hwhole, ← List.reverse_append]
    rfl

/-- Three commits, of which the second changes nothing. -/
def threeCommits : Memory :=
  ofCommits [⟨"r1", .epoch, [⟨"a.rs", some ⟨#[104, 105]⟩⟩]⟩, ⟨"r2", .epoch, []⟩,
    ⟨"r3", .epoch, [⟨"a.rs", none⟩]⟩]

theorem walkLaws_threeCommits :
    threeCommits.ids.Nodup ∧ "HEAD" ∉ threeCommits.ids ∧ threeCommits.WalkLaws :=
  have hids : threeCommits.ids.Nodup := by decide
  have hhead : "HEAD" ∉ threeCommits.ids := by decide
  ⟨hids, hhead, walkLaws hids hhead⟩

end Readability.History.Memory
