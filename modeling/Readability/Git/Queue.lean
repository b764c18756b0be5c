import Readability.Git.Object

/-!
Commits that wait to be written, the latest one to be taken first. They are kept as a heap: the
commit at place `i` is not older than those at `2 * i + 1` and `2 * i + 2`. Which of several commits
of one time comes first follows from the places that they were given.
-/

namespace Readability.Git

/-- Commits as a heap by time. -/
structure Queue where
  items : Array Commit

namespace Queue

/-- No commits. -/
def empty : Queue := ⟨#[]⟩

/-- Whether the commit at the first place is later than the one at the second. -/
def isLater (items : Array Commit) (i j : Nat) : Bool :=
  match items[i]?, items[j]? with
  | some a, some b => a.time > b.time
  | _, _ => false

/-- Moves the commit at a place up past all older ones. -/
def rise (items : Array Commit) (i : Nat) : Array Commit :=
  let above := (i - 1) / 2
  if _h : 0 < i then
    if isLater items i above then rise (items.swapIfInBounds i above) above else items
  else items
termination_by i
decreasing_by omega

/-- The place of the later one of the two below a place, or of the first one when they are of one
time. -/
def childPlace (items : Array Commit) (i : Nat) : Nat :=
  if isLater items (2 * i + 2) (2 * i + 1) then 2 * i + 2 else 2 * i + 1

theorem lt_childPlace (items : Array Commit) (i : Nat) : i < childPlace items i := by
  unfold childPlace
  split <;> omega

/-- Moves the commit at a place down past all later ones. -/
def sink (items : Array Commit) (i : Nat) : Array Commit :=
  let below := childPlace items i
  if _h : i < items.size then
    if isLater items below i then sink (items.swapIfInBounds i below) below else items
  else items
termination_by items.size - i
decreasing_by
  have := lt_childPlace items i
  simp only [Array.size_swapIfInBounds]
  omega

/-- Puts a commit in. -/
def insert (q : Queue) (c : Commit) : Queue :=
  ⟨rise (q.items.push c) q.items.size⟩

/-- Takes the first commit out; the last one fills its place. -/
def take? (q : Queue) : Option (Commit × Queue) :=
  q.items[0]?.map fun first =>
    match q.items.back? with
    | some last => (first, ⟨sink ((q.items.set! 0 last).pop) 0⟩)
    | none => (first, empty)

end Queue

end Readability.Git
