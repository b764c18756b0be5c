/-!
When a run is asked to end from outside. A run goes through moments, and at each of them someone
else may ask for the end; it is never asked to go on again.
-/

namespace Readability.Run

/-- A moment of a run. -/
inductive Moment where
  /-- The run is about to start. -/
  | start
  /-- The walk has yielded an item, the one with that number. -/
  | yielded (index : Nat)
  /-- A path is looked at to be chosen. -/
  | seen (path : String)
  /-- A file of a revision was read. -/
  | read (revision path : String)
  /-- So many revisions are done. -/
  | done (count : Nat)
deriving Repr, DecidableEq

/-- Whether a run is asked to end at a moment; the number counts the moments before it. -/
abbrev Signal := Nat → Moment → Bool

/-- No one asks for the end. -/
def Signal.never : Signal := fun _ _ => false

/-- A rule by which a run is asked to end. -/
structure Stop where
  beforeStart : Bool
  /-- When so many revisions are done. -/
  whenDone : Nat → Bool
  /-- When a path is looked at. -/
  whenSeen : String → Bool

namespace Stop

/-- No reason to end. -/
def never : Stop := ⟨false, fun _ => false, fun _ => false⟩

/-- The signal that follows a rule. -/
def signal (s : Stop) : Signal := fun _ moment =>
  match moment with
  | .start => s.beforeStart
  | .seen path => s.whenSeen path
  | .done count => s.whenDone count
  | .yielded _ | .read _ _ => false

instance : Coe Stop Signal := ⟨signal⟩

end Stop

end Readability.Run
