/-!
The life of a run. A run that is rendered or has failed goes nowhere; all others may fail at any
time.
-/

namespace Readability.Run

/-- What a run is at. -/
inductive State where
  | init
  | walking
  | scoring
  | aggregating
  | rendered
  | failed
deriving Repr, DecidableEq, Inhabited

namespace State

/-- All states, in the order of a run. -/
def all : List State :=
  [init, walking, scoring, aggregating, rendered, failed]

/-- The state's name. -/
def name : State → String
  | init => "INIT"
  | walking => "WALKING"
  | scoring => "SCORING"
  | aggregating => "AGGREGATING"
  | rendered => "RENDERED"
  | failed => "FAILED"

/-- The state with that name. -/
def ofName? (name : String) : Option State :=
  all.find? fun state => state.name == name

/-- Whether a run may go from one state to the next. -/
def canAdvanceTo : State → State → Bool
  | failed, _ => false
  | rendered, _ => false
  | _, failed => true
  | init, walking => true
  | walking, scoring => true
  | scoring, walking => true
  | walking, aggregating => true
  | scoring, aggregating => true
  | aggregating, rendered => true
  | _, _ => false

end State

end Readability.Run
