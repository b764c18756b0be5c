import Readability.Decimal.Fixed
import Readability.Model.Basic

/-!
Hints for better reading: for each feature that the model has a target for, the score with the
target in place of the measured value. What raises the score is a hint, the best one first.
-/

namespace Readability.Model

open Readability.Source (UnitError)

/-- What would be gained by bringing one feature to its target. -/
structure Hint where
  /-- Place in the ranking, counted from one. -/
  rank : Nat
  feature : String
  currentValue : Float
  targetValue : Float
  currentScore : Float
  improvedScore : Float
deriving BEq, Inhabited

/-- A feature in words. -/
def featureTitle (feature : String) : String :=
  if ["line_length_avg", "line_length_max"].contains feature then "line length"
  else if ["identifiers_avg", "identifiers_max"].contains feature then "identifiers per line"
  else if ["identifier_length_avg", "identifier_length_max"].contains feature then
    "identifier length"
  else if ["indentation_avg", "indentation_max"].contains feature then "indentation"
  else if ["nesting_depth_avg", "nesting_depth_max"].contains feature then "nesting depth"
  else if feature == "comment_density" then "comment density"
  else if feature == "blank_line_ratio" then "blank lines between blocks"
  else if feature == "branches_avg" then "branching"
  else if feature == "loops_avg" then "loops"
  else feature

namespace Hint

/-- What the score gains. -/
def gain (h : Hint) : Float :=
  h.improvedScore - h.currentScore

/-- The hint in words. -/
def advice (h : Hint) : String :=
  let direction := if h.targetValue < h.currentValue then "reduce" else "increase"
  direction ++ " " ++ featureTitle h.feature ++ " (" ++ Decimal.fixed 2 h.currentValue ++ " -> "
    ++ Decimal.fixed 2 h.targetValue ++ ")"

/-- Whether a hint is ranked before another one, or beside it: by the better score, then by name. -/
def ranksBefore (a b : Hint) : Bool :=
  ((Number.compareTotal b.improvedScore a.improvedScore).then (compare a.feature b.feature)).isLE

end Hint

/-- The hint that bringing the value at a place to its target gives, if it raises the score. -/
def hintAt (m : Model) (values : List Float) (current : Float) (place : Nat) (f : FeatureWeight) :
    Except UnitError (Option Hint) :=
  match f.target, values[place]? with
  | some target, some value => do
    let improved ← m.scoreValues (values.set place target)
    if current < improved then return some ⟨0, f.name, value, target, current, improved⟩
    else return none
  | _, _ => .ok none

/-- The hints of the features in the model's order. -/
def hintsFrom (m : Model) (values : List Float) (current : Float) (place : Nat) :
    List FeatureWeight → Except UnitError (List Hint)
  | [] => .ok []
  | f :: rest => do
    let hint ← m.hintAt values current place f
    let hints ← hintsFrom m values current (place + 1) rest
    return hint.toList ++ hints

/-- The hints for a vector, ranked. -/
def improvements (m : Model) (v : Feature.Vector) : Except UnitError (List Hint) := do
  m.checkVector v
  let current ← m.scoreValues v.values
  let hints ← m.hintsFrom v.values current 0 m.features
  return (hints.mergeSort Hint.ranksBefore).zipIdx.map fun (hint, place) =>
    { hint with rank := place + 1 }

end Readability.Model
