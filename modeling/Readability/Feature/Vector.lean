/-!
Feature vectors: named numbers under the name of the schema that says how they were measured.
-/

namespace Readability.Feature

/-- Measured numbers in a fixed order, with their names. -/
structure Vector where
  schema : String
  names : List String
  values : List Float
deriving Inhabited, BEq

/-- What a look-up by name finds. -/
inductive Lookup where
  | unknown
  | value (x : Float)
  /-- The name is there, but the values end before its place. -/
  | beyond
deriving BEq

namespace Vector

/-- How many values there are. -/
def size (v : Vector) : Nat :=
  v.values.length

/-- The value under the first use of a name. -/
def lookup (v : Vector) (name : String) : Lookup :=
  match v.names.findIdx? (· == name) with
  | none => .unknown
  | some place =>
    match v.values[place]? with
    | some x => .value x
    | none => .beyond

/-- Names with their values, up to the end of the shorter list. -/
def pairs (v : Vector) : List (String × Float) :=
  v.names.zip v.values

end Vector

end Readability.Feature
