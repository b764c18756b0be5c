/-!
A store of results by key. A result is computed when its key is asked for the first time; the first
one stored stays. Looking up and storing are two steps, between which others may look up and store
as well.
-/

namespace Readability.Run

/-- Results by key, and how often one was found. -/
structure Cache (κ α : Type) where
  entries : List (κ × α)
  hits : Nat

namespace Cache

variable {κ α : Type} [BEq κ]

/-- No results. -/
def empty : Cache κ α := ⟨[], 0⟩

/-- The result stored under a key. -/
def get? (c : Cache κ α) (key : κ) : Option α :=
  (c.entries.find? fun e => e.1 == key).map (·.2)

/-- How many results are stored. -/
def size (c : Cache κ α) : Nat :=
  c.entries.length

/-- Looks up a key; a result that is found counts as a hit. -/
def lookup (c : Cache κ α) (key : κ) : Option α × Cache κ α :=
  match c.get? key with
  | some value => (some value, { c with hits := c.hits + 1 })
  | none => (none, c)

/-- Stores a result unless there is one, and gives the one that is stored then. -/
def insertIfAbsent (c : Cache κ α) (key : κ) (value : α) : α × Cache κ α :=
  match c.get? key with
  | some stored => (stored, c)
  | none => (value, { c with entries := c.entries ++ [(key, value)] })

/-- The result under a key, computed if there is none. -/
def getOrCompute (c : Cache κ α) (key : κ) (compute : Unit → α) : α × Cache κ α :=
  match c.lookup key with
  | (some value, c) => (value, c)
  | (none, c) => c.insertIfAbsent key (compute ())

end Cache

end Readability.Run
