/-!
Sets of code points, given by the ascending list of the places where membership changes: the first
bound starts a stretch of members, the second ends it, and so on. A code point is a member iff an
odd number of bounds lies at or below it.
-/

namespace Readability.Text

/-- A set of code points as ascending bounds. -/
structure CodePoints where
  bounds : Array Nat

namespace CodePoints

/-- The set with the given bounds. -/
def ofBounds (bounds : Array Nat) : CodePoints :=
  ⟨bounds⟩

/-- How many of the bounds in `[lo, hi)` lie at or below `n`, by halving. -/
def countFrom (bounds : Array Nat) (n lo hi : Nat) : Nat :=
  if h : lo < hi then
    let mid := (lo + hi) / 2
    if bounds.getD mid 0 ≤ n then countFrom bounds n (mid + 1) hi else countFrom bounds n lo mid
  else lo
termination_by hi - lo
decreasing_by all_goals omega

/-- Membership of a character. -/
def contains (s : CodePoints) (c : Char) : Bool :=
  countFrom s.bounds c.toNat 0 s.bounds.size % 2 == 1

end CodePoints

end Readability.Text
