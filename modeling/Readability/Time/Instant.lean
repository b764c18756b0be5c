import Readability.Time.Calendar

/-!
Instants: a day, a second of it and a fraction of that second in nanoseconds. The fraction of a leap
second runs on from one billion, so that the second keeps its number and instants compare field by
field.
-/

namespace Readability.Time

/-- A point in time, in UTC. -/
structure Instant where
  /-- Days from 1 January 1970. -/
  day : Int
  /-- Seconds from midnight. -/
  second : Nat
  /-- Nanoseconds; from one billion on they belong to the leap second that follows. -/
  fraction : Nat
deriving Repr, DecidableEq, Inhabited

/-- Seconds of a day. -/
def daySeconds : Nat := 86400

/-- Nanoseconds of a second. -/
def nanosPerSecond : Nat := 1000000000

namespace Instant

/-- The instant some seconds and nanoseconds after the start of 1970. -/
def ofUnix (seconds : Int) (nanoseconds : Nat) : Instant :=
  ⟨seconds / daySeconds, (seconds % daySeconds).toNat, nanoseconds⟩

/-- The start of 1970. -/
def epoch : Instant := ofUnix 0 0

/-- Order in time. -/
def compare (a b : Instant) : Ordering :=
  (Ord.compare a.day b.day).then <|
    (Ord.compare a.second b.second).then (Ord.compare a.fraction b.fraction)

instance : Ord Instant := ⟨compare⟩

/-- A leap second that lies between the times of day of two instants counts as one second. -/
def leapBetween (later earlier : Instant) : Int :=
  if earlier.second < later.second then (if nanosPerSecond ≤ earlier.fraction then 1 else 0)
  else if later.second < earlier.second then (if nanosPerSecond ≤ later.fraction then -1 else 0)
  else 0

/-- Nanoseconds from one instant to another. -/
def nanosSince (later earlier : Instant) : Int :=
  let seconds : Int := (later.day - earlier.day) * daySeconds + later.second - earlier.second
    + leapBetween later earlier
  seconds * nanosPerSecond + later.fraction - earlier.fraction

/-- Whole seconds from one instant to another, what is left over dropped. -/
def secondsSince (later earlier : Instant) : Int :=
  (nanosSince later earlier).tdiv nanosPerSecond

/-- The instant's date. -/
def date (t : Instant) : Date :=
  .ofDays t.day

end Instant

/-- Between instants without a fraction the difference is the difference of their seconds. -/
theorem secondsSince_of_whole {a b : Instant} (ha : a.fraction = 0) (hb : b.fraction = 0) :
    a.secondsSince b = (a.day - b.day) * daySeconds + a.second - b.second := by
  have hleap : Instant.leapBetween a b = 0 := by
    simp [Instant.leapBetween, ha, hb, nanosPerSecond]
  simp [Instant.secondsSince, Instant.nanosSince, ha, hb, hleap, nanosPerSecond,
    Int.mul_tdiv_cancel]

end Readability.Time
