/-!
How much of their content two files have in common. A file is cut into runs, which end with their
line or after eighty bytes, and each run is hashed. White space at the start of a line does not
count. Of large files only the smallest and the largest hashes are kept.
-/

namespace Readability.Git

/-- The number that hashing a run starts from. -/
def runStart : UInt64 := 0x012345678ABCDEF0

/-- Mixes a byte into the hash of a run. -/
def mixByte (state : UInt64) (b : UInt8) : UInt64 :=
  (state <<< 5) - state + b.toUInt64

/-- The most bytes in a run. -/
def longestRun : Nat := 80

/-- How many hashes are kept at either end. -/
def keptHashes : Nat := 127

/-- Whether a byte is white space within a line. -/
def isInnerBlank (b : UInt8) : Bool :=
  b == 32 || b == 9 || b == 11 || b == 12 || b == 13

/-- Whether a byte ends a run. -/
def endsRun (b : UInt8) : Bool :=
  b == 10 || b == 0

/-- What is known while a file is read. -/
structure RunState where
  /-- The hash of the run, and how many bytes are in it. -/
  hash : UInt64
  length : Nat
  /-- Whether white space is left out, because nothing else was in the line. -/
  atLineStart : Bool
  /-- Whether line ends are left out, because a run has ended. -/
  betweenRuns : Bool
  /-- The hashes of the runs, the latest first. -/
  hashes : List UInt32
  /-- How many line ends ended a run. -/
  lines : Nat

namespace RunState

/-- Before the first byte. -/
def start : RunState := ⟨runStart, 0, false, false, [], 0⟩

/-- Ends the run, if anything is in it. -/
def close (s : RunState) : RunState :=
  if s.length == 0 then { s with hash := runStart }
  else
    { s with
      hash := runStart, length := 0, betweenRuns := true
      hashes := s.hash.toUInt32 :: s.hashes }

/-- Takes in one byte. -/
def next (s : RunState) (b : UInt8) : RunState :=
  if s.betweenRuns && endsRun b then s
  else
    let s := { s with betweenRuns := false }
    if if s.atLineStart then isInnerBlank b else b == 13 then s
    else
      let s := { s with atLineStart := b == 10 }
      if endsRun b then { s with lines := s.lines + 1 }.close
      else
        let s := { s with hash := mixByte s.hash b, length := s.length + 1 }
        if s.length == longestRun then s.close else s

end RunState

/-- The hashes of a file that are compared. -/
structure Signature where
  /-- The smallest hashes, the largest of them first. -/
  least : List UInt32
  /-- The largest hashes, the smallest of them first. -/
  greatest : List UInt32
  lines : Nat

namespace Signature

/-- Puts a hash where the order has it. -/
def place (before : UInt32 → UInt32 → Bool) (hash : UInt32) : List UInt32 → List UInt32
  | [] => [hash]
  | other :: rest =>
    if before other hash then other :: place before hash rest else hash :: other :: rest

/-- Keeps a hash as long as there is room. After that, a hash that goes behind the first one drops
the first one, and is dropped itself. -/
def keep (before : UInt32 → UInt32 → Bool) (kept : List UInt32) (hash : UInt32) : List UInt32 :=
  if kept.length < keptHashes then place before hash kept
  else
    match kept with
    | first :: rest => if before first hash then rest else kept
    | [] => []

/-- The signature of a file. -/
def ofBytes (content : ByteArray) : Signature :=
  let s := (content.toList.foldl RunState.next .start).close
  let hashes := s.hashes.reverse
  ⟨hashes.foldl (keep (· > ·)) [], hashes.foldl (keep (· < ·)) [], s.lines⟩

/-- How many hashes two ordered lists share. -/
def shared (before : UInt32 → UInt32 → Bool) : List UInt32 → List UInt32 → Nat
  | [], _ => 0
  | _, [] => 0
  | a :: as, b :: bs =>
    if a == b then shared before as bs + 1
    else if before a b then shared before as (b :: bs)
    else shared before (a :: as) bs
termination_by as bs => as.length + bs.length

/-- What part of all hashes in two lists is shared, in percent. -/
def overlap (before : UInt32 → UInt32 → Bool) (as bs : List UInt32) : Nat :=
  100 * (2 * shared before as bs) / (as.length + bs.length)

/-- How alike two files are, in percent. Without any runs, two files are alike when neither has a
line. -/
def similarity (a b : Signature) : Nat :=
  if a.least.isEmpty && b.least.isEmpty then
    if a.lines == 0 && b.lines == 0 then 100 else 0
  else if a.least.length < keptHashes then overlap (· > ·) a.least b.least
  else (overlap (· > ·) a.least b.least + overlap (· < ·) a.greatest b.greatest) / 2

end Signature

/-- Whether two files are too different in size to be compared: both are larger than 127 bytes, and
one is more than eight times as large as the other. -/
def sizesApart (a b : ByteArray) : Bool :=
  a.size > 127 && b.size > 127 && (a.size > 8 * b.size || b.size > 8 * a.size)

end Readability.Git
