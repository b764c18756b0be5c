/-!
UTF-8. Where bytes are not well formed, the fault names the first byte of the offending sequence and
how many bytes of it were read, or says that the text ends in the middle of a character.
-/

namespace Readability.Text

/-- Why bytes are not UTF-8. -/
inductive Utf8Fault where
  /-- The `length` bytes from `index` start no character. -/
  | sequence (length index : Nat)
  /-- The text ends inside the character that starts at `index`. -/
  | incomplete (index : Nat)
deriving Repr, DecidableEq

namespace Utf8Fault

/-- The fault in words. -/
def message : Utf8Fault → String
  | sequence length index => s!"invalid utf-8 sequence of {length} bytes from index {index}"
  | incomplete index => s!"incomplete utf-8 byte sequence from index {index}"

end Utf8Fault

/-- A byte that continues a character. -/
def isContinuation (b : UInt8) : Bool :=
  0x80 ≤ b && b ≤ 0xBF

/-- Checks the bytes that have to follow a first byte; `ok` tests the second byte, `more` counts
those after it. -/
def checkTail (index : Nat) (ok : UInt8 → Bool) (more : Nat) : List UInt8 → Except Utf8Fault Unit
  | [] => .error (.incomplete index)
  | b :: rest =>
    if !ok b then .error (.sequence 1 index)
    else go 2 more rest
where
  go (done : Nat) : Nat → List UInt8 → Except Utf8Fault Unit
    | 0, _ => .ok ()
    | _ + 1, [] => .error (.incomplete index)
    | k + 1, b :: rest =>
      if isContinuation b then go (done + 1) k rest
      else .error (.sequence done index)

/-- Bytes of the character that starts with `b`, or the fault. -/
def charLength (index : Nat) (b : UInt8) (rest : List UInt8) : Except Utf8Fault Nat :=
  if b < 0x80 then .ok 1
  else if 0xC2 ≤ b && b ≤ 0xDF then (checkTail index isContinuation 0 rest).map fun _ => 2
  else if 0xE0 ≤ b && b ≤ 0xEF then
    let second (s : UInt8) : Bool :=
      isContinuation s && (b != 0xE0 || 0xA0 ≤ s) && (b != 0xED || s ≤ 0x9F)
    (checkTail index second 1 rest).map fun _ => 3
  else if 0xF0 ≤ b && b ≤ 0xF4 then
    let second (s : UInt8) : Bool :=
      isContinuation s && (b != 0xF0 || 0x90 ≤ s) && (b != 0xF4 || s ≤ 0x8F)
    (checkTail index second 2 rest).map fun _ => 4
  else .error (.sequence 1 index)

/-- The first fault of the bytes from `index` on; `skip` counts bytes of a character already
checked. -/
def firstFault (index skip : Nat) : List UInt8 → Option Utf8Fault
  | [] => none
  | b :: rest =>
    match skip with
    | k + 1 => firstFault (index + 1) k rest
    | 0 =>
      match charLength index b rest with
      | .error fault => some fault
      | .ok n => firstFault (index + 1) (n - 1) rest

/-- Bytes read as text. -/
def decodeUtf8 (bytes : ByteArray) : Except Utf8Fault String :=
  match String.fromUTF8? bytes with
  | some s => .ok s
  | none => .error ((firstFault 0 0 bytes.data.toList).getD (.incomplete bytes.size))

/-- Whether bytes are text. -/
def isUtf8 (bytes : ByteArray) : Bool :=
  (String.fromUTF8? bytes).isSome

end Readability.Text
