/-!
The digest that names objects: twenty bytes computed from a message, read in blocks of sixteen
words.
-/

namespace Readability.Git.Sha1

/-- The five words that are carried from block to block. -/
structure Words where
  a : UInt32
  b : UInt32
  c : UInt32
  d : UInt32
  e : UInt32

/-- What the first block starts from. -/
def start : Words := ⟨0x67452301, 0xEFCDAB89, 0x98BADCFE, 0x10325476, 0xC3D2E1F0⟩

/-- The word with its bits moved round to the left. -/
def rotate (w : UInt32) (n : UInt32) : UInt32 :=
  (w <<< n) ||| (w >>> (32 - n))

/-- The number's bytes, the most significant one first. -/
def bigEndian : Nat → Nat → List UInt8
  | 0, _ => []
  | count + 1, n => bigEndian count (n / 256) ++ [UInt8.ofNat (n % 256)]

/-- The message, a set bit, zeros up to the last eight bytes of a block, and the message's length in
bits. -/
def pad (message : List UInt8) : List UInt8 :=
  message ++ 0x80 :: List.replicate ((119 - message.length % 64) % 64) 0
    ++ bigEndian 8 (8 * message.length)

/-- Bytes as words. -/
def words : List UInt8 → List UInt32
  | b₀ :: b₁ :: b₂ :: b₃ :: rest =>
    (b₀.toUInt32 <<< 24 ||| b₁.toUInt32 <<< 16 ||| b₂.toUInt32 <<< 8 ||| b₃.toUInt32) :: words rest
  | _ => []

/-- Extends the words of a block: each new one is mixed from four before it. The words stand latest
first. -/
def expand : Nat → List UInt32 → List UInt32
  | 0, latest => latest
  | count + 1, latest =>
    let back (n : Nat) := latest.getD (n - 1) 0
    expand count (rotate (back 3 ^^^ back 8 ^^^ back 14 ^^^ back 16) 1 :: latest)

/-- How the three middle words are mixed in a step, and the number that is added. -/
def mix (step : Nat) (w : Words) : UInt32 × UInt32 :=
  if step < 20 then ((w.b &&& w.c) ||| (~~~w.b &&& w.d), 0x5A827999)
  else if step < 40 then (w.b ^^^ w.c ^^^ w.d, 0x6ED9EBA1)
  else if step < 60 then ((w.b &&& w.c) ||| (w.b &&& w.d) ||| (w.c &&& w.d), 0x8F1BBCDC)
  else (w.b ^^^ w.c ^^^ w.d, 0xCA62C1D6)

/-- One step with one word of the block. -/
def step (w : Words) (entry : UInt32 × Nat) : Words :=
  let (mixed, added) := mix entry.2 w
  ⟨rotate w.a 5 + mixed + w.e + added + entry.1, w.a, rotate w.b 30, w.c, w.d⟩

/-- Takes one block in. -/
def block (w : Words) (latest : List UInt32) : Words :=
  let out := (expand 64 latest).reverse.zipIdx.foldl step w
  ⟨w.a + out.a, w.b + out.b, w.c + out.c, w.d + out.d, w.e + out.e⟩

/-- Takes the blocks in, `count` of them. -/
def blocks : Nat → Words → List UInt32 → Words
  | 0, w, _ => w
  | count + 1, w, rest => blocks count (block w (rest.take 16).reverse) (rest.drop 16)

/-- The digest of a message. -/
def digest (message : List UInt8) : List UInt8 :=
  let all := words (pad message)
  let w := blocks (all.length / 16) start all
  [w.a, w.b, w.c, w.d, w.e].flatMap fun word => bigEndian 4 word.toNat

/-- Bytes as hexadecimal digits. -/
def hex (bytes : List UInt8) : String :=
  String.ofList (bytes.flatMap fun b =>
    [Nat.digitChar (b.toNat / 16), Nat.digitChar (b.toNat % 16)])

end Readability.Git.Sha1
