/-!
The digest that stands for a content where results are stored: a word of 64 bits, mixed from the
content and from a secret that is the same for all. Short contents are taken in whole, those of up
to 240 bytes in pieces of sixteen, and longer ones in blocks of 1024.
-/

namespace Readability.Run.Xxh3

/-- What a content is mixed with. -/
def secret : List UInt8 :=
  [0xB8, 0xFE, 0x6C, 0x39, 0x23, 0xA4, 0x4B, 0xBE, 0x7C, 0x01, 0x81, 0x2C, 0xF7, 0x21, 0xAD, 0x1C,
    0xDE, 0xD4, 0x6D, 0xE9, 0x83, 0x90, 0x97, 0xDB, 0x72, 0x40, 0xA4, 0xA4, 0xB7, 0xB3, 0x67, 0x1F,
    0xCB, 0x79, 0xE6, 0x4E, 0xCC, 0xC0, 0xE5, 0x78, 0x82, 0x5A, 0xD0, 0x7D, 0xCC, 0xFF, 0x72, 0x21,
    0xB8, 0x08, 0x46, 0x74, 0xF7, 0x43, 0x24, 0x8E, 0xE0, 0x35, 0x90, 0xE6, 0x81, 0x3A, 0x26, 0x4C,
    0x3C, 0x28, 0x52, 0xBB, 0x91, 0xC3, 0x00, 0xCB, 0x88, 0xD0, 0x65, 0x8B, 0x1B, 0x53, 0x2E, 0xA3,
    0x71, 0x64, 0x48, 0x97, 0xA2, 0x0D, 0xF9, 0x4E, 0x38, 0x19, 0xEF, 0x46, 0xA9, 0xDE, 0xAC, 0xD8,
    0xA8, 0xFA, 0x76, 0x3F, 0xE3, 0x9C, 0x34, 0x3F, 0xF9, 0xDC, 0xBB, 0xC7, 0xC7, 0x0B, 0x4F, 0x1D,
    0x8A, 0x51, 0xE0, 0x4B, 0xCD, 0xB4, 0x59, 0x31, 0xC8, 0x9F, 0x7E, 0xC9, 0xD9, 0x78, 0x73, 0x64,
    0xEA, 0xC5, 0xAC, 0x83, 0x34, 0xD3, 0xEB, 0xC3, 0xC5, 0x81, 0xA0, 0xFF, 0xFA, 0x13, 0x63, 0xEB,
    0x17, 0x0D, 0xDD, 0x51, 0xB7, 0xF0, 0xDA, 0x49, 0xD3, 0x16, 0x55, 0x26, 0x29, 0xD4, 0x68, 0x9E,
    0x2B, 0x16, 0xBE, 0x58, 0x7D, 0x47, 0xA1, 0xFC, 0x8F, 0xF8, 0xB8, 0xD1, 0x7A, 0xD0, 0x31, 0xCE,
    0x45, 0xCB, 0x3A, 0x8F, 0x95, 0x16, 0x04, 0x28, 0xAF, 0xD7, 0xFB, 0xCA, 0xBB, 0x4B, 0x40, 0x7E]

/-- Bytes as words, the least significant byte first. -/
def words : List UInt8 → List UInt64
  | b₀ :: b₁ :: b₂ :: b₃ :: b₄ :: b₅ :: b₆ :: b₇ :: rest =>
    (b₀.toUInt64 ||| b₁.toUInt64 <<< 8 ||| b₂.toUInt64 <<< 16 ||| b₃.toUInt64 <<< 24 |||
      b₄.toUInt64 <<< 32 ||| b₅.toUInt64 <<< 40 ||| b₆.toUInt64 <<< 48 ||| b₇.toUInt64 <<< 56) ::
        words rest
  | _ => []

/-- The word that begins at a byte. -/
def wordAt (bytes : List UInt8) (i : Nat) : UInt64 :=
  (words ((bytes.drop i).take 8)).headD 0

/-- The half word that begins at a byte. -/
def halfAt (bytes : List UInt8) (i : Nat) : UInt64 :=
  wordAt ((bytes.drop i).take 4 ++ [0, 0, 0, 0]) 0

/-- The word with its bits moved round to the left. -/
def rotate (w n : UInt64) : UInt64 :=
  (w <<< n) ||| (w >>> (64 - n))

/-- The word with its bytes in the other order. -/
def swap (w : UInt64) : UInt64 :=
  (List.range 8).foldl (fun out i => out <<< 8 ||| (w >>> (8 * UInt64.ofNat i) &&& 0xFF)) 0

/-- Both halves of a product, one laid on the other. -/
def fold (a b : UInt64) : UInt64 :=
  let product := a.toNat * b.toNat
  UInt64.ofNat product ^^^ UInt64.ofNat (product >>> 64)

/-- Spreads bits: what differs in one of them differs in many. -/
def spread (h : UInt64) : UInt64 :=
  let h := (h ^^^ (h >>> 37)) * 0x165667919E3779F9
  h ^^^ (h >>> 32)

/-- Spreads the bits of contents that are very short. -/
def spreadShort (h : UInt64) : UInt64 :=
  let h := (h ^^^ (h >>> 33)) * 0xC2B2AE3D27D4EB4F
  let h := (h ^^^ (h >>> 29)) * 0x165667B19E3779F9
  h ^^^ (h >>> 32)

/-- The digest of up to three bytes. -/
def upTo3 (bytes : List UInt8) : UInt64 :=
  let n := bytes.length
  let byte (i : Nat) : UInt64 := (bytes.getD i 0).toUInt64
  if n == 0 then spreadShort (wordAt secret 56 ^^^ wordAt secret 64)
  else
    let all := byte 0 <<< 16 ||| byte (n / 2) <<< 24 ||| byte (n - 1) ||| UInt64.ofNat n <<< 8
    spreadShort (all ^^^ halfAt secret 0 ^^^ halfAt secret 4)

/-- The digest of four to eight bytes. -/
def upTo8 (bytes : List UInt8) : UInt64 :=
  let n := bytes.length
  let all := halfAt bytes (n - 4) + halfAt bytes 0 <<< 32
  let h := all ^^^ wordAt secret 8 ^^^ wordAt secret 16
  let h := (h ^^^ rotate h 49 ^^^ rotate h 24) * 0x9FB21C651E98DF25
  let h := (h ^^^ ((h >>> 35) + UInt64.ofNat n)) * 0x9FB21C651E98DF25
  h ^^^ (h >>> 28)

/-- The digest of nine to sixteen bytes. -/
def upTo16 (bytes : List UInt8) : UInt64 :=
  let n := bytes.length
  let low := wordAt bytes 0 ^^^ wordAt secret 24 ^^^ wordAt secret 32
  let high := wordAt bytes (n - 8) ^^^ wordAt secret 40 ^^^ wordAt secret 48
  spread (UInt64.ofNat n + swap low + high + fold low high)

/-- Mixes sixteen bytes with sixteen of the secret. -/
def mix (bytes : List UInt8) (i offset : Nat) : UInt64 :=
  fold (wordAt bytes i ^^^ wordAt secret offset)
    (wordAt bytes (i + 8) ^^^ wordAt secret (offset + 8))

/-- What a sum starts from. -/
def seed (n : Nat) : UInt64 :=
  UInt64.ofNat n * 0x9E3779B185EBCA87

/-- The digest of up to 128 bytes, taken from both ends. -/
def upTo128 (bytes : List UInt8) : UInt64 :=
  let n := bytes.length
  let rounds := (List.range ((n - 1) / 32 + 1)).map fun k =>
    mix bytes (16 * k) (32 * k) + mix bytes (n - 16 * (k + 1)) (32 * k + 16)
  spread (rounds.foldl (· + ·) (seed n))

/-- The digest of up to 240 bytes. -/
def upTo240 (bytes : List UInt8) : UInt64 :=
  let n := bytes.length
  let first := (List.range 8).map fun k => mix bytes (16 * k) (16 * k)
  let later := (List.range (n / 16 - 8)).map fun k => mix bytes (16 * (k + 8)) (16 * k + 3)
  let sum := later.foldl (· + ·) (spread (first.foldl (· + ·) (seed n)))
  spread (sum + mix bytes (n - 16) 119)

/-- The lanes that a long content is gathered in. -/
def lanes : List UInt64 :=
  [0xC2B2AE3D, 0x9E3779B185EBCA87, 0xC2B2AE3D27D4EB4F, 0x165667B19E3779F9, 0x85EBCA77C2B2AE63,
    0x85EBCA77, 0x27D4EB2F165667C5, 0x9E3779B1]

/-- The product of the halves of a word. -/
def halves (w : UInt64) : UInt64 :=
  let low : UInt64 := w &&& 0xFFFFFFFF
  low * (w >>> 32)

/-- Gathers a stripe of eight words. Each word is added to the lane beside its own. -/
def gather : List UInt64 → List UInt64 → List UInt64 → List UInt64
  | a₀ :: a₁ :: acc, w₀ :: w₁ :: stripe, s₀ :: s₁ :: key =>
    (a₀ + w₁ + halves (w₀ ^^^ s₀)) :: (a₁ + w₀ + halves (w₁ ^^^ s₁)) :: gather acc stripe key
  | _, _, _ => []

/-- Mixes the lanes after a block. -/
def scramble (acc : List UInt64) : List UInt64 :=
  List.zipWith (fun (a s : UInt64) => (a ^^^ (a >>> 47) ^^^ s) * 0x9E3779B1) acc
    (words (secret.drop 128))

/-- Gathers stripes, `count` of them. The secret moves on by a word for each. -/
def stripes : Nat → List UInt64 → List UInt64 → List UInt64 → List UInt64
  | 0, acc, _, _ => acc
  | count + 1, acc, key, rest => stripes count (gather acc rest key) (key.drop 1) (rest.drop 8)

/-- Gathers blocks of sixteen stripes, `count` of them, and gives what is left. -/
def blocks : Nat → List UInt64 → List UInt64 → List UInt64 × List UInt64
  | 0, acc, rest => (acc, rest)
  | count + 1, acc, rest =>
    blocks count (scramble (stripes 16 acc (words secret) rest)) (rest.drop 128)

/-- Folds the lanes, two at a time. -/
def merge : List UInt64 → List UInt64 → UInt64 → UInt64
  | a₀ :: a₁ :: acc, s₀ :: s₁ :: key, sum =>
    merge acc key (sum + fold (a₀ ^^^ s₀) (a₁ ^^^ s₁))
  | _, _, sum => sum

/-- The digest of more than 240 bytes. The last stripe may overlap the one before it. -/
def long (bytes : List UInt8) : UInt64 :=
  let n := bytes.length
  let count := (n - 1) / 1024
  let (acc, rest) := blocks count lanes (words bytes)
  let acc := stripes ((n - 1 - 1024 * count) / 64) acc (words secret) rest
  let acc := gather acc (words (bytes.drop (n - 64))) (words (secret.drop 121))
  spread (merge acc (words (secret.drop 11)) (seed n))

/-- The digest of a content. -/
def digest (content : ByteArray) : UInt64 :=
  let bytes := content.data.toList
  let n := bytes.length
  if n ≤ 3 then upTo3 bytes
  else if n ≤ 8 then upTo8 bytes
  else if n ≤ 16 then upTo16 bytes
  else if n ≤ 128 then upTo128 bytes
  else if n ≤ 240 then upTo240 bytes
  else long bytes

end Readability.Run.Xxh3
