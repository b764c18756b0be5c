import Readability.Decimal.Exact

/-!
The fewest digits that read back as the same double. The reals that round to a double form an
interval; of the grids of multiples of a power of ten the coarsest one with a point in that interval
is taken, and on it the point nearest to the double. Only the two grid points around the double can
be the nearest one.
-/

namespace Readability.Decimal

/-- A decimal number: `digits * 10 ^ exponent`. -/
structure Digits where
  digits : Nat
  exponent : Int
deriving Repr, DecidableEq

/-- Which of two equally near decimals is taken. -/
inductive Tie where
  | toEven
  | up
deriving Repr, DecidableEq

/-- `2 ^ k` for a whole exponent, as numerator and denominator. -/
def powerRatio (base : Nat) : Int → Nat × Nat
  | .ofNat k => (Nat.pow base k, 1)
  | .negSucc k => (1, Nat.pow base (k + 1))

/-- Tests the grid of multiples of `10 ^ p` for a point in the interval around `mantissa * 2 ^
exponent`. The interval reaches from `4 * mantissa - below` to `4 * mantissa + 2` in units of `2 ^
(exponent - 2)`, ends included iff the mantissa is even. -/
def onGrid (tie : Tie) (mantissa : Nat) (exponent : Int) (below : Nat) (p : Int) : Option Nat :=
  let (twoNum, twoDen) := powerRatio 2 (exponent - 2)
  let (tenNum, tenDen) := powerRatio 10 p
  -- Units of the interval and of the grid over one denominator.
  let unit := twoNum * tenDen
  let step := tenNum * twoDen
  let value := 4 * mantissa * unit
  let low := (4 * mantissa - below) * unit
  let high := (4 * mantissa + 2) * unit
  let inside (k : Nat) : Bool :=
    k != 0 && (if mantissa % 2 == 0 then low ≤ k * step && k * step ≤ high
      else low < k * step && k * step < high)
  let floor := value / step
  let rest := value % step
  match inside floor, inside (floor + 1) with
  | true, true =>
    if 2 * rest < step then some floor
    else if step < 2 * rest then some (floor + 1)
    else match tie with
      | .toEven => some (floor + floor % 2)
      | .up => some (floor + 1)
  | true, false => some floor
  | false, true => some (floor + 1)
  | false, false => none

/-- Goes from the grid of `10 ^ p` to finer ones until a point is found. -/
def searchGrids (tie : Tie) (mantissa : Nat) (exponent : Int) (below : Nat) : Nat → Int → Digits
  | 0, p => ⟨0, p⟩
  | grids + 1, p =>
    match onGrid tie mantissa exponent below p with
    | some digits => ⟨digits, p⟩
    | none => searchGrids tie mantissa exponent below grids (p - 1)

/-- Number of binary digits. -/
def bitLength (n : Nat) : Nat :=
  if n == 0 then 0 else n.log2 + 1

/-- The shortest decimal that reads back as `mantissa * 2 ^ exponent`. Seventeen digits always do,
so the search starts just above the number and ends after few grids. -/
def shortest (tie : Tie) (mantissa : Nat) (exponent : Int) : Digits :=
  if mantissa == 0 then ⟨0, 0⟩
  else
    let below := if mantissa == hiddenBit && -1074 < exponent then 1 else 2
    let start := ((exponent + bitLength mantissa) * 30103) / 100000 + 1
    searchGrids tie mantissa exponent below 24 start

end Readability.Decimal
