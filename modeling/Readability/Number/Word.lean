/-!
Counts that fit into 64 bits, as they are written by hand: decimal digits, and a plus sign in front
of them for those who like it. Digits are taken one by one, and the first of them that is amiss
tells what is wrong.
-/

namespace Readability.Number

/-- Why a text is no count. -/
inductive WordFault where
  | blank
  | notDigit
  | tooLarge
deriving Repr, DecidableEq

namespace WordFault

/-- The fault in words. -/
def message : WordFault → String
  | blank => "cannot parse integer from empty string"
  | notDigit => "invalid digit found in string"
  | tooLarge => "number too large to fit in target type"

end WordFault

/-- Takes one more digit to a count. -/
def withDigit (count : Nat) (c : Char) : Except WordFault Nat :=
  if !c.isDigit then .error .notDigit
  else
    let next := 10 * count + (c.toNat - '0'.toNat)
    if next < UInt64.size then .ok next else .error .tooLarge

/-- Reads a count. -/
def readWord (text : String) : Except WordFault Nat :=
  match text.toList with
  | [] => .error .blank
  | ['+'] => .error .notDigit
  | '+' :: digits => digits.foldlM withDigit 0
  | digits => digits.foldlM withDigit 0

end Readability.Number
