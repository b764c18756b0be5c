/-!
White space and trimming. A text is trimmed as a list of characters, so that what is removed and
what is kept add up to the text by the laws of `takeWhile` and `dropWhile`.
-/

namespace Readability.Text

/-- White space: the code points with the property *White_Space*. -/
def isBlank (c : Char) : Bool :=
  let n := c.toNat
  (9 ≤ n && n ≤ 13) || n == 0x20 || n == 0x85 || n == 0xA0 || n == 0x1680
    || (0x2000 ≤ n && n ≤ 0x200A) || n == 0x2028 || n == 0x2029 || n == 0x202F || n == 0x205F
    || n == 0x3000

/-- Without the white space at the start. -/
def trimStart (cs : List Char) : List Char :=
  cs.dropWhile isBlank

/-- Without the white space at the end. -/
def trimEnd (cs : List Char) : List Char :=
  (cs.reverse.dropWhile isBlank).reverse

/-- Without the white space at both ends. -/
def trim (cs : List Char) : List Char :=
  trimEnd (trimStart cs)

/-- Nothing but white space. -/
def allBlank (cs : List Char) : Bool :=
  cs.all isBlank

/-- A string without the white space at both ends. -/
def trimmed (s : String) : String :=
  String.ofList (trim s.toList)

theorem trimStart_eq_nil_iff {cs : List Char} : trimStart cs = [] ↔ allBlank cs = true := by
  induction cs with
  | nil => simp [trimStart, allBlank]
  | cons c cs ih =>
    simp only [trimStart, allBlank] at ih
    by_cases h : isBlank c = true <;> simp [trimStart, allBlank, h, ih]

end Readability.Text
