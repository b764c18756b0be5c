import Readability.Render.Number
import Readability.Time.Written

/-!
# Characters of numbers

Numbers and dates are written with few characters: digits, signs, a point, and the letters of
the words for what is no finite number. So a format that keeps other characters for itself has
nothing to escape in them (`notMem_of_isNumeric`).
-/

namespace Readability.Render

/-- A character that numbers and dates are written with. -/
def isNumeral (c : Char) : Bool :=
  c.isDigit || ['-', '+', '.', 'N', 'a', 'i', 'n', 'f'].contains c

def isNumeric (text : String) : Bool :=
  text.toList.all isNumeral

/-- No other character is in such a text. -/
theorem notMem_of_isNumeric {text : String} (h : isNumeric text = true) {mark : Char}
    (hmark : isNumeral mark = false) : mark ∉ text.toList := by
  intro hmem
  rw [List.all_eq_true.mp h mark hmem] at hmark
  cases hmark

theorem isNumeric_append {front rest : String} (hfront : isNumeric front = true)
    (hrest : isNumeric rest = true) : isNumeric (front ++ rest) = true := by
  rw [isNumeric, String.toList_append, List.all_append, Bool.and_eq_true]
  exact ⟨hfront, hrest⟩

/-! ## Whole numbers -/

theorem all_isNumeral_toDigits (n : Nat) : (Nat.toDigits 10 n).all isNumeral = true := by
  rw [List.all_eq_true]
  intro c hc
  rw [isNumeral, Nat.isDigit_of_mem_toDigits (by decide) (by decide) hc, Bool.true_or]

theorem isNumeric_toString (n : Nat) : isNumeric (toString n) = true := by
  have hdigits : (toString n).toList = Nat.toDigits 10 n := Nat.toList_repr
  rw [isNumeric, hdigits]
  exact all_isNumeral_toDigits n

theorem all_isNumeral_padDigits (width n : Nat) :
    (Decimal.padDigits width n).all isNumeral = true := by
  have hzeros (k : Nat) : (List.replicate k '0').all isNumeral = true := by
    rw [List.all_eq_true]
    intro c hc
    rw [List.eq_of_mem_replicate hc]
    decide
  rw [Decimal.padDigits, List.all_append, hzeros, all_isNumeral_toDigits, Bool.true_and]

theorem isNumeric_padDigits (width n : Nat) :
    isNumeric (String.ofList (Decimal.padDigits width n)) = true := by
  rw [isNumeric, String.toList_ofList]
  exact all_isNumeral_padDigits width n

/-! ## Scores -/

theorem isNumeric_scaledText (places n : Nat) :
    isNumeric (Decimal.scaledText places n) = true := by
  unfold Decimal.scaledText
  split
  · rw [isNumeric, String.toList_ofList]
    exact all_isNumeral_toDigits n
  · rw [isNumeric, String.toList_ofList, List.all_append, List.all_cons,
      all_isNumeral_toDigits, all_isNumeral_padDigits]
    decide

theorem isNumeric_fixed (places : Nat) (x : Float) :
    isNumeric (Decimal.fixed places x) = true := by
  unfold Decimal.fixed
  split
  · decide
  · split <;> decide
  · refine isNumeric_append ?_ (isNumeric_scaledText _ _)
    split <;> decide

theorem isNumeric_signed (places : Nat) (x : Float) :
    isNumeric (Decimal.signed places x) = true := by
  unfold Decimal.signed
  split
  · decide
  · split <;> decide
  · refine isNumeric_append ?_ (isNumeric_scaledText _ _)
    split <;> decide

theorem isNumeric_scoreOrDash (x : Option Float) : isNumeric (scoreOrDash x) = true := by
  cases x with
  | none => decide
  | some x => exact isNumeric_fixed 3 x

theorem isNumeric_changeOrDash (x : Option Float) : isNumeric (changeOrDash x) = true := by
  cases x with
  | none => decide
  | some x => exact isNumeric_signed 3 x

/-! ## Dates -/

theorem isNumeric_yearText (year : Int) : isNumeric (Time.yearText year) = true := by
  have hdigits := isNumeric_padDigits 4 year.natAbs
  unfold Time.yearText
  dsimp only
  split
  · exact hdigits
  · refine isNumeric_append ?_ hdigits
    split <;> decide

theorem isNumeric_dateText (t : Time.Instant) : isNumeric t.dateText = true := by
  have hdash : isNumeric "-" = true := by decide
  unfold Time.Instant.dateText Time.Date.text
  exact isNumeric_append (isNumeric_append (isNumeric_append (isNumeric_append
    (isNumeric_yearText _) hdash) (isNumeric_padDigits 2 _)) hdash) (isNumeric_padDigits 2 _)

end Readability.Render
