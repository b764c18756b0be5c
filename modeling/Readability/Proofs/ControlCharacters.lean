import Readability.Proofs.JsonReading
import Readability.Text.Escapes

/-!
# Documents hold no control characters

A document escapes the control characters of its texts, and its numbers and marks have
none, so the only ones in it are the line feeds that it is laid out with (`clean_pretty`).
Codes of terminals begin with an escape character, which is one of them, or with a
character of a later block that documents do not escape. A document without the latter
has nothing in it that begins one (`isEscape_pretty`).
-/

namespace Readability.Data.Json

/-- A character that a document may hold as it is. -/
def Tame (c : Char) : Prop :=
  c.toNat < 0x20 → c = '\n'

instance (c : Char) : Decidable (Tame c) :=
  inferInstanceAs (Decidable (_ → _))

/-- A text with no control characters but line feeds. -/
def Clean (text : String) : Prop :=
  ∀ c ∈ text.toList, Tame c

instance (text : String) : Decidable (Clean text) :=
  List.decidableBAll Tame text.toList

theorem tame_of_le {c : Char} (h : 0x20 ≤ c.toNat) : Tame c :=
  fun hlow => absurd hlow (Nat.not_lt.mpr h)

@[simp]
theorem clean_append {front rest : String} : Clean (front ++ rest) ↔ Clean front ∧ Clean rest := by
  simp only [Clean, String.toList_append, List.forall_mem_append]

@[simp]
theorem clean_ofList {cs : List Char} : Clean (String.ofList cs) ↔ ∀ c ∈ cs, Tame c := by
  rw [Clean, String.toList_ofList]

theorem tame_replicate {c : Char} (hc : Tame c) (n : Nat) : ∀ d ∈ List.replicate n c, Tame d := by
  intro d hd
  rw [List.eq_of_mem_replicate hd]
  exact hc

/-! ## Numbers -/

theorem tame_toDigits (n : Nat) : ∀ c ∈ Nat.toDigits 10 n, Tame c := by
  intro c hc
  have hdigit := isDigit_of_mem n c hc
  simp only [Char.isDigit, Bool.and_eq_true, decide_eq_true_eq] at hdigit
  have hzero : '0'.toNat ≤ c.toNat := hdigit.1
  exact tame_of_le (Nat.le_trans (by decide) hzero)

theorem clean_toString (n : Int) : Clean (toString n) := by
  have hnat (n : Nat) : Clean n.repr := by
    rw [Clean, Nat.toList_repr]
    exact tame_toDigits n
  cases n with
  | ofNat n => exact hnat n
  | negSucc n =>
    have hminus : Clean "-" := by decide
    exact clean_append.mpr ⟨hminus, hnat (n + 1)⟩

theorem clean_positional {digits : List Char} (h : ∀ c ∈ digits, Tame c) (point : Int) :
    Clean (Decimal.positional digits point) := by
  have hzeros := tame_replicate (c := '0') (by decide)
  have hpoint : Tame '.' := by decide
  unfold Decimal.positional
  dsimp only
  split
  · have hfront : Clean "0." := by decide
    exact clean_append.mpr ⟨hfront,
      clean_ofList.mpr (List.forall_mem_append.mpr ⟨hzeros _, h⟩)⟩
  · split
    · exact clean_ofList.mpr (List.forall_mem_append.mpr ⟨h, hzeros _⟩)
    · rw [clean_ofList, List.forall_mem_append, List.forall_mem_cons]
      exact ⟨fun c hc => h c (List.mem_of_mem_take hc), hpoint,
        fun c hc => h c (List.mem_of_mem_drop hc)⟩

theorem clean_numeralDigits {digits : List Char} (h : ∀ c ∈ digits, Tame c) (exponent : Int) :
    Clean (Decimal.numeralDigits digits exponent) := by
  have hmarks : Clean ".0" ∧ Clean "." ∧ Clean "e" ∧ Clean "0.0" := by decide
  have hsign (point : Int) : Clean (if 0 < point then "+" else "") := by
    split <;> decide
  unfold Decimal.numeralDigits
  dsimp only
  split
  · exact clean_append.mpr ⟨clean_positional h _, hmarks.1⟩
  · split
    · exact clean_positional h _
    · -- a lone digit has no point behind it
      rcases digits with _ | ⟨d, _ | ⟨e, rest⟩⟩
      · exact hmarks.2.2.2
      · have hfirst : Clean d.toString := clean_ofList.mpr h
        simp only [clean_append]
        exact ⟨⟨hfirst, hmarks.2.2.1⟩, hsign _, clean_toString _⟩
      · obtain ⟨hd, hrest⟩ := List.forall_mem_cons.mp h
        have hfirst : Clean d.toString := clean_ofList.mpr (List.forall_mem_singleton.mpr hd)
        simp only [clean_append, clean_ofList]
        exact ⟨⟨⟨⟨hfirst, hmarks.2.1⟩, hrest⟩, hmarks.2.2.1⟩, hsign _, clean_toString _⟩

theorem clean_floatText (x : Float) : Clean (floatText x) := by
  unfold floatText Decimal.numeral
  split
  · split
    · decide
    · split <;> decide
    · dsimp only
      split
      · split <;> decide
      · refine clean_append.mpr ⟨?_, clean_numeralDigits (tame_toDigits _) _⟩
        split <;> decide
  · decide

/-! ## Texts -/

/-- A control character is written with an escape. -/
theorem tame_escapeChar (c : Char) : ∀ d ∈ escapeChar c, Tame d := by
  have hnamed : (['"', '\\', '\n', '\r', '\t', '\x08', '\x0c'].all fun c =>
      (escapeChar c).all fun d => decide (Tame d)) = true := by decide
  by_cases hmem : c ∈ ['"', '\\', '\n', '\r', '\t', '\x08', '\x0c']
  · exact fun d hd => of_decide_eq_true
      (List.all_eq_true.mp (List.all_eq_true.mp hnamed c hmem) d hd)
  · rw [escapeChar_of_not_mem hmem]
    split
    · next hlow =>
      have hhex : ∀ n < 16, Tame (hexDigit n) := by decide
      have hfront : Tame '\\' ∧ Tame 'u' ∧ Tame '0' := by decide
      simp only [List.forall_mem_cons, hfront, true_and]
      exact ⟨hhex _ (by omega), hhex _ (by omega), nofun⟩
    · next hhigh => exact List.forall_mem_singleton.mpr (tame_of_le (by omega))

theorem clean_quote (s : String) : Clean (quote s) := by
  rw [quote, clean_ofList, List.cons_append, List.forall_mem_cons, List.forall_mem_append]
  refine ⟨by decide, ?_, List.forall_mem_singleton.mpr (by decide)⟩
  intro c hc
  obtain ⟨d, -, hd⟩ := List.mem_flatMap.mp hc
  exact tame_escapeChar d c hd

/-! ## Values -/

theorem clean_newLine (depth : Nat) : Clean (newLine depth) := by
  rw [newLine, clean_ofList, List.forall_mem_cons]
  exact ⟨by decide, tame_replicate (by decide) _⟩

/-- The marks between the parts of a document. -/
theorem clean_marks : Clean "" ∧ Clean "," ∧ Clean ": " ∧ Clean "[" ∧ Clean "]" ∧ Clean "\x7b" ∧
    Clean "\x7d" ∧ Clean "[]" ∧ Clean "\x7b\x7d" ∧ Clean "null" ∧ Clean "true" ∧ Clean "false" := by
  decide

mutual

theorem clean_prettyAt (depth : Nat) : ∀ v : Value, Clean (prettyAt depth v)
  | .null => by simp only [prettyAt, clean_marks]
  | .bool b => by cases b <;> simp [prettyAt, clean_marks]
  | .int n => clean_toString n
  | .float x => clean_floatText x
  | .text s => clean_quote s
  | .refused _ => by simp only [prettyAt, clean_marks]
  | .list [] => by simp only [prettyAt, clean_marks]
  | .list (item :: items) => by
    simp only [prettyAt, clean_append, clean_marks, clean_newLine, clean_prettyAt _ item,
      clean_prettyItems _ items, and_self]
  | .record [] => by simp only [prettyAt, clean_marks]
  | .record ((name, value) :: entries) => by
    simp only [prettyAt, clean_append, clean_marks, clean_newLine, clean_quote,
      clean_prettyAt _ value, clean_prettyEntries _ entries, and_self]

theorem clean_prettyItems (depth : Nat) : ∀ items : List Value, Clean (prettyItems depth items)
  | [] => by simp only [prettyItems, clean_marks]
  | item :: items => by
    simp only [prettyItems, clean_append, clean_marks, clean_newLine, clean_prettyAt _ item,
      clean_prettyItems _ items, and_self]

theorem clean_prettyEntries (depth : Nat) : ∀ entries : List (String × Value),
    Clean (prettyEntries depth entries)
  | [] => by simp only [prettyEntries, clean_marks]
  | (name, value) :: entries => by
    simp only [prettyEntries, clean_append, clean_marks, clean_newLine, clean_quote,
      clean_prettyAt _ value, clean_prettyEntries _ entries, and_self]

end

/-- A document has no control characters but its line feeds. -/
theorem clean_pretty (v : Value) : Clean (pretty v) :=
  clean_prettyAt 0 v

end Readability.Data.Json

/-! ## Codes of terminals -/

namespace Readability.Text

/-- A text in which nothing begins a code is left as it is. -/
theorem dropCodes_eq_self {fuel : Nat} {cs : List Char} (h : ∀ c ∈ cs, isEscape c = false)
    (hfuel : cs.length ≤ fuel) : dropCodes fuel cs = cs := by
  induction cs generalizing fuel with
  | nil => cases fuel <;> rfl
  | cons c cs ih =>
    obtain ⟨hc, hcs⟩ := List.forall_mem_cons.mp h
    cases fuel with
    | zero => cases hfuel
    | succ fuel =>
      rw [dropCodes, hc, if_neg Bool.false_ne_true, ih hcs (Nat.le_of_succ_le_succ hfuel)]

/-- A way to take out codes that leaves a text alone when nothing in it begins one. -/
def LeavesPlain (withoutCodes : String → String) : Prop :=
  ∀ text : String, (∀ c ∈ text.toList, isEscape c = false) → withoutCodes text = text

theorem leavesPlain_withoutCodes : LeavesPlain withoutCodes := by
  intro text hplain
  rw [withoutCodes, dropCodes_eq_self hplain (Nat.le_of_eq String.length_toList),
    String.ofList_toList]

/-- A document without the later character that begins codes has none. -/
theorem isEscape_pretty {v : Data.Value} (h : '\u009b' ∉ (Data.Json.pretty v).toList) :
    ∀ c ∈ (Data.Json.pretty v).toList, isEscape c = false := by
  intro c hc
  rw [isEscape, Bool.or_eq_false_iff, beq_eq_false_iff_ne, beq_eq_false_iff_ne]
  constructor
  · rintro rfl
    exact absurd (Data.Json.clean_pretty v _ hc (by decide)) (by decide)
  · rintro rfl
    exact h hc

end Readability.Text
