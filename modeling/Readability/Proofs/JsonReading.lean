import Mathlib.Data.List.Basic
import Mathlib.Data.List.DropRight
import Mathlib.Data.List.TakeWhile
import Readability.Data.Json.Parser
import Readability.Data.Json.Printer

/-!
# JSON that was written is read back

A written value is read back as itself, but for two of its parts that have no JSON
text of their own: a double that is not finite, and a part that was refused. Both
are written as null. `echo` is what a value comes back as.

Strings come back for any characters in them. Whole numbers do as far as they fit
sixty-four bits. Of doubles it is taken as given, one by one, that their text alone
reads back (`Legible`); what is proved here is that nothing that the writer puts
behind a number can become a part of it (`Steady`).

A text is written over several lines or without any blanks; to a reader this makes no
difference (`Layout`).

Main statements: `read_pretty`, `read_compact`.
-/

namespace Readability.Data.Json

theorem bind_eq_ok {x : Except ε α} {f : α → Except ε β} {b : β} :
    x >>= f = .ok b ↔ ∃ a, x = .ok a ∧ f a = .ok b := by
  cases x with
  | error fault => simp [bind, Except.bind]
  | ok a => simp [bind, Except.bind]

/-! ## Strings -/

/-- The piece that a written character is read as. -/
def pieceOf (c : Char) : Piece :=
  if c ∈ ['"', '\\', '\n', '\r', '\t', '\x08', '\x0c'] then .char c
  else if c.toNat < 0x20 then .unit c.toNat
  else .char c

theorem hexDigit?_hexDigit : ∀ n < 16, hexDigit? (hexDigit n) = some n := by
  decide

/-- A character with no escape letter of its own. -/
theorem escapeChar_of_not_mem {c : Char}
    (h : c ∉ ['"', '\\', '\n', '\r', '\t', '\x08', '\x0c']) :
    escapeChar c = if c.toNat < 0x20 then
        ['\\', 'u', '0', '0', hexDigit (c.toNat / 16), hexDigit (c.toNat % 16)]
      else [c] := by
  simp only [List.mem_cons, List.not_mem_nil, or_false, not_or] at h
  unfold escapeChar
  split <;> simp_all

/-- The code unit of a control character. -/
theorem readUnit_control {n : Nat} (h : n < 0x20) (rest : List Char) :
    readUnit ('0' :: '0' :: hexDigit (n / 16) :: hexDigit (n % 16) :: rest) = .ok (n, rest) := by
  have hzero : hexDigit? '0' = some 0 := by decide
  have hhigh : hexDigit? (hexDigit (n / 16)) = some (n / 16) := hexDigit?_hexDigit _ (by omega)
  have hlow : hexDigit? (hexDigit (n % 16)) = some (n % 16) := hexDigit?_hexDigit _ (by omega)
  have hsum : ((0 * 16 + 0) * 16 + n / 16) * 16 + n % 16 = n := by omega
  simp only [readUnit, hzero, hhigh, hlow, hsum]

/-- A written character is read, then what is behind it. -/
theorem readPieces_escapeChar (c : Char) (fuel : Nat) (rest : List Char) :
    readPieces (fuel + 1) (escapeChar c ++ rest) =
      (readPieces fuel rest).map fun (pieces, after) => (pieceOf c :: pieces, after) := by
  have hmap : ∀ piece : Piece,
      (do let (pieces, after) ← readPieces fuel rest
          return (piece :: pieces, after) : Except Fault (List Piece × List Char)) =
        (readPieces fuel rest).map fun (pieces, after) => (piece :: pieces, after) := by
    intro piece
    cases readPieces fuel rest <;> rfl
  by_cases hspecial : c ∈ ['"', '\\', '\n', '\r', '\t', '\x08', '\x0c']
  · have hpiece : pieceOf c = .char c := if_pos hspecial
    simp only [List.mem_cons, List.not_mem_nil, or_false] at hspecial
    rw [hpiece, ← hmap]
    rcases hspecial with rfl | rfl | rfl | rfl | rfl | rfl | rfl <;> rfl
  · rw [escapeChar_of_not_mem hspecial, pieceOf, if_neg hspecial]
    by_cases hcontrol : c.toNat < 0x20
    · rw [if_pos hcontrol, if_pos hcontrol, ← hmap]
      show readPieces (fuel + 1) ('\\' :: 'u' :: '0' :: '0' :: _ :: _ :: rest) = _
      rw [readPieces, if_neg (by decide), if_pos (by decide), readEscape, readUnit_control hcontrol]
      rfl
    · rw [if_neg hcontrol, if_neg hcontrol, ← hmap]
      simp only [List.mem_cons, not_or] at hspecial
      obtain ⟨hquote, hback, -⟩ := hspecial
      show readPieces (fuel + 1) (c :: rest) = _
      rw [readPieces, if_neg (by simpa using hquote), if_neg (by simpa using hback),
        if_neg hcontrol]

theorem readPieces_quoted (chars rest : List Char) (fuel : Nat) (hfuel : chars.length < fuel) :
    readPieces fuel (chars.flatMap escapeChar ++ '"' :: rest) =
      .ok (chars.map pieceOf, rest) := by
  induction chars generalizing fuel with
  | nil =>
    obtain ⟨fuel, rfl⟩ : ∃ k, fuel = k + 1 := ⟨fuel - 1, by simp at hfuel; omega⟩
    rfl
  | cons c chars ih =>
    simp only [List.length_cons] at hfuel
    obtain ⟨fuel, rfl⟩ : ∃ k, fuel = k + 1 := ⟨fuel - 1, by omega⟩
    rw [List.flatMap_cons, List.append_assoc, readPieces_escapeChar, ih fuel (by omega)]
    rfl

theorem joinPieces_pieceOf (c : Char) (pieces : List Piece) :
    joinPieces (pieceOf c :: pieces) = (joinPieces pieces).map (c :: ·) := by
  rw [pieceOf]
  split
  · rw [joinPieces]
  · split
    · -- a control character is no half of a pair
      rename_i hcontrol
      have hhigh : isHigh c.toNat = false := by simp [isHigh]; omega
      have hlow : isLow c.toNat = false := by simp [isLow]; omega
      have hback : Char.ofNat c.toNat = c := Char.ofNat_toNat c
      cases pieces with
      | nil => simp [joinPieces, hhigh, hlow, hback]
      | cons piece pieces => cases piece <;> simp [joinPieces, hhigh, hlow, hback]
    · rw [joinPieces]

theorem joinPieces_map (chars : List Char) : joinPieces (chars.map pieceOf) = .ok chars := by
  induction chars with
  | nil => rfl
  | cons c chars ih =>
    rw [List.map_cons, joinPieces_pieceOf, ih]
    rfl

theorem length_le_escaped (chars : List Char) :
    chars.length ≤ (chars.flatMap escapeChar).length := by
  induction chars with
  | nil => exact Nat.le_refl 0
  | cons c chars ih =>
    have hone : 1 ≤ (escapeChar c).length := by
      unfold escapeChar
      split <;> try decide
      split <;> simp
    simp only [List.length_cons, List.flatMap_cons, List.length_append]
    omega

/-- **A text comes back, whatever characters are in it.** -/
theorem readString_quote (s : String) (rest : List Char) :
    readString (s.toList.flatMap escapeChar ++ '"' :: rest) = .ok (.ok s, rest) := by
  have hfuel : s.toList.length < (s.toList.flatMap escapeChar ++ '"' :: rest).length + 1 := by
    have hescaped := length_le_escaped s.toList
    rw [List.length_append]
    omega
  rw [readString, readPieces_quoted _ _ _ hfuel]
  show Except.ok ((joinPieces (s.toList.map pieceOf)).map String.ofList, rest) = _
  rw [joinPieces_map]
  show Except.ok (Except.ok (String.ofList s.toList), rest) = _
  rw [String.ofList_toList]

/-! ## Numbers and words -/

/-- What stands behind a value, or nothing: no part of a number. -/
def Behind (rest : List Char) : Prop :=
  ∀ c ∈ rest.head?, c.isDigit = false ∧ c ≠ '.' ∧ c ≠ 'e' ∧ c ≠ 'E'

/-- A reader that does not look at what stands behind a value. -/
def Steady (read : List Char → Except Fault (α × List Char)) : Prop :=
  ∀ cs a after, read cs = .ok (a, after) → ∀ rest, Behind rest →
    read (cs ++ rest) = .ok (a, after ++ rest)

theorem readDigits_append {cs rest : List Char} (hrest : Behind rest) :
    readDigits (cs ++ rest) = ((readDigits cs).1, (readDigits cs).2 ++ rest) := by
  have hnone : rest.takeWhile Char.isDigit = [] ∧ rest.dropWhile Char.isDigit = rest := by
    cases rest with
    | nil => exact ⟨rfl, rfl⟩
    | cons c rest =>
      have hc : c.isDigit = false := (hrest c rfl).1
      simp [hc]
  induction cs with
  | nil => simp [readDigits, hnone]
  | cons c cs ih =>
    simp only [readDigits, List.cons_append, Prod.mk.injEq] at ih ⊢
    by_cases hc : c.isDigit = true <;> simp [hc, ih]

theorem Steady.ok (a : α) : Steady fun cs => .ok (a, cs) := by
  intro cs b after h rest _
  cases h
  rfl

theorem Steady.bind {read : List Char → Except Fault (α × List Char)}
    {next : α → List Char → Except Fault (β × List Char)} (hread : Steady read)
    (hnext : ∀ a, Steady (next a)) :
    Steady fun cs => read cs >>= fun first => next first.1 first.2 := by
  intro cs b after h rest hrest
  rcases hfirst : read cs with fault | ⟨a, between⟩
  · simp only [hfirst] at h
    cases h
  · simp only [hfirst] at h
    simp only [hread cs a between hfirst rest hrest]
    exact hnext a between b after h rest hrest

theorem steady_readPart : Steady readPart := by
  intro cs a after h rest hrest
  cases cs with
  | nil => cases h
  | cons c cs =>
    have hdigits := @readDigits_append (c :: cs) rest hrest
    simp only [readPart, List.cons_append] at h hdigits ⊢
    rw [hdigits]
    split at h
    · cases h
    · rename_i hsome
      cases h
      rw [if_neg hsome]

/-- Digits that do not start with zero. -/
theorem readWhole_cons {c : Char} (hc : c ≠ '0') (cs : List Char) :
    readWhole (c :: cs) = readPart (c :: cs) := by
  unfold readWhole
  split
  · simp_all
  · simp_all
  · rfl

theorem steady_readWhole : Steady readWhole := by
  intro cs a after h rest hrest
  cases cs with
  | nil => cases h
  | cons c cs =>
    by_cases hzero : c = '0'
    · subst hzero
      cases cs with
      | nil =>
        cases h
        cases rest with
        | nil => rfl
        | cons c rest =>
          have hc : c.isDigit = false := (hrest c rfl).1
          simp [readWhole, hc]
      | cons d cs =>
        simp only [readWhole] at h
        split at h
        · cases h
        · rename_i hd
          cases h
          simp [readWhole, hd]
    · rw [readWhole_cons hzero] at h
      rw [List.cons_append, readWhole_cons hzero]
      exact steady_readPart (c :: cs) a after h rest hrest

theorem readPlaces_of_ne {cs : List Char} (h : ∀ c ∈ cs.head?, c ≠ '.') :
    readPlaces cs = .ok (none, cs) := by
  unfold readPlaces
  split
  · exact absurd rfl (h '.' rfl)
  · rfl

theorem steady_readPlaces : Steady readPlaces := by
  intro cs a after h rest hrest
  cases cs with
  | nil =>
    cases h
    exact readPlaces_of_ne fun c hc => (hrest c hc).2.1
  | cons c cs =>
    by_cases hpoint : c = '.'
    · subst hpoint
      have hpart := steady_readPart.bind fun digits => Steady.ok (some digits)
      exact hpart cs a after h rest hrest
    · have hne : ∀ d ∈ (c :: cs).head?, d ≠ '.' := fun d hd => by cases hd; exact hpoint
      rw [readPlaces_of_ne hne] at h
      cases h
      exact readPlaces_of_ne hne

theorem readPower_cons {c : Char} (hminus : c ≠ '-') (hplus : c ≠ '+') (cs : List Char) :
    readPower (c :: cs) =
      (readPart (c :: cs) >>= fun part => .ok ((digitsValue part.1 : Int), part.2)) := by
  unfold readPower
  split
  · simp_all
  · simp_all
  · rfl

theorem steady_readPower : Steady readPower := by
  intro cs a after h rest hrest
  cases cs with
  | nil => cases h
  | cons c cs =>
    have hvalue := fun f : List Char → Int =>
      steady_readPart.bind fun digits => Steady.ok (f digits)
    by_cases hminus : c = '-'
    · subst hminus
      exact hvalue (fun digits => -(digitsValue digits : Int)) cs a after h rest hrest
    · by_cases hplus : c = '+'
      · subst hplus
        exact hvalue (fun digits => digitsValue digits) cs a after h rest hrest
      · rw [readPower_cons hminus hplus] at h
        rw [List.cons_append, readPower_cons hminus hplus]
        exact hvalue (fun digits => digitsValue digits) (c :: cs) a after h rest hrest

theorem steady_readExponent : Steady readExponent := by
  intro cs a after h rest hrest
  cases cs with
  | nil =>
    cases h
    cases rest with
    | nil => rfl
    | cons c rest =>
      obtain ⟨-, -, he, hE⟩ := hrest c rfl
      simp [readExponent, he, hE]
  | cons c cs =>
    simp only [readExponent, List.cons_append] at h ⊢
    split
    · rename_i hletter
      rw [if_pos hletter] at h
      have hpower := steady_readPower.bind fun power => Steady.ok (some power)
      exact hpower cs a after h rest hrest
    · rename_i hletter
      rw [if_neg hletter] at h
      cases h
      rfl

/-- The value of a number, from its parts. -/
def numberValue (negative : Bool) (whole : List Char) (places : Option (List Char))
    (power : Option Int) : Value :=
  let n := digitsValue whole
  match places, power with
  | none, none =>
    if negative then
      if n == 0 then .float (-0.0)
      else if n ≤ 1 <<< 63 then .int (-n)
      else floatValue true n 0
    else if n < UInt64.size then .int n
    else floatValue false n 0
  | places, power =>
    let behind := places.getD []
    floatValue negative (digitsValue (whole ++ behind)) (power.getD 0 - behind.length)

theorem readNumber_eq (negative : Bool) (cs : List Char) :
    readNumber negative cs =
      (readWhole cs >>= fun whole => readPlaces whole.2 >>= fun places =>
        readExponent places.2 >>= fun power =>
          .ok (numberValue negative whole.1 places.1 power.1, power.2)) := by
  simp only [readNumber, numberValue]
  congr 1
  funext parts
  obtain ⟨whole, rest⟩ := parts
  congr 1
  funext behind
  obtain ⟨places, rest⟩ := behind
  congr 1
  funext raised
  obtain ⟨power, rest⟩ := raised
  cases places <;> cases power <;> simp only [pure, Except.pure]
  cases negative with
  | false =>
    simp only [Bool.false_eq_true, if_false]
    split <;> rfl
  | true =>
    simp only [if_true]
    split
    · rfl
    · split <;> rfl

theorem steady_readNumber (negative : Bool) : Steady (readNumber negative) := by
  have hparts := steady_readWhole.bind fun whole => steady_readPlaces.bind fun places =>
    steady_readExponent.bind fun power => Steady.ok (numberValue negative whole places power)
  intro cs a after h rest hrest
  rw [readNumber_eq] at h ⊢
  exact hparts cs a after h rest hrest

theorem digitsValue_toDigits (n : Nat) : digitsValue (Nat.toDigits 10 n) = n :=
  Nat.ofDigitChars_ten_toDigits

theorem isDigit_of_mem (n : Nat) : ∀ c ∈ Nat.toDigits 10 n, c.isDigit = true :=
  fun _ hc => Nat.isDigit_of_mem_toDigits (by decide) (by decide) hc

theorem head_toDigits_ne {n : Nat} (hn : 0 < n) : ∀ c ∈ (Nat.toDigits 10 n).head?, c ≠ '0' := by
  intro c hc hzero
  subst hzero
  induction n using Nat.strongRecOn with
  | ind n ih =>
    rw [Nat.toDigits_eq_if (by decide)] at hc
    split at hc
    · rename_i hlt
      have hdigit : n.digitChar = '0' := Option.some.inj hc
      rw [Nat.digitChar_eq_zero] at hdigit
      omega
    · have hne : Nat.toDigits 10 (n / 10) ≠ [] := Nat.toDigits_ne_nil
      rw [List.head?_append_of_ne_nil _ hne] at hc
      exact ih (n / 10) (by omega) (by omega) hc

theorem readWhole_toDigits (n : Nat) :
    readWhole (Nat.toDigits 10 n) = .ok (Nat.toDigits 10 n, []) := by
  rcases Nat.eq_zero_or_pos n with rfl | hn
  · rfl
  · have hall := isDigit_of_mem n
    have hhead := head_toDigits_ne hn
    rcases hdigits : Nat.toDigits 10 n with _ | ⟨c, cs⟩
    · exact absurd hdigits Nat.toDigits_ne_nil
    · rw [hdigits] at hall hhead
      rw [readWhole_cons (hhead c rfl), readPart]
      · have hread : readDigits (c :: cs) = (c :: cs, []) := by
          rw [readDigits, List.takeWhile_eq_self_iff.mpr hall, List.dropWhile_eq_nil_iff.mpr hall]
        simp [hread]
      · exact List.cons_ne_nil c cs

/-- **A whole number comes back as far as it fits sixty-four bits.** -/
theorem readNumber_toDigits {n : Nat} (hn : n < UInt64.size) :
    readNumber false (Nat.toDigits 10 n) = .ok (.int n, []) := by
  have hvalue : numberValue false (Nat.toDigits 10 n) none none = .int n := by
    simp only [numberValue, Bool.false_eq_true, if_false, digitsValue_toDigits, if_pos hn]
  rw [readNumber_eq, readWhole_toDigits, ← hvalue]
  rfl

/-! ## Values that start in a certain way -/

theorem skipSpace_append {cs rest : List Char} (h : skipSpace cs = []) :
    skipSpace (cs ++ rest) = skipSpace rest := by
  have hall : ∀ c ∈ cs, isSpace c = true := List.dropWhile_eq_nil_iff.mp h
  exact List.dropWhile_append_of_pos hall

theorem skipSpace_append_of_cons {cs rest : List Char} {c : Char} {more : List Char}
    (h : skipSpace cs = c :: more) : skipSpace (cs ++ rest) = c :: (more ++ rest) := by
  rw [skipSpace, List.dropWhile_append]
  rw [skipSpace] at h
  simp [h]

theorem skipSpace_idem (cs : List Char) : skipSpace (skipSpace cs) = skipSpace cs :=
  List.dropWhile_idempotent _ cs

/-- White space in front makes no difference to what is read. -/
theorem readValue_congr {cs cs' : List Char} (h : skipSpace cs = skipSpace cs')
    (fuel room : Nat) : readValue fuel room cs = readValue fuel room cs' := by
  cases fuel with
  | zero => rw [readValue, readValue]
  | succ fuel => rw [readValue, readValue, h]

theorem readItems_congr {cs cs' : List Char} (h : skipSpace cs = skipSpace cs')
    (fuel room : Nat) (first : Bool) :
    readItems fuel room first cs = readItems fuel room first cs' := by
  cases fuel with
  | zero => rw [readItems, readItems]
  | succ fuel => rw [readItems, readItems, h]

theorem readEntries_congr {cs cs' : List Char} (h : skipSpace cs = skipSpace cs')
    (fuel room : Nat) (first : Bool) :
    readEntries fuel room first cs = readEntries fuel room first cs' := by
  cases fuel with
  | zero => rw [readEntries, readEntries]
  | succ fuel => rw [readEntries, readEntries, h]

theorem readValue_digit {cs more : List Char} {c : Char} (h : skipSpace cs = c :: more)
    (hc : c.isDigit = true) (fuel room : Nat) :
    readValue (fuel + 1) room cs = readNumber false (c :: more) := by
  rw [readValue, h]
  split <;> simp_all

theorem readValue_minus {cs more : List Char} (h : skipSpace cs = '-' :: more)
    (fuel room : Nat) : readValue (fuel + 1) room cs = readNumber true more := by
  rw [readValue, h]
  rfl

theorem readWord_value {value : Value} :
    ∀ {word cs after : List Char} {v : Value}, readWord value word cs = .ok (v, after) → v = value
  | [], _, _, _, h => by
    cases h
    rfl
  | _ :: _, [], _, _, h => by cases h
  | w :: word, c :: cs, _, _, h => by
    rw [readWord] at h
    split at h
    · exact readWord_value h
    · cases h

/-- Only numbers are read as doubles. -/
theorem number_of_float {cs after : List Char} {x : Float} {fuel room : Nat}
    (h : readValue (fuel + 1) room cs = .ok (.float x, after)) :
    ∃ c more, skipSpace cs = c :: more ∧
      (c = '-' ∧ readNumber true more = .ok (.float x, after) ∨
        c.isDigit = true ∧ readNumber false (c :: more) = .ok (.float x, after)) := by
  rw [readValue] at h
  split at h
  · cases h
  · obtain ⟨⟨(reason | s), _⟩, -, h⟩ := bind_eq_ok.mp h <;> cases h
  · obtain ⟨⟨items, _⟩, -, h⟩ := bind_eq_ok.mp h
    cases hroom : room == 0 <;> simp [hroom, pure, Except.pure] at h
  · obtain ⟨⟨entries, _⟩, -, h⟩ := bind_eq_ok.mp h
    cases hroom : room == 0 <;> simp [hroom, pure, Except.pure] at h
  · cases readWord_value h
  · cases readWord_value h
  · cases readWord_value h
  · rename_i rest hstart
    exact ⟨'-', rest, hstart, .inl ⟨rfl, h⟩⟩
  · rename_i c rest _ _ _ _ _ _ _ hstart
    split at h
    · rename_i hc
      exact ⟨c, rest, hstart, .inr ⟨hc, h⟩⟩
    · cases h

/-- A double whose text alone is read is read in front of anything that is no part of it. -/
theorem readValue_of_read {text : String} {x : Float} (h : read text = .ok (.float x))
    {rest : List Char} (hrest : Behind rest) (fuel room : Nat) :
    ∃ after, readValue (fuel + 1) room (text.toList ++ rest) = .ok (.float x, after) ∧
      skipSpace after = skipSpace rest := by
  obtain ⟨⟨v, after⟩, hvalue, hend⟩ := bind_eq_ok.mp h
  dsimp only at hend
  split at hend
  · rename_i hafter
    cases hend
    obtain ⟨c, more, hstart, hnumber⟩ := number_of_float hvalue
    have hstarts := @skipSpace_append_of_cons _ rest _ _ hstart
    refine ⟨after ++ rest, ?_, skipSpace_append hafter⟩
    rcases hnumber with ⟨rfl, hnumber⟩ | ⟨hc, hnumber⟩
    · rw [readValue_minus hstarts]
      exact steady_readNumber true more _ after hnumber rest hrest
    · rw [readValue_digit hstarts hc]
      exact steady_readNumber false (c :: more) _ after hnumber rest hrest
  · cases hend

/-! ## Whole values -/

mutual

/-- What a written value comes back as. -/
def echo : Value → Value
  | .null => .null
  | .bool b => .bool b
  | .int n => .int n
  | .float x => if Decimal.isFinite x then .float x else .null
  | .text s => .text s
  | .list items => .list (echoItems items)
  | .record entries => .record (echoEntries entries)
  | .refused _ => .null

/-- What written items come back as. -/
def echoItems : List Value → List Value
  | [] => []
  | item :: items => echo item :: echoItems items

/-- What written entries come back as. -/
def echoEntries : List (String × Value) → List (String × Value)
  | [] => []
  | (name, value) :: entries => (name, echo value) :: echoEntries entries

end

/-- If a double is finite, its text alone reads back. -/
def ReadsBack (x : Float) : Prop :=
  Decimal.isFinite x = true → read (floatText x) = .ok (.float x)

mutual

/-- A value whose text can be read with so many brackets still to open. -/
def Legible (room : Nat) : Value → Prop
  | .null => True
  | .bool _ => True
  | .int n => 0 ≤ n ∧ n < UInt64.size
  | .float x => ReadsBack x
  | .text _ => True
  | .list items => 0 < room ∧ LegibleItems (room - 1) items
  | .record entries => 0 < room ∧ LegibleEntries (room - 1) entries
  | .refused _ => True

/-- Each of some items is legible. -/
def LegibleItems (room : Nat) : List Value → Prop
  | [] => True
  | item :: items => Legible room item ∧ LegibleItems room items

/-- The value of each of some entries is legible. -/
def LegibleEntries (room : Nat) : List (String × Value) → Prop
  | [] => True
  | (_, value) :: entries => Legible room value ∧ LegibleEntries room entries

end

theorem toList_newLine (depth : Nat) :
    (newLine depth).toList = '\n' :: List.replicate (2 * depth) ' ' := by
  rw [newLine, String.toList_ofList]

theorem skipSpace_newLine (depth : Nat) : skipSpace (newLine depth).toList = [] := by
  refine List.dropWhile_eq_nil_iff.mpr ?_
  rw [toList_newLine]
  intro c hc
  rcases List.mem_cons.mp hc with rfl | hc
  · rfl
  · rw [List.eq_of_mem_replicate hc]
    rfl

theorem behind_cons (c : Char)
    (hc : c.isDigit = false ∧ c ≠ '.' ∧ c ≠ 'e' ∧ c ≠ 'E') (rest : List Char) :
    Behind (c :: rest) := by
  intro d hd
  cases hd
  exact hc

/-- Blanks are no part of a number. -/
theorem behind_append {front rest : List Char} (hfront : skipSpace front = [])
    (hrest : Behind rest) : Behind (front ++ rest) := by
  cases front with
  | nil => exact hrest
  | cons c front =>
    have hc : isSpace c = true := List.dropWhile_eq_nil_iff.mp hfront c List.mem_cons_self
    intro d hd
    cases hd
    simp only [isSpace, Bool.or_eq_true, beq_iff_eq] at hc
    rcases hc with ((rfl | rfl) | rfl) | rfl <;> decide

/-- What a value reads as, and that nothing but white space was taken from behind it. -/
def ReadsAs (fuel room : Nat) (text rest : List Char) (v : Value) : Prop :=
  ∃ after, readValue fuel room (text ++ rest) = .ok (v, after) ∧ skipSpace after = skipSpace rest

theorem readsAs_int {n : Nat} (hn : n < UInt64.size) {rest : List Char} (hrest : Behind rest)
    (fuel room : Nat) : ReadsAs (fuel + 1) room (Nat.toDigits 10 n) rest (.int n) := by
  have hread := steady_readNumber false _ _ _ (readNumber_toDigits hn) rest hrest
  rcases hdigits : Nat.toDigits 10 n with _ | ⟨c, cs⟩
  · exact absurd hdigits Nat.toDigits_ne_nil
  · have hc : c.isDigit = true := by
      refine isDigit_of_mem n c ?_
      rw [hdigits]
      exact List.mem_cons_self
    have hspace : isSpace c = false := by
      simp only [isSpace, Bool.or_eq_false_iff, beq_eq_false_iff_ne]
      refine ⟨⟨⟨?_, ?_⟩, ?_⟩, ?_⟩ <;> (rintro rfl; cases hc)
    have hstart : skipSpace (c :: cs ++ rest) = c :: (cs ++ rest) := by
      simp [skipSpace, hspace]
    rw [hdigits] at hread
    refine ⟨rest, ?_, rfl⟩
    rw [readValue_digit hstart hc]
    exact hread

/-- A value that is read starts with something that closes no list. -/
theorem start_of_readValue {fuel room : Nat} {cs : List Char} {result : Value × List Char}
    (h : readValue fuel room cs = .ok result) :
    ∃ c more, skipSpace cs = c :: more ∧ c ≠ ']' := by
  cases fuel with
  | zero =>
    rw [readValue] at h
    cases h
  | succ fuel =>
    rw [readValue] at h
    rcases hstart : skipSpace cs with _ | ⟨c, more⟩
    · rw [hstart] at h
      cases h
    · refine ⟨c, more, rfl, ?_⟩
      rintro rfl
      rw [hstart] at h
      cases h

/-- An item, and the items behind it. -/
def readOn (fuel room : Nat) (cs : List Char) : Except Fault (List Value × List Char) :=
  readValue fuel room cs >>= fun item =>
    readItems fuel room false item.2 >>= fun items => .ok (item.1 :: items.1, items.2)

theorem readItems_first {front : List Char} (hfront : skipSpace front = []) {fuel room : Nat}
    {cs : List Char} {result : Value × List Char} (h : readValue fuel room cs = .ok result) :
    readItems (fuel + 1) room true (front ++ cs) = readOn fuel room cs := by
  obtain ⟨c, more, hstart, hc⟩ := start_of_readValue h
  have hcs : readValue fuel room (c :: more) = readValue fuel room cs := by
    rw [← hstart]
    exact readValue_congr (skipSpace_idem cs) fuel room
  rw [readItems, skipSpace_append hfront, hstart, readOn, ← hcs]
  split
  · simp_all
  · simp_all
  · rename_i heq
    cases heq
    rfl

theorem readItems_comma {front : List Char} (hfront : skipSpace front = []) {fuel room : Nat}
    {cs : List Char} {result : Value × List Char} (h : readValue fuel room cs = .ok result) :
    readItems (fuel + 1) room false (',' :: (front ++ cs)) = readOn fuel room cs := by
  obtain ⟨c, more, hstart, hc⟩ := start_of_readValue h
  have hcs : readValue fuel room (c :: more) = readValue fuel room cs := by
    rw [← hstart]
    exact readValue_congr (skipSpace_idem cs) fuel room
  have hcomma : skipSpace (',' :: (front ++ cs)) = ',' :: (front ++ cs) := rfl
  rw [readItems, hcomma, readOn, ← hcs]
  split
  · simp_all
  · simp_all
  · rename_i heq
    cases heq
    rw [if_neg (by decide), if_pos (by decide), skipSpace_append hfront, hstart]
    split
    · simp_all
    · simp_all
    · rfl

/-- The items behind an item that was read. -/
theorem readOn_eq {fuel room : Nat} {text rest : List Char} {item : Value}
    {result : List Value × List Char} (hitem : ReadsAs fuel room text rest item)
    (hitems : readItems fuel room false rest = .ok result) :
    readOn fuel room (text ++ rest) = .ok (item :: result.1, result.2) := by
  obtain ⟨after, hread, hafter⟩ := hitem
  rw [readOn, hread]
  show (readItems fuel room false after >>= fun items => .ok (item :: items.1, items.2)) = _
  rw [readItems_congr hafter, hitems]
  rfl

theorem toList_quote (s : String) :
    (quote s).toList = '"' :: (s.toList.flatMap escapeChar ++ ['"']) := by
  rw [quote, String.toList_ofList]
  rfl

/-! ### A value of each kind -/

theorem readsAs_null (fuel room : Nat) (rest : List Char) :
    ReadsAs (fuel + 1) room "null".toList rest .null := by
  refine ⟨rest, ?_, rfl⟩
  show readValue (fuel + 1) room ('n' :: 'u' :: 'l' :: 'l' :: rest) = _
  rw [readValue]
  rfl

theorem readsAs_bool (fuel room : Nat) (rest : List Char) (b : Bool) :
    ReadsAs (fuel + 1) room (if b then "true" else "false").toList rest (.bool b) := by
  refine ⟨rest, ?_, rfl⟩
  cases b with
  | false =>
    show readValue (fuel + 1) room ('f' :: 'a' :: 'l' :: 's' :: 'e' :: rest) = _
    rw [readValue]
    rfl
  | true =>
    show readValue (fuel + 1) room ('t' :: 'r' :: 'u' :: 'e' :: rest) = _
    rw [readValue]
    rfl

theorem readsAs_float {x : Float} (h : ReadsBack x) {rest : List Char} (hrest : Behind rest)
    (fuel room : Nat) :
    ReadsAs (fuel + 1) room (floatText x).toList rest (echo (.float x)) := by
  rw [echo]
  by_cases hx : Decimal.isFinite x = true
  · rw [if_pos hx]
    exact readValue_of_read (h hx) hrest fuel room
  · rw [if_neg hx, floatText, if_neg hx]
    exact readsAs_null fuel room rest

theorem readsAs_text (s : String) (fuel room : Nat) (rest : List Char) :
    ReadsAs (fuel + 1) room (quote s).toList rest (.text s) := by
  refine ⟨rest, ?_, rfl⟩
  rw [toList_quote, List.cons_append, List.append_assoc]
  have hquote : ∀ cs, skipSpace ('"' :: cs) = '"' :: cs := fun _ => rfl
  rw [readValue, hquote]
  simp only [List.cons_append, List.nil_append, readString_quote, bind, Except.bind, pure,
    Except.pure]

theorem readValue_list {front : List Char} (hfront : skipSpace front = []) {fuel room : Nat}
    {text behind rest : List Char} {item : Value} {items : List Value}
    (hitem : ReadsAs fuel room text behind item)
    (hitems : readItems fuel room false behind = .ok (items, rest)) :
    readValue (fuel + 2) (room + 1) ('[' :: (front ++ (text ++ behind))) =
      .ok (.list (item :: items), rest) := by
  have hopen : ∀ cs, skipSpace ('[' :: cs) = '[' :: cs := fun _ => rfl
  have hread : readItems (fuel + 1) room true (front ++ (text ++ behind)) =
      .ok (item :: items, rest) := by
    obtain ⟨after, hvalue, hafter⟩ := hitem
    rw [readItems_first hfront hvalue]
    exact readOn_eq ⟨after, hvalue, hafter⟩ hitems
  rw [readValue, hopen]
  simp only [Nat.add_sub_cancel, hread, bind, Except.bind, pure, Except.pure]
  rfl

theorem readEntry_eq (name : String) {fuel room : Nat} {gap text behind rest : List Char}
    {value : Value} {entries : List (String × Value)} (hgap : skipSpace gap = [])
    (hvalue : ReadsAs fuel room text behind value)
    (hentries : readEntries fuel room false behind = .ok (entries, rest)) :
    readEntry (fuel + 1) room
        (name.toList.flatMap escapeChar ++ '"' :: ':' :: (gap ++ (text ++ behind))) =
      .ok ((name, value) :: entries, rest) := by
  obtain ⟨after, hread, hafter⟩ := hvalue
  have hblank : skipSpace (gap ++ (text ++ behind)) = skipSpace (text ++ behind) :=
    skipSpace_append hgap
  have hcolon : ∀ cs, skipSpace (':' :: cs) = ':' :: cs := fun _ => rfl
  rw [readEntry, readString_quote]
  simp only [bind, Except.bind, pure, Except.pure, Except.mapError, hcolon,
    readValue_congr hblank, hread, readEntries_congr hafter, hentries]

theorem readEntries_first {front : List Char} (hfront : skipSpace front = [])
    (fuel room : Nat) (cs : List Char) :
    readEntries (fuel + 1) room true (front ++ '"' :: cs) = readEntry fuel room cs := by
  have hstart : skipSpace (front ++ '"' :: cs) = '"' :: cs := skipSpace_append hfront
  rw [readEntries, hstart]
  rfl

theorem readEntries_comma {front : List Char} (hfront : skipSpace front = [])
    (fuel room : Nat) (cs : List Char) :
    readEntries (fuel + 1) room false (',' :: (front ++ '"' :: cs)) = readEntry fuel room cs := by
  have hcomma : skipSpace (',' :: (front ++ '"' :: cs)) = ',' :: (front ++ '"' :: cs) := rfl
  have hstart : skipSpace (front ++ '"' :: cs) = '"' :: cs := skipSpace_append hfront
  rw [readEntries, hcomma]
  split
  · simp_all
  · simp_all
  · rename_i heq
    cases heq
    rw [if_neg (by decide), if_pos (by decide), hstart]
    rfl

theorem readValue_record {fuel room : Nat} {front cs rest : List Char}
    {entries : List (String × Value)} (hfront : skipSpace front = [])
    (hentries : readEntry fuel room cs = .ok (entries, rest)) :
    readValue (fuel + 2) (room + 1) ('{' :: (front ++ '"' :: cs)) =
      .ok (.record entries, rest) := by
  have hopen : ∀ cs, skipSpace ('{' :: cs) = '{' :: cs := fun _ => rfl
  rw [readValue, hopen]
  simp only [Nat.add_sub_cancel, readEntries_first hfront, hentries, bind, Except.bind, pure,
    Except.pure]
  rfl

theorem readValue_emptyList (fuel room : Nat) (rest : List Char) :
    readValue (fuel + 2) (room + 1) ('[' :: ']' :: rest) = .ok (.list [], rest) := by
  have hopen : skipSpace ('[' :: ']' :: rest) = '[' :: ']' :: rest := rfl
  have hclose : skipSpace (']' :: rest) = ']' :: rest := rfl
  rw [readValue, hopen]
  simp only [readItems, hclose, bind, Except.bind, pure, Except.pure]
  rfl

theorem readValue_emptyRecord (fuel room : Nat) (rest : List Char) :
    readValue (fuel + 2) (room + 1) ('{' :: '}' :: rest) = .ok (.record [], rest) := by
  have hopen : skipSpace ('{' :: '}' :: rest) = '{' :: '}' :: rest := rfl
  have hclose : skipSpace ('}' :: rest) = '}' :: rest := rfl
  rw [readValue, hopen]
  simp only [readEntries, hclose, bind, Except.bind, pure, Except.pure]
  rfl

/-! ### Layouts -/

/-- The blanks of a written text: those in front of each item, some brackets deep, and those behind
each colon. -/
structure Layout where
  line : Nat → List Char
  gap : List Char
  line_blank : ∀ depth, skipSpace (line depth) = []
  gap_blank : skipSpace gap = []

namespace Layout

mutual

/-- A value as it is written, `depth` brackets deep. -/
def chars (l : Layout) (depth : Nat) : Value → List Char
  | .null => "null".toList
  | .bool b => (if b then "true" else "false").toList
  | .int n => (toString n).toList
  | .float x => (floatText x).toList
  | .text s => (quote s).toList
  | .refused _ => "null".toList
  | .list [] => ['[', ']']
  | .list (item :: items) =>
    '[' :: (l.line (depth + 1) ++ (l.chars (depth + 1) item ++ (l.items (depth + 1) items ++
      (l.line depth ++ [']']))))
  | .record [] => ['{', '}']
  | .record ((name, value) :: entries) =>
    '{' :: (l.line (depth + 1) ++ ((quote name).toList ++ (':' :: (l.gap ++
      (l.chars (depth + 1) value ++ (l.entries (depth + 1) entries ++
        (l.line depth ++ ['}'])))))))

/-- The items behind the first one. -/
def items (l : Layout) (depth : Nat) : List Value → List Char
  | [] => []
  | item :: rest => ',' :: (l.line depth ++ (l.chars depth item ++ l.items depth rest))

/-- The entries behind the first one. -/
def entries (l : Layout) (depth : Nat) : List (String × Value) → List Char
  | [] => []
  | (name, value) :: rest =>
    ',' :: (l.line depth ++ ((quote name).toList ++ (':' :: (l.gap ++
      (l.chars depth value ++ l.entries depth rest)))))

end

/-- Each item on a line of its own. -/
def spread : Layout :=
  ⟨fun depth => (newLine depth).toList, [' '], skipSpace_newLine, rfl⟩

/-- No blanks at all. -/
def tight : Layout :=
  ⟨fun _ => [], [], fun _ => rfl, rfl⟩

mutual

theorem chars_spread (depth : Nat) : ∀ v : Value, spread.chars depth v = (prettyAt depth v).toList
  | .null => by rw [chars, prettyAt]
  | .bool _ => by rw [chars, prettyAt]
  | .int _ => by rw [chars, prettyAt]
  | .float _ => by rw [chars, prettyAt]
  | .text _ => by rw [chars, prettyAt]
  | .refused _ => by rw [chars, prettyAt]
  | .list [] => by
    rw [chars, prettyAt]
    rfl
  | .list (item :: items) => by
    rw [chars, prettyAt, chars_spread (depth + 1) item, items_spread (depth + 1) items]
    simp [spread]
  | .record [] => by
    rw [chars, prettyAt]
    rfl
  | .record ((name, value) :: entries) => by
    rw [chars, prettyAt, chars_spread (depth + 1) value, entries_spread (depth + 1) entries]
    simp [spread]

theorem items_spread (depth : Nat) :
    ∀ items : List Value, spread.items depth items = (prettyItems depth items).toList
  | [] => by
    rw [items, prettyItems]
    rfl
  | item :: rest => by
    rw [items, prettyItems, chars_spread depth item, items_spread depth rest]
    simp [spread]

theorem entries_spread (depth : Nat) : ∀ entries : List (String × Value),
    spread.entries depth entries = (prettyEntries depth entries).toList
  | [] => by
    rw [entries, prettyEntries]
    rfl
  | (name, value) :: rest => by
    rw [entries, prettyEntries, chars_spread depth value, entries_spread depth rest]
    simp [spread]

end

theorem toList_compactItems (item : Value) (items : List Value) :
    (compactItems (item :: items)).toList = (compact item).toList ++
      if items.isEmpty then [] else ',' :: (compactItems items).toList := by
  cases items with
  | nil =>
    rw [compactItems]
    exact (List.append_nil _).symm
  | cons next rest =>
    rw [compactItems]
    · simp
    · exact List.cons_ne_nil next rest

theorem toList_compactEntries (name : String) (value : Value) (entries : List (String × Value)) :
    (compactEntries ((name, value) :: entries)).toList =
      (quote name).toList ++ (':' :: ((compact value).toList ++
        if entries.isEmpty then [] else ',' :: (compactEntries entries).toList)) := by
  cases entries with
  | nil =>
    rw [compactEntries.eq_2]
    simp
  | cons next rest =>
    rw [compactEntries]
    · simp
    · exact List.cons_ne_nil next rest

mutual

theorem chars_tight (depth : Nat) : ∀ v : Value, tight.chars depth v = (compact v).toList
  | .null => by rw [chars, compact]
  | .bool _ => by rw [chars, compact]
  | .int _ => by rw [chars, compact]
  | .float _ => by rw [chars, compact]
  | .text _ => by rw [chars, compact]
  | .refused _ => by rw [chars, compact]
  | .list [] => by
    rw [chars, compact, compactItems]
    simp
  | .list (item :: items) => by
    rw [chars, compact, chars_tight (depth + 1) item, items_tight (depth + 1) items,
      String.toList_append, String.toList_append, toList_compactItems]
    simp [tight]
  | .record [] => by
    rw [chars, compact, compactEntries]
    simp
  | .record ((name, value) :: entries) => by
    rw [chars, compact, chars_tight (depth + 1) value, entries_tight (depth + 1) entries,
      String.toList_append, String.toList_append, toList_compactEntries]
    simp [tight]

theorem items_tight (depth : Nat) : ∀ items : List Value, tight.items depth items =
    if items.isEmpty then [] else ',' :: (compactItems items).toList
  | [] => by
    rw [items]
    rfl
  | item :: rest => by
    rw [items, chars_tight depth item, items_tight depth rest, toList_compactItems]
    simp [tight]

theorem entries_tight (depth : Nat) : ∀ entries : List (String × Value),
    tight.entries depth entries =
      if entries.isEmpty then [] else ',' :: (compactEntries entries).toList
  | [] => by
    rw [entries]
    rfl
  | (name, value) :: rest => by
    rw [entries, chars_tight depth value, entries_tight depth rest, toList_compactEntries]
    simp [tight]

end

variable (l : Layout)

theorem behind_items (depth outer : Nat) (values : List Value) {rest : List Char}
    (hrest : Behind rest) : Behind (l.items depth values ++ (l.line outer ++ rest)) := by
  cases values with
  | nil =>
    rw [items, List.nil_append]
    exact behind_append (l.line_blank outer) hrest
  | cons value values =>
    rw [items]
    exact behind_cons ',' (by decide) _

theorem behind_entries (depth outer : Nat) (named : List (String × Value)) {rest : List Char}
    (hrest : Behind rest) : Behind (l.entries depth named ++ (l.line outer ++ rest)) := by
  rcases named with _ | ⟨⟨name, value⟩, named⟩
  · rw [entries, List.nil_append]
    exact behind_append (l.line_blank outer) hrest
  · rw [entries]
    exact behind_cons ',' (by decide) _

end Layout

/-- Some fuel is left after a step. -/
theorem exists_fuel {n fuel : Nat} (h : n < fuel) : ∃ k, fuel = k + 1 ∧ n ≤ k :=
  ⟨fuel - 1, by omega, by omega⟩

mutual

/-- **A legible value comes back as its echo.** -/
theorem readValue_chars (l : Layout) : ∀ (v : Value) (fuel room depth : Nat) (rest : List Char),
    Legible room v → Behind rest → 2 * (l.chars depth v).length < fuel →
      ReadsAs fuel room (l.chars depth v) rest (echo v)
  | .null => by
    intro fuel room depth rest _ _ hfuel
    obtain ⟨k, rfl, -⟩ := exists_fuel hfuel
    rw [Layout.chars, echo]
    exact readsAs_null k room rest
  | .refused _ => by
    intro fuel room depth rest _ _ hfuel
    obtain ⟨k, rfl, -⟩ := exists_fuel hfuel
    rw [Layout.chars, echo]
    exact readsAs_null k room rest
  | .bool b => by
    intro fuel room depth rest _ _ hfuel
    obtain ⟨k, rfl, -⟩ := exists_fuel hfuel
    rw [Layout.chars, echo]
    exact readsAs_bool k room rest b
  | .int n => by
    intro fuel room depth rest hlegible hrest hfuel
    obtain ⟨k, rfl, -⟩ := exists_fuel hfuel
    rw [Legible] at hlegible
    obtain ⟨m, rfl⟩ := Int.eq_ofNat_of_zero_le hlegible.1
    have htext : (toString (m : Int)).toList = Nat.toDigits 10 m := by
      show (toString m).toList = _
      rw [Nat.toString_eq_ofList_toDigits, String.toList_ofList]
    rw [Layout.chars, htext, echo]
    exact readsAs_int (by omega) hrest k room
  | .float x => by
    intro fuel room depth rest hlegible hrest hfuel
    obtain ⟨k, rfl, -⟩ := exists_fuel hfuel
    rw [Legible] at hlegible
    rw [Layout.chars]
    exact readsAs_float hlegible hrest k room
  | .text s => by
    intro fuel room depth rest _ _ hfuel
    obtain ⟨k, rfl, -⟩ := exists_fuel hfuel
    rw [Layout.chars, echo]
    exact readsAs_text s k room rest
  | .list [] => by
    intro fuel room depth rest hlegible _ hfuel
    rw [Legible] at hlegible
    obtain ⟨room, rfl⟩ : ∃ r, room = r + 1 := ⟨room - 1, by omega⟩
    rw [Layout.chars] at hfuel ⊢
    obtain ⟨k, rfl⟩ : ∃ k, fuel = k + 2 := ⟨fuel - 2, by simp at hfuel; omega⟩
    exact ⟨rest, readValue_emptyList k room rest, rfl⟩
  | .list (item :: items) => by
    intro fuel room depth rest hlegible _ hfuel
    rw [Legible, LegibleItems] at hlegible
    obtain ⟨hroom, hitem, hitems⟩ := hlegible
    obtain ⟨room, rfl⟩ : ∃ r, room = r + 1 := ⟨room - 1, by omega⟩
    rw [Layout.chars] at hfuel ⊢
    simp only [List.length_cons, List.length_append] at hfuel
    obtain ⟨k, rfl⟩ : ∃ k, fuel = k + 2 := ⟨fuel - 2, by omega⟩
    have hrest := readItems_items l items k room (depth + 1) depth rest hitems (by omega)
    have hbehind := l.behind_items (depth + 1) depth items (behind_cons ']' (by decide) rest)
    have hfirst := readValue_chars l item k room (depth + 1) _ hitem hbehind (by omega)
    refine ⟨rest, ?_, rfl⟩
    have hlist := readValue_list (l.line_blank (depth + 1)) hfirst hrest
    simpa [echo, echoItems] using hlist
  | .record [] => by
    intro fuel room depth rest hlegible _ hfuel
    rw [Legible] at hlegible
    obtain ⟨room, rfl⟩ : ∃ r, room = r + 1 := ⟨room - 1, by omega⟩
    rw [Layout.chars] at hfuel ⊢
    obtain ⟨k, rfl⟩ : ∃ k, fuel = k + 2 := ⟨fuel - 2, by simp at hfuel; omega⟩
    exact ⟨rest, readValue_emptyRecord k room rest, rfl⟩
  | .record ((name, value) :: entries) => by
    intro fuel room depth rest hlegible _ hfuel
    rw [Legible, LegibleEntries] at hlegible
    obtain ⟨hroom, hvalue, hentries⟩ := hlegible
    obtain ⟨room, rfl⟩ : ∃ r, room = r + 1 := ⟨room - 1, by omega⟩
    rw [Layout.chars] at hfuel ⊢
    simp only [List.length_cons, List.length_append] at hfuel
    obtain ⟨k, rfl⟩ : ∃ k, fuel = k + 3 := ⟨fuel - 3, by omega⟩
    have hrest := readEntries_entries l entries k room (depth + 1) depth rest hentries (by omega)
    have hbehind := l.behind_entries (depth + 1) depth entries (behind_cons '}' (by decide) rest)
    have hfirst := readValue_chars l value k room (depth + 1) _ hvalue hbehind (by omega)
    refine ⟨rest, ?_, rfl⟩
    have hrecord := readValue_record (l.line_blank (depth + 1))
      (readEntry_eq name l.gap_blank hfirst hrest)
    simpa [echo, echoEntries, toList_quote] using hrecord

theorem readItems_items (l : Layout) : ∀ (items : List Value) (fuel room depth outer : Nat)
    (rest : List Char), LegibleItems room items →
      2 * (l.items depth items).length < fuel →
      readItems fuel room false (l.items depth items ++
        (l.line outer ++ ']' :: rest)) = .ok (echoItems items, rest)
  | [] => by
    intro fuel room depth outer rest _ hfuel
    obtain ⟨k, rfl, -⟩ := exists_fuel hfuel
    have hclose : skipSpace (l.line outer ++ ']' :: rest) = ']' :: rest :=
      skipSpace_append (l.line_blank outer)
    rw [Layout.items, echoItems]
    show readItems (k + 1) room false (l.line outer ++ ']' :: rest) = _
    rw [readItems, hclose]
    rfl
  | item :: items => by
    intro fuel room depth outer rest hlegible hfuel
    rw [LegibleItems] at hlegible
    obtain ⟨hitem, hitems⟩ := hlegible
    rw [Layout.items] at hfuel ⊢
    simp only [List.length_cons, List.length_append] at hfuel
    obtain ⟨k, rfl⟩ : ∃ k, fuel = k + 1 := ⟨fuel - 1, by omega⟩
    have hrest := readItems_items l items k room depth outer rest hitems (by omega)
    have hbehind := l.behind_items depth outer items (behind_cons ']' (by decide) rest)
    have hfirst := readValue_chars l item k room depth _ hitem hbehind (by omega)
    obtain ⟨after, hvalue, hafter⟩ := hfirst
    have hcomma := readItems_comma (l.line_blank depth) hvalue
    rw [readOn_eq ⟨after, hvalue, hafter⟩ hrest] at hcomma
    simpa [echoItems] using hcomma

theorem readEntries_entries (l : Layout) : ∀ (entries : List (String × Value))
    (fuel room depth outer : Nat) (rest : List Char), LegibleEntries room entries →
      2 * (l.entries depth entries).length < fuel →
      readEntries fuel room false (l.entries depth entries ++
        (l.line outer ++ '}' :: rest)) = .ok (echoEntries entries, rest)
  | [] => by
    intro fuel room depth outer rest _ hfuel
    obtain ⟨k, rfl, -⟩ := exists_fuel hfuel
    have hclose : skipSpace (l.line outer ++ '}' :: rest) = '}' :: rest :=
      skipSpace_append (l.line_blank outer)
    rw [Layout.entries, echoEntries]
    show readEntries (k + 1) room false (l.line outer ++ '}' :: rest) = _
    rw [readEntries, hclose]
    rfl
  | (name, value) :: entries => by
    intro fuel room depth outer rest hlegible hfuel
    rw [LegibleEntries] at hlegible
    obtain ⟨hvalue, hentries⟩ := hlegible
    rw [Layout.entries] at hfuel ⊢
    simp only [List.length_cons, List.length_append] at hfuel
    obtain ⟨k, rfl⟩ : ∃ k, fuel = k + 2 := ⟨fuel - 2, by omega⟩
    have hrest := readEntries_entries l entries k room depth outer rest hentries (by omega)
    have hbehind := l.behind_entries depth outer entries (behind_cons '}' (by decide) rest)
    have hfirst := readValue_chars l value k room depth _ hvalue hbehind (by omega)
    have hentry := readEntry_eq name l.gap_blank hfirst hrest
    rw [← readEntries_comma (l.line_blank depth)] at hentry
    simpa [echoEntries, toList_quote] using hentry

end

/-- A text that was written is read to its end. -/
theorem read_of_chars (l : Layout) {v : Value} (h : Legible depthLimit v) {text : String}
    (htext : l.chars 0 v = text.toList) : read text = .ok (echo v) := by
  have hfuel : 2 * (l.chars 0 v).length < 2 * (l.chars 0 v).length + 2 := by omega
  obtain ⟨after, hread, hafter⟩ :=
    readValue_chars l v _ depthLimit 0 [] h (fun c hc => by cases hc) hfuel
  rw [List.append_nil, htext] at hread
  have hend : skipSpace after = [] := hafter
  rw [read]
  simp only [hread, bind, Except.bind, hend, pure, Except.pure]

/-- **A text that was written over several lines is read as the echo of its value.** -/
theorem read_pretty {v : Value} (h : Legible depthLimit v) : read (pretty v) = .ok (echo v) :=
  read_of_chars .spread h (Layout.chars_spread 0 v)

/-- **A text that was written on one line is read as the echo of its value.** -/
theorem read_compact {v : Value} (h : Legible depthLimit v) : read (compact v) = .ok (echo v) :=
  read_of_chars .tight h (Layout.chars_tight 0 v)

end Readability.Data.Json
