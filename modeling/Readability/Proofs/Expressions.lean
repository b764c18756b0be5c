import Mathlib.Data.List.Basic

/-!
# Regular expressions

The part of regular expressions that patterns for paths are translated into: groups, what
may be left out or repeated, classes that leave out one character, and the two ends of a
text. Characters with a meaning of their own stand for themselves behind a backslash.

What an expression matches depends on the text around it at the ends alone (`Matches`). A
text is searched, so an expression may match any part of it (`Occurs`).
-/

namespace Readability.Text

/-- A regular expression. -/
inductive Regex where
  | nothing
  /-- The start of the text. -/
  | start
  /-- The end of the text. -/
  | stop
  /-- Any character but a line feed. -/
  | dot
  | literal (c : Char)
  /-- Any character but one. -/
  | other (c : Char)
  | many (r : Regex)
  | maybe (r : Regex)
  | both (r s : Regex)
deriving Repr, DecidableEq

namespace Regex

/-! ## How expressions are written -/

/-- Whether a character has a meaning of its own in an expression. -/
def isMeta (c : Char) : Bool :=
  ['\\', '.', '+', '*', '?', '(', ')', '|', '[', ']', '\x7b', '\x7d', '^', '$', '#', '&', '-',
    '~'].contains c

/-- Expressions one after the other. -/
def chain : List Regex → Regex
  | [] => nothing
  | r :: rs => both r (chain rs)

/-- Whether an expression is repeated already. A question mark behind it has another
meaning. -/
def isRepeated : Regex → Bool
  | many _ => true
  | maybe _ => true
  | _ => false

/-- Reads an expression. `items` are the parts of the innermost group, the latest first, and
`outer` those in front of it, group by group. -/
def readFrom (outer : List (List Regex)) (items : List Regex) : List Char → Option Regex
  | [] => if outer.isEmpty then some (chain items.reverse) else none
  | '(' :: '?' :: ':' :: rest => readFrom (items :: outer) [] rest
  | ')' :: rest =>
    match outer with
    | [] => none
    | before :: outer => readFrom outer (chain items.reverse :: before) rest
  | '*' :: rest =>
    match items with
    | [] => none
    | r :: before => if isRepeated r then none else readFrom outer (many r :: before) rest
  | '?' :: rest =>
    match items with
    | [] => none
    | r :: before => if isRepeated r then none else readFrom outer (maybe r :: before) rest
  | '[' :: '^' :: c :: ']' :: rest =>
    if isMeta c then none else readFrom outer (other c :: items) rest
  | '\\' :: c :: rest => if isMeta c then readFrom outer (literal c :: items) rest else none
  | '.' :: rest => readFrom outer (dot :: items) rest
  | '^' :: rest => readFrom outer (start :: items) rest
  | '$' :: rest => readFrom outer (stop :: items) rest
  | c :: rest => if isMeta c then none else readFrom outer (literal c :: items) rest

/-- Reads an expression; `none` for any that has other signs than these. -/
def read (text : String) : Option Regex :=
  readFrom [] [] text.toList

/-- A character as it is written to stand for itself. -/
def escaped (c : Char) : List Char :=
  if isMeta c then ['\\', c] else [c]

theorem readFrom_escaped (outer : List (List Regex)) (items : List Regex) (c : Char)
    (rest : List Char) :
    readFrom outer items (escaped c ++ rest) = readFrom outer (literal c :: items) rest := by
  unfold escaped
  split
  · rename_i hmeta
    rw [List.cons_append, List.singleton_append, readFrom, if_pos hmeta]
  · rename_i hmeta
    rw [Bool.not_eq_true] at hmeta
    rw [List.singleton_append, readFrom, if_neg (by rw [hmeta]; exact Bool.false_ne_true)]
    -- the character is none of the signs that were looked for before
    all_goals
      intros
      subst_vars
      exact absurd hmeta (by decide)

/-! ## What expressions match -/

/-- An expression matches a part of a text, with the text before and behind it. -/
inductive Matches : Regex → List Char → List Char → List Char → Prop where
  | nothing {before behind} : Matches nothing before [] behind
  | start {behind} : Matches start [] [] behind
  | stop {before} : Matches stop before [] []
  | dot {before behind c} (h : c ≠ '\n') : Matches dot before [c] behind
  | literal {before behind c} : Matches (literal c) before [c] behind
  | other {before behind c d} (h : d ≠ c) : Matches (other c) before [d] behind
  | manyNone {before behind r} : Matches (many r) before [] behind
  | manyMore {before behind r front rest} (hfirst : Matches r before front (rest ++ behind))
      (hmore : Matches (many r) (before ++ front) rest behind) :
      Matches (many r) before (front ++ rest) behind
  | maybeNone {before behind r} : Matches (maybe r) before [] behind
  | maybeSome {before behind r part} (h : Matches r before part behind) :
      Matches (maybe r) before part behind
  | both {before behind r s front rest} (hfirst : Matches r before front (rest ++ behind))
      (hsecond : Matches s (before ++ front) rest behind) :
      Matches (both r s) before (front ++ rest) behind

/-- An expression matches some part of a text. -/
def Occurs (r : Regex) (text : List Char) : Prop :=
  ∃ before part behind, text = before ++ part ++ behind ∧ r.Matches before part behind

/-- An expression matches what comes next in a text. -/
def Leads (r : Regex) (before rest : List Char) : Prop :=
  ∃ part behind, rest = part ++ behind ∧ r.Matches before part behind

variable {before part behind rest : List Char}

theorem matches_nothing_iff : Matches nothing before part behind ↔ part = [] := by
  constructor
  · rintro ⟨⟩
    rfl
  · rintro rfl
    exact .nothing

theorem matches_start_iff : Matches start before part behind ↔ before = [] ∧ part = [] := by
  constructor
  · rintro ⟨⟩
    exact ⟨rfl, rfl⟩
  · rintro ⟨rfl, rfl⟩
    exact .start

theorem matches_stop_iff : Matches stop before part behind ↔ part = [] ∧ behind = [] := by
  constructor
  · rintro ⟨⟩
    exact ⟨rfl, rfl⟩
  · rintro ⟨rfl, rfl⟩
    exact .stop

theorem matches_dot_iff : Matches dot before part behind ↔ ∃ c, part = [c] ∧ c ≠ '\n' := by
  constructor
  · rintro ⟨⟩
    exact ⟨_, rfl, ‹_›⟩
  · rintro ⟨c, rfl, hc⟩
    exact .dot hc

theorem matches_literal_iff {c : Char} : Matches (literal c) before part behind ↔ part = [c] := by
  constructor
  · rintro ⟨⟩
    rfl
  · rintro rfl
    exact .literal

theorem matches_other_iff {c : Char} :
    Matches (other c) before part behind ↔ ∃ d, part = [d] ∧ d ≠ c := by
  constructor
  · rintro ⟨⟩
    exact ⟨_, rfl, ‹_›⟩
  · rintro ⟨d, rfl, hd⟩
    exact .other hd

theorem matches_maybe_iff {r : Regex} :
    Matches (maybe r) before part behind ↔ part = [] ∨ Matches r before part behind := by
  constructor
  · intro hmatch
    cases hmatch with
    | maybeNone => exact .inl rfl
    | maybeSome h => exact .inr h
  · rintro (rfl | h)
    · exact .maybeNone
    · exact .maybeSome h

theorem matches_both_iff {r s : Regex} :
    Matches (both r s) before part behind ↔ ∃ front rest, part = front ++ rest ∧
      Matches r before front (rest ++ behind) ∧ Matches s (before ++ front) rest behind := by
  constructor
  · intro hmatch
    cases hmatch with
    | both hfirst hsecond => exact ⟨_, _, rfl, hfirst, hsecond⟩
  · rintro ⟨front, rest, rfl, hfirst, hsecond⟩
    exact .both hfirst hsecond

/-- What matches single characters matches runs of them when it is repeated. -/
theorem matches_many_iff {r : Regex} {accept : Char → Prop}
    (hr : ∀ {before part behind}, Matches r before part behind ↔ ∃ c, part = [c] ∧ accept c) :
    Matches (many r) before part behind ↔ ∀ c ∈ part, accept c := by
  constructor
  · intro h
    generalize hmany : many r = whole at h
    induction h with
    | manyNone => exact fun c hc => absurd hc List.not_mem_nil
    | manyMore hfirst hmore _ ih =>
      cases hmany
      obtain ⟨c, rfl, hc⟩ := hr.mp hfirst
      exact List.forall_mem_cons.mpr ⟨hc, ih rfl⟩
    | _ => cases hmany
  · intro hall
    induction part generalizing before with
    | nil => exact .manyNone
    | cons c part ih =>
      obtain ⟨hc, hall⟩ := List.forall_mem_cons.mp hall
      show Matches (many r) before ([c] ++ part) behind
      exact .manyMore (hr.mpr ⟨c, rfl, hc⟩) (ih hall)

/-- Of two expressions the second goes on where the first one ends. -/
theorem leads_both_iff {r s : Regex} :
    Leads (both r s) before rest ↔
      ∃ front after, rest = front ++ after ∧ Matches r before front after ∧
        Leads s (before ++ front) after := by
  constructor
  · rintro ⟨part, behind, rfl, h⟩
    obtain ⟨front, after, rfl, hfirst, hsecond⟩ := matches_both_iff.mp h
    exact ⟨front, after ++ behind, List.append_assoc _ _ _, hfirst, after, behind, rfl, hsecond⟩
  · rintro ⟨front, _, rfl, hfirst, after, behind, rfl, hsecond⟩
    exact ⟨front ++ after, behind, (List.append_assoc _ _ _).symm, .both hfirst hsecond⟩

/-- An expression that begins at the start of the text is found there or nowhere. -/
theorem occurs_start_iff {r : Regex} {text : List Char} :
    Occurs (both start r) text ↔ Leads r [] text := by
  constructor
  · rintro ⟨before, part, behind, rfl, h⟩
    obtain ⟨front, rest, rfl, hfirst, hsecond⟩ := matches_both_iff.mp h
    obtain ⟨rfl, rfl⟩ := matches_start_iff.mp hfirst
    exact ⟨rest, behind, rfl, hsecond⟩
  · rintro ⟨part, behind, rfl, h⟩
    exact ⟨[], part, behind, rfl, matches_both_iff.mpr ⟨[], part, rfl, .start, h⟩⟩

end Regex

end Readability.Text
