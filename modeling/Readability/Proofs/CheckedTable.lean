import Mathlib
import Readability.Proofs.CheckedReading

/-!
# Noting tokens with checks

The lines of a region are kept in a table with a note for each line, and the tokens are gone
through once: each is noted on the line it starts on, and a comment marks all lines that it
reaches (`visit?`). Places in the table, stretches of it and differences of rows are taken
with checks.

What the notes say after some tokens is what the region with these tokens says (`passOf`).
One more token leads from the one region to the next (`visit?_eq`), so by induction the
whole walk passes all checks (`foldlM_visit?`). That a token does not end before it starts
is what keeps the stretch that a comment marks from being reversed (`mark?_eq`).
-/

namespace Readability.Checked

open Readability.Source Readability.Feature

/-! ## The table -/

/-- What is noted of a line. -/
structure LineNote where
  count : Counter → Nat
  depth : Option Nat
  comment : Bool

/-- A note of nothing. -/
def LineNote.blank : LineNote :=
  ⟨fun _ => 0, none, false⟩

/-- The note with a token that starts on its line. -/
def LineNote.add (note : LineNote) (t : Token) : LineNote :=
  { note with
    count := fun counter => note.count counter + if counts counter t then 1 else 0
    depth := note.depth.or (some t.depth) }

/-- The notes so far, and the tokens that were noted. -/
structure Pass where
  notes : List LineNote
  kept : List Token

/-- Marks the lines from one place to another as lines that a comment reaches. -/
def mark? (notes : List LineNote) (first last : Nat) : Option (List LineNote) := do
  let _ ← slice? notes first last
  return notes.mapIdx fun row note =>
    if first ≤ row ∧ row ≤ last then { note with comment := true } else note

/-- Notes a token on a line of the table, whose rows start with `first`. -/
def noteOn? (first : Nat) (pass : Pass) (t : Token) (row : Nat) : Option Pass := do
  let note ← pass.notes[row]?
  let notes := pass.notes.set row (note.add t)
  if t.kind == .comment then
    let lastRow ← lastRow? t
    let last ← sub? notes.length 1
    let marked ← mark? notes row (min (lastRow - first) last)
    return ⟨marked, pass.kept ++ [t]⟩
  else return ⟨notes, pass.kept ++ [t]⟩

/-- Notes a token, if its line is in the table. -/
def visit? (first : Nat) (pass : Pass) (t : Token) : Option Pass :=
  if t.startRow < first then some pass
  else do
    let row ← sub? t.startRow first
    if row < pass.notes.length then noteOn? first pass t row else return pass

/-! ## What the table says -/

/-- What a region says of a line. -/
def noteOf (r : Region) (row : Nat) : LineNote :=
  ⟨fun counter => r.count counter row, r.depth? row, r.isCommented row⟩

/-- A table that says what a region says. -/
def passOf (r : Region) : Pass :=
  ⟨(List.range r.lines.length).map (noteOf r), r.tokens⟩

/-- Whether a token starts on a row of a region. -/
def startsIn (r : Region) (t : Token) : Bool :=
  r.first ≤ t.startRow && t.startRow < r.first + r.lines.length

/-- The region with one more token. -/
def withToken (r : Region) (t : Token) : Region :=
  { r with tokens := r.tokens ++ [t] }

/-- The region with one more token, if it starts there. -/
def addTo (r : Region) (t : Token) : Region :=
  if startsIn r t then withToken r t else r

/-- Whether a comment reaches a line. -/
def reaches (r : Region) (t : Token) (row : Nat) : Bool :=
  t.kind == .comment && t.startRow ≤ r.first + row && r.first + row ≤ t.lastRow

section Step

variable (r : Region) (t : Token) (row : Nat)

theorem tokensOn_withToken : (withToken r t).tokensOn row =
    r.tokensOn row ++ if t.startRow = r.first + row then [t] else [] := by
  rw [Region.tokensOn, Region.tokensOn, withToken, List.filter_append]
  refine congrArg (r.tokensOn row ++ ·) ?_
  simp only [List.filter_cons, List.filter_nil, beq_iff_eq]

/-- **One more token adds to the note of the line it starts on**, and marks the lines it reaches. -/
theorem noteOf_withToken : noteOf (withToken r t) row =
    let note := if t.startRow = r.first + row then (noteOf r row).add t else noteOf r row
    if reaches r t row then { note with comment := true } else note := by
  have htokens := tokensOn_withToken r t row
  have hcomment : (withToken r t).isCommented row =
      (r.isCommented row || reaches r t row) := by
    rw [Region.isCommented, Region.isCommented, withToken, List.any_append, List.any_cons,
      List.any_nil, Bool.or_false]
    rfl
  have hnote : (⟨fun counter => (withToken r t).count counter row,
      (withToken r t).depth? row, r.isCommented row⟩ : LineNote) =
      if t.startRow = r.first + row then (noteOf r row).add t else noteOf r row := by
    simp only [Region.count, Region.depth?, htokens]
    split
    · rw [LineNote.add, LineNote.mk.injEq]
      refine ⟨funext fun counter => ?_, ?_, rfl⟩
      · rw [List.countP_append, List.countP_singleton]
        rfl
      · rw [List.head?_append, Option.map_or]
        rfl
    · rw [List.append_nil]
      rfl
  rw [← hnote, noteOf, hcomment]
  rcases reaches r t row with _ | _
  · rw [Bool.or_false]
    rfl
  · rw [Bool.or_true]
    rfl

variable {r t}

theorem length_passOf : (passOf r).notes.length = r.lines.length := by
  rw [passOf, List.length_map, List.length_range]

/-- Only the note of the token's line is replaced. -/
theorem set_add (hrow : t.startRow = r.first + row) :
    (passOf r).notes.set row ((noteOf r row).add t) = (List.range r.lines.length).map fun other =>
      if t.startRow = r.first + other then (noteOf r other).add t else noteOf r other := by
  refine List.ext_getElem (by simp only [passOf, List.length_set, List.length_map]) ?_
  intro other _ _
  simp only [passOf, List.getElem_set, List.getElem_map, List.getElem_range]
  by_cases hsame : row = other
  · rw [if_pos hsame, if_pos (hsame ▸ hrow), hsame]
  · rw [if_neg hsame, if_neg (by omega)]

/-- A comment that starts in the table marks the lines that it reaches; there is at least one. -/
theorem mark?_eq (hcomment : t.kind = .comment) (hordered : t.startRow ≤ t.lastRow)
    (hrow : t.startRow = r.first + row) (hlast : row < r.lines.length) (note : Nat → LineNote) :
    mark? ((List.range r.lines.length).map note) row
        (min (t.lastRow - r.first) (r.lines.length - 1)) =
      some ((List.range r.lines.length).map fun other =>
        if reaches r t other then { note other with comment := true } else note other) := by
  have hlength : ((List.range r.lines.length).map note).length = r.lines.length := by
    rw [List.length_map, List.length_range]
  rw [mark?, slice?_of_le (by omega) (by omega)]
  refine congrArg some (List.ext_getElem (by rw [List.length_mapIdx, hlength, List.length_map,
    List.length_range]) ?_)
  intro other hother _
  rw [List.length_mapIdx, hlength] at hother
  simp only [List.getElem_mapIdx, List.getElem_map, List.getElem_range]
  refine if_congr ?_ rfl rfl
  rw [reaches, hcomment, beq_self_eq_true, Bool.true_and, Bool.and_eq_true_iff, decide_eq_true_iff,
    decide_eq_true_iff]
  omega

/-- A token that starts in the table is noted there. -/
theorem noteOn?_eq (hordered : t.startRow ≤ t.lastRow) (hrow : t.startRow = r.first + row)
    (hlast : row < r.lines.length) : noteOn? r.first (passOf r) t row =
      some (passOf (withToken r t)) := by
  have hnote : (passOf r).notes[row]? = some (noteOf r row) := by
    rw [passOf, List.getElem?_map, List.getElem?_range hlast, Option.map_some]
  have hafter : (passOf (withToken r t)).notes =
      (List.range r.lines.length).map fun other =>
        let note := if t.startRow = r.first + other then (noteOf r other).add t else noteOf r other
        if reaches r t other then { note with comment := true } else note :=
    List.map_congr_left fun other _ => noteOf_withToken r t other
  rw [noteOn?, hnote]
  simp only [Option.bind_eq_bind, Option.bind_some, set_add row hrow, lastRow?_eq,
    List.length_map, List.length_range]
  by_cases hcomment : t.kind = .comment
  · rw [if_pos (beq_iff_eq.mpr hcomment), sub?_of_le (by omega), Option.bind_some,
      mark?_eq row hcomment hordered hrow hlast, Option.bind_some]
    refine congrArg some ?_
    rw [← hafter]
    rfl
  · have hnone : ∀ other, reaches r t other = false := fun other => by
      rw [reaches, beq_false_of_ne hcomment, Bool.false_and, Bool.false_and]
    rw [if_neg (mt beq_iff_eq.mp hcomment)]
    refine congrArg some ?_
    simp only [hnone, Bool.false_eq_true, if_false] at hafter
    rw [← hafter]
    rfl

/-- **A step of the walk passes all checks**, and leaves a table that says what the region with the
token says. -/
theorem visit?_eq (hordered : t.startRow ≤ t.lastRow) :
    visit? r.first (passOf r) t = some (passOf (addTo r t)) := by
  rw [visit?, addTo]
  by_cases hfirst : t.startRow < r.first
  · have houtside : startsIn r t = false := by
      rw [startsIn, decide_eq_false (Nat.not_le.mpr hfirst), Bool.false_and]
    rw [if_pos hfirst, houtside]
    rfl
  · obtain ⟨row, hrow⟩ := Nat.exists_eq_add_of_le (Nat.not_lt.mp hfirst)
    have hstarts : startsIn r t = decide (row < r.lines.length) := by
      rw [startsIn, hrow, decide_eq_true (Nat.le_add_right _ _), Bool.true_and,
        decide_eq_decide.mpr Nat.add_lt_add_iff_left]
    rw [if_neg hfirst, sub?_of_le (Nat.not_lt.mp hfirst), hstarts]
    simp only [Option.bind_eq_bind, Option.bind_some, length_passOf]
    rw [hrow, Nat.add_sub_cancel_left]
    by_cases hlast : row < r.lines.length
    · rw [if_pos hlast, if_pos (decide_eq_true hlast)]
      exact noteOn?_eq row hordered hrow hlast
    · rw [if_neg hlast, decide_eq_false hlast]
      rfl

end Step

/-- **The walk passes all checks**, and leaves a table that says what the region with all tokens
that start there says. -/
theorem foldlM_visit? {r : Region} {tokens : List Token}
    (hordered : ∀ t ∈ tokens, t.startRow ≤ t.lastRow) :
    tokens.foldlM (visit? r.first) (passOf r) =
      some (passOf { r with tokens := r.tokens ++ tokens.filter (startsIn r) }) := by
  induction tokens generalizing r with
  | nil =>
    rw [List.filter_nil, List.append_nil]
    rfl
  | cons t tokens ih =>
    obtain ⟨ht, htokens⟩ := List.forall_mem_cons.mp hordered
    rw [List.foldlM_cons, visit?_eq ht, Option.bind_eq_bind, Option.bind_some, addTo]
    rcases hstarts : startsIn r t with _ | _
    · rw [List.filter_cons_of_neg (Bool.eq_false_iff.mp hstarts)]
      exact ih htokens
    · have hrest := ih (r := withToken r t) htokens
      rw [withToken, List.append_assoc] at hrest
      rw [List.filter_cons_of_pos hstarts]
      exact hrest

end Readability.Checked
