import Readability.Text.Blank

/-!
Lines. Two readings of a text are needed: `splitLines` cuts at every line feed and so ends with an
empty piece after a final one, while `textLines` counts a final line feed as the end of the last
line. Both take one carriage return off the end of a line.
-/

namespace Readability.Text

/-- The pieces between line feeds, at least one. -/
def splitFeeds : List Char → List (List Char)
  | [] => [[]]
  | c :: cs =>
    if c == '\n' then [] :: splitFeeds cs
    else
      match splitFeeds cs with
      | [] => [[c]]
      | piece :: rest => (c :: piece) :: rest

theorem splitFeeds_ne_nil (cs : List Char) : splitFeeds cs ≠ [] := by
  cases cs with
  | nil => simp [splitFeeds]
  | cons c cs =>
    simp only [splitFeeds]
    split
    · simp
    · split <;> simp

/-- Without one carriage return at the end. -/
def dropReturn (line : List Char) : List Char :=
  match line.reverse with
  | '\r' :: rest => rest.reverse
  | _ => line

/-- The lines of a text, with an empty one after a final line feed. -/
def splitLines (cs : List Char) : List (List Char) :=
  (splitFeeds cs).map dropReturn

/-- The lines of a text, a final line feed closing the last one. A carriage return is part of the
line end only in front of a line feed. -/
def textLines (cs : List Char) : List (List Char) :=
  let pieces := splitFeeds cs
  let closed := pieces.dropLast.map dropReturn
  match pieces.getLast? with
  | none => closed
  | some [] => closed
  | some piece => closed ++ [piece]

/-- Byte offsets of the line feeds of a text that starts at byte `at`. -/
def feedOffsets (start : Nat) : List Char → List Nat
  | [] => []
  | c :: cs =>
    let rest := feedOffsets (start + c.utf8Size) cs
    if c == '\n' then start :: rest else rest

end Readability.Text
