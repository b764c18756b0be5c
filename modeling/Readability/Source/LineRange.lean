import Readability.Number.Word
import Readability.Text.Cut
import Readability.Text.Lines

/-!
Ranges of lines, and the snippet that one marks in a text: its lines without the indentation that
they share.
-/

namespace Readability.Source

/-- Lines from a first to a last one, counted from one. -/
structure LineRange where
  first : Nat
  last : Nat
  first_pos : 0 < first
  first_le_last : first ≤ last
deriving DecidableEq

/-- Why a text is no range of lines. -/
inductive LineRangeFault where
  | malformed (text : String)
  | zero
  | reversed (first last : Nat)
deriving Repr, DecidableEq

namespace LineRangeFault

/-- The fault in words. -/
def message : LineRangeFault → String
  | malformed text => "'" ++ text ++ "' is not a line range like 10-25"
  | zero => "lines are numbered from 1"
  | reversed first last =>
    "range " ++ toString first ++ "-" ++ toString last ++ " ends before it starts"

end LineRangeFault

/-- A range that goes past the end of a text. -/
structure PastEnd where
  line : Nat
  available : Nat
deriving Repr, DecidableEq

/-- The fault in words. -/
def PastEnd.message (fault : PastEnd) : String :=
  "line " ++ toString fault.line ++ " is past the end (" ++ toString fault.available ++ " lines)"

/-- How many bytes of white space a line starts with. -/
def indentation (line : List Char) : Nat :=
  ((line.takeWhile Text.isBlank).map Char.utf8Size).foldl Nat.add 0

/-- A line with so many bytes of indentation taken off, or all white space where that cannot be. -/
def dedent (count : Nat) (line : List Char) : List Char :=
  (Text.dropBytes count line).getD (Text.trimStart line)

/-- The indentation that all lines have, blank ones left out. -/
def sharedIndentation (lines : List (List Char)) : Nat :=
  ((lines.filter fun line => !Text.allBlank line).map indentation).min?.getD 0

namespace LineRange

/-- The range from one count to another. -/
def ofCounts (first last : Nat) : Except LineRangeFault LineRange :=
  if zero : first = 0 then .error .zero
  else if reversed : last < first then .error (.reversed first last)
  else .ok ⟨first, last, Nat.pos_of_ne_zero zero, Nat.le_of_not_lt reversed⟩

/-- The texts before and behind the first dash; the whole text twice when there is none. -/
def ends (text : List Char) : List Char × List Char :=
  match text.dropWhile (· != '-') with
  | [] => (text, text)
  | _ :: behind => (text.takeWhile (· != '-'), behind)

/-- Reads a range such as `10-25`, or `7` for a single line. -/
def parse (text : String) : Except LineRangeFault LineRange :=
  let (before, behind) := ends text.toList
  match Number.readWord (String.ofList (Text.trim before)),
    Number.readWord (String.ofList (Text.trim behind)) with
  | .ok first, .ok last => ofCounts first last
  | _, _ => .error (.malformed text)

/-- The lines of a range without the indentation that they share. -/
def snippet (range : LineRange) (lines : List (List Char)) : List (List Char) :=
  let marked := (lines.take range.last).drop (range.first - 1)
  marked.map (dedent (sharedIndentation marked))

/-- The snippet that a range marks in a text. -/
def cut (range : LineRange) (text : String) : Except PastEnd String :=
  let lines := Text.textLines text.toList
  if lines.length < range.last then .error ⟨range.last, lines.length⟩
  else .ok (String.ofList ((range.snippet lines).flatMap (· ++ ['\n'])))

end LineRange

end Readability.Source
