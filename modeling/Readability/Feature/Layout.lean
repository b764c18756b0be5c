import Readability.Text.Blank

/-!
The layout of a line: how far it is indented, how long it is, and the blanks inside it.
-/

namespace Readability.Feature

/-- Distance of tab stops. -/
def tabWidth : Nat := 4

/-- Width of the blanks and tabs at the start of a line, the line starting at column `width`. A tab
leads to the next tab stop. -/
def indentationFrom (width : Nat) : List Char → Nat
  | ' ' :: rest => indentationFrom (width + 1) rest
  | '\t' :: rest => indentationFrom (width + (tabWidth - width % tabWidth)) rest
  | _ => width

/-- Width of the blanks and tabs at the start of a line. -/
def indentation (line : List Char) : Nat :=
  indentationFrom 0 line

/-- Blanks and tabs between the first and the last visible character. -/
def innerSpaces (line : List Char) : Nat :=
  (Text.trim line).countP fun c => c == ' ' || c == '\t'

/-- Whether a line shows something. -/
def isCode (line : List Char) : Bool :=
  !Text.allBlank line

/-- The smallest indentation of the lines that show something. -/
def baseIndentation (lines : List (List Char)) : Nat :=
  (((lines.filter isCode).map indentation).min?).getD 0

/-- Indentation of a line beyond the common one. -/
def indentBeyond (base : Nat) (line : List Char) : Nat :=
  indentation line - base

/-- Length of a line: its indentation beyond the common one and its characters from the first to the
last visible one. -/
def lineLength (base : Nat) (line : List Char) : Nat :=
  let visible := Text.trimEnd line
  indentBeyond base visible + (Text.trimStart visible).length

end Readability.Feature
