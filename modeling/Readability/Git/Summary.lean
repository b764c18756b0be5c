/-!
The first paragraph of a message on one line: white space that has a line end in it becomes one
space, other white space stays, and none is left at the end.
-/

namespace Readability.Git

/-- Whether a character is white space in a message. -/
def isMessageBlank (c : Char) : Bool :=
  c == ' ' || c == '\t' || c == '\n' || c == '\x0b' || c == '\x0c' || c == '\r'

/-- Whether a text has nothing but white space up to the end of its first line. -/
def startsBlankLine (text : List Char) : Bool :=
  match text.dropWhile fun c => c != '\n' && isMessageBlank c with
  | [] => true
  | c :: _ => c == '\n'

/-- The first paragraph: the text up to a line end that a blank line follows. -/
def firstParagraph : List Char → List Char
  | [] => []
  | c :: rest => if c == '\n' && startsBlankLine rest then [] else c :: firstParagraph rest

/-- Writes a text on one line. `gap` is the white space, latest first, that is written once
something follows. -/
def onOneLine (gap : List Char) : List Char → List Char
  | [] => []
  | c :: rest =>
    if isMessageBlank c then onOneLine (c :: gap) rest
    else (if gap.contains '\n' then [' '] else gap.reverse) ++ c :: onOneLine [] rest

/-- The summary of a message. -/
def summary (message : String) : String :=
  String.ofList (onOneLine [] (firstParagraph (message.toList.dropWhile (· == '\n'))))

end Readability.Git
