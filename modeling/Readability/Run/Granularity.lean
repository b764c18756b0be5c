import Readability.Text.Lowercase

/-!
How finely source is rated.
-/

namespace Readability.Run

/-- What one unit is. -/
inductive Granularity where
  /-- One score for each file. -/
  | file
  /-- One score for each function. -/
  | function
deriving Repr, DecidableEq, Inhabited

namespace Granularity

/-- The granularity's name. -/
def name : Granularity → String
  | file => "file"
  | function => "function"

/-- Reads a name, written in small or capital letters. -/
def parse (text : String) : Except String Granularity :=
  let small := Text.lowercase text
  if small == "file" then .ok file
  else if small == "function" || small == "method" then .ok function
  else .error ("unknown granularity '" ++ small ++ "', expected file or function")

end Granularity

end Readability.Run
