/-!
Text for terminals: styled with escape codes, or plain where no styles are wanted.
-/

namespace Readability.Render

/-- A colour or a weight. -/
inductive Style where
  | red
  | green
  | yellow
  | cyan
  | bold
  | dim
deriving Repr, DecidableEq

namespace Style

/-- The number of the escape code. -/
def code : Style → String
  | red => "31"
  | green => "32"
  | yellow => "33"
  | cyan => "36"
  | bold => "1"
  | dim => "2"

end Style

/-- Whether texts are styled. -/
inductive Styling where
  | plain
  | colored
deriving Repr, DecidableEq

namespace Styling

/-- A text in some styles, colours first. -/
def paint (styling : Styling) (styles : List Style) (text : String) : String :=
  match styling with
  | .plain => text
  | .colored => String.join (styles.map fun s => "\x1b[" ++ s.code ++ "m") ++ text ++ "\x1b[0m"

end Styling

end Readability.Render
