import Readability.Text.Blank
import Readability.Text.Utf8
import Readability.Source.Language
import Readability.Source.UnitError
import Readability.Source.UnitId

/-!
The content of one file at one revision, and when it is source text: its language is known, it holds
no zero byte, it is well-formed text, and some of it is visible.
-/

namespace Readability.Source

/-- The bytes of a file under the name it is rated by. -/
structure SourceUnit where
  id : UnitId
  content : ByteArray

namespace SourceUnit

/-- The language, by the path. -/
def language? (u : SourceUnit) : Option Language :=
  Language.ofPath? u.id.path

/-- The content as text. -/
def text (u : SourceUnit) : Except UnitError String :=
  if u.content.data.toList.contains 0 then .error (.parse "binary content (NUL byte)")
  else
    match Text.decodeUtf8 u.content with
    | .ok s => .ok s
    | .error fault => .error (.parse ("content is not valid UTF-8: " ++ fault.message))

/-- The text and language of a unit that can be parsed. -/
def prepare (u : SourceUnit) : Except UnitError (String × Language) := do
  let some language := u.language? | throw (.parse ("unsupported language for " ++ u.id.path))
  let text ← u.text
  if Text.allBlank text.toList then throw (.parse "unit contains no code")
  return (text, language)

end SourceUnit

end Readability.Source
