import Readability.Ignore.Pattern
import Readability.Text.Blank
import Readability.Text.Utf8

/-!
Rules that say which paths below a directory are passed over: one pattern a line, the last one that
stands for a path decides. A pattern behind an exclamation mark keeps what it stands for, and one
with a slash at its end stands for directories only. A pattern without any other slash stands for
names wherever they are.
-/

namespace Readability.Ignore

/-- What rules say of a path. -/
inductive Verdict where
  | silent
  | passedOver
  | kept
deriving Repr, DecidableEq

namespace Verdict

/-- A verdict, or another one where it is silent. -/
def orElse (a b : Verdict) : Verdict :=
  match a with
  | silent => b
  | _ => a

end Verdict

/-- One line of rules. -/
structure Rule where
  pattern : List Token
  keeps : Bool
  directoriesOnly : Bool

namespace Rule

/-- A line cut into its marks and its pattern. -/
structure Line where
  keeps : Bool
  anchored : Bool
  directoriesOnly : Bool
  pattern : List Char

/-- Takes the marks off the front of a line. An escape makes an exclamation mark or a hash part of
the pattern. -/
def openLine (line : List Char) : Line :=
  match line with
  | '\\' :: c :: rest =>
    if c == '!' || c == '#' then ⟨false, false, false, c :: rest⟩ else ⟨false, false, false, line⟩
  | '!' :: '/' :: rest => ⟨true, true, false, rest⟩
  | '!' :: rest => ⟨true, false, false, rest⟩
  | '/' :: rest => ⟨false, true, false, rest⟩
  | _ => ⟨false, false, false, line⟩

/-- Takes the slash off the end, and an escape in front of it. -/
def closeLine (line : Line) : Line :=
  match line.pattern.reverse with
  | '/' :: '\\' :: rest => { line with directoriesOnly := true, pattern := rest.reverse }
  | '/' :: rest => { line with directoriesOnly := true, pattern := rest.reverse }
  | _ => line

/-- The pattern as one for paths: names are looked for in all directories, and two stars at the end
stand for what is in a directory, not for the directory. -/
def pathPattern (line : Line) : String :=
  let pattern := String.ofList line.pattern
  let pattern :=
    if line.anchored || line.pattern.contains '/' || pattern == "**" then pattern
    else "**/" ++ pattern
  if pattern.endsWith "/**" then pattern ++ "/*" else pattern

/-- Reads a line, if it is a rule. -/
def ofLine? (line : List Char) : Option Rule :=
  let line := if "\\ ".toList.isSuffixOf line then line else Text.trimEnd line
  if line.isEmpty || line.head? == some '#' then none
  else
    let parts := closeLine (openLine line)
    (tokens? (pathPattern parts)).map fun pattern => ⟨pattern, parts.keeps, parts.directoriesOnly⟩

/-- Whether the rule stands for a path. -/
def covers (rule : Rule) (path : List UInt8) (isDirectory : Bool) : Bool :=
  (!rule.directoriesOnly || isDirectory) && stands rule.pattern path

end Rule

/-- The rules of a file, the last one first. -/
abbrev Rules := List Rule

namespace Rules

/-- The lines of a file, up to the first one that is no text. -/
def linesOf (content : List (List UInt8)) : List String :=
  match content with
  | [] => []
  | line :: rest =>
    match Text.decodeUtf8 ⟨line.toArray⟩ with
    | .ok text => text :: linesOf rest
    | .error _ => []

/-- A line without a carriage return at its end. -/
def dropReturn (line : List UInt8) : List UInt8 :=
  if line.getLast? == some 13 then line.dropLast else line

/-- Reads rules. A mark of byte order may stand in front of them. -/
def ofBytes (content : ByteArray) : Rules :=
  let lines := (linesOf ((content.toList.splitOn 10).map dropReturn)).map String.toList
  let lines := match lines with
    | first :: rest => first.dropWhile (· == '\ufeff') :: rest
    | [] => []
  (lines.filterMap Rule.ofLine?).reverse

/-- What the rules say of a path below their directory. -/
def verdict (rules : Rules) (path : List UInt8) (isDirectory : Bool) : Verdict :=
  match rules.find? fun rule => rule.covers path isDirectory with
  | some rule => if rule.keeps then .kept else .passedOver
  | none => .silent

end Rules

end Readability.Ignore
