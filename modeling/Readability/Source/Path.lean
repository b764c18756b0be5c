/-!
Paths as texts with slashes. The name of a path is its last part, blank parts and single dots left
out; a name has an extension when a dot stands in it that is not its first character.
-/

namespace Readability.Source.Path

/-- The pieces of a text between separators. -/
def pieces (separator : Char) (text : String) : List String :=
  (text.toList.splitOn separator).map String.ofList

/-- The parts of a path that lead anywhere: no blank ones and no single dots. -/
def parts (path : String) : List String :=
  (pieces '/' path).filter fun part => part != "" && part != "."

/-- The last part of a path, unless it leads upwards. -/
def name? (path : String) : Option String :=
  match (parts path).getLast? with
  | some ".." => none
  | last => last

/-- A name cut at its last dot: what is before it and what is behind it. -/
def splitName (name : String) : String × Option String :=
  match (pieces '.' name).reverse with
  | [] => (name, none)
  | [_] => (name, none)
  | extension :: before =>
    let stem := ".".intercalate before.reverse
    if stem == "" then (name, none) else (stem, some extension)

/-- The name without its extension. -/
def stem? (path : String) : Option String :=
  (name? path).map fun name => (splitName name).1

/-- The extension of the name. -/
def extension? (path : String) : Option String :=
  (name? path).bind fun name => (splitName name).2

/-- Whether a path starts at the root. -/
def isAbsolute (path : String) : Bool :=
  path.startsWith "/"

/-- A path below another one; an absolute path stands for itself. -/
def join (base path : String) : String :=
  if isAbsolute path || base == "" then path
  else if base.endsWith "/" then base ++ path
  else base ++ "/" ++ path

end Readability.Source.Path
