import Readability.Git.Repository

/-!
Names of revisions. A name is an id, a reference or a short form of one, and may have steps behind
it: `^` and `^n` lead to a parent, `~` and `~n` to an ancestor along first parents. Steps are taken
one after the other, so a step that leads nowhere is told before a fault in the text behind it.
-/

namespace Readability.Git

/-- Whether a text is a whole id. -/
def isFullId (text : String) : Bool :=
  text.length == 40 && text.all fun c => c.isDigit || ('a' ≤ c.toLower && c.toLower ≤ 'f')

namespace Reference

/-- Whether a name of a single part is allowed: only capital letters, with underscores between
them. -/
def isCapital (part : List Char) : Bool :=
  part.all (fun c => c.isUpper || c == '_') && part.head? != some '_' && part.getLast? != some '_'

/-- Whether a character may not stand in a name. -/
def isRefused (c : Char) : Bool :=
  c.toNat ≤ 32 || "~^:\\?[*".contains c

/-- Whether one pair of characters stands in a text side by side. -/
def hasPair (first second : Char) : List Char → Bool
  | a :: b :: rest => (a == first && b == second) || hasPair first second (b :: rest)
  | _ => false

/-- Whether a part of a name is allowed. -/
def isPart (part : List Char) : Bool :=
  !part.isEmpty && part.head? != some '.' && !part.any isRefused && !hasPair '.' '.' part &&
    !hasPair '@' '\x7b' part && !(".lock".toList.isSuffixOf part)

/-- Whether a full name is allowed. -/
def isValid (name : String) : Bool :=
  let parts := (name.splitOn "/").map String.toList
  parts.all isPart && !name.endsWith "." &&
    match parts with
    | [part] => isCapital part
    | part :: _ => !isCapital part
    | [] => false

/-- The full names that a name may stand for, in the order in which they are tried. -/
def candidates (name : String) : List String :=
  [name, "refs/" ++ name, "refs/tags/" ++ name, "refs/heads/" ++ name, "refs/remotes/" ++ name,
    "refs/remotes/" ++ name ++ "/HEAD"]

end Reference

namespace Repository

/-- The id that a full name leads to. -/
def target? (r : Repository) (name : String) : Option String :=
  let full := if name == "HEAD" then r.head else name
  (r.references.find? fun e => e.1 == full).map (·.2)

/-- The text is no name of a revision. -/
def invalidPattern (spec : String) : GitError :=
  .refused ("failed to parse revision specifier - Invalid pattern '" ++ spec ++ "'")

/-- The object that the first part of a name stands for. -/
def lookUp (r : Repository) (spec name : String) : Except GitError Object :=
  match if isFullId name then r.object? (name.map Char.toLower) else none with
  | some object => .ok object
  | none =>
    let full := Reference.candidates name
    match (full.filter Reference.isValid).findSome? r.target? with
    | some id =>
      match r.object? id with
      | some object => .ok object
      | none => .error (.noMatch id)
    | none =>
      if full.getLast?.all Reference.isValid then
        .error (.missing ("revspec '" ++ name ++ "' not found"))
      else .error (invalidPattern spec)

/-- The parent of a commit, counted from zero. -/
def parent (r : Repository) (c : Commit) (index : Nat) : Except GitError Commit :=
  match c.parents[index]? with
  | some id => r.findCommit id
  | none => .error (.missing ("parent " ++ toString index ++ " does not exist"))

/-- The ancestor that so many steps along first parents lead to. -/
def ancestor (r : Repository) : Nat → Commit → Except GitError Commit
  | 0, c => .ok c
  | count + 1, c => do r.ancestor count (← r.parent c 0)

/-- One step: the sign, and the digits behind it. -/
def stepFrom (r : Repository) (spec : String) (c : Commit) (sign : Char) (digits : List Char) :
    Except GitError Commit :=
  let count := if digits.isEmpty then 1 else Nat.ofDigitChars 10 digits 0
  if count ≥ 1 <<< 31 then .error (invalidPattern spec)
  else if sign == '~' then r.ancestor count c
  else if sign == '^' then if count == 0 then .ok c else r.parent c (count - 1)
  else .error (invalidPattern spec)

/-- Takes all steps. -/
def steps (r : Repository) (spec : String) (c : Commit) : List Char → Except GitError Commit
  | [] => .ok c
  | sign :: rest => do
    r.steps spec (← r.stepFrom spec c sign (rest.takeWhile Char.isDigit))
      (rest.dropWhile Char.isDigit)
termination_by text => text.length
decreasing_by
  have := (List.dropWhile_suffix Char.isDigit (l := rest)).length_le
  simp only [List.length_cons]
  omega

/-- The object that a name stands for. -/
def revision (r : Repository) (spec : String) : Except GitError Object := do
  if spec.contains '\x00' then throw .nullCharacter
  let isName := fun c : Char => c != '^' && c != '~'
  let name := if spec == "@" then "HEAD" else String.ofList (spec.toList.takeWhile isName)
  if name == "" then throw (invalidPattern spec)
  match ← r.lookUp spec name, spec.toList.dropWhile isName with
  | object, [] => return object
  | .node _, _ => throw (invalidPattern spec)
  | .commit c, text => return .commit (← r.steps spec c text)

end Repository

end Readability.Git
