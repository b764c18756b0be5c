/-!
Patterns for paths. Read from left to right, `**/` stands for nothing or any text that ends in a
slash, any other `**` for any text, `*` for any run of characters within one part of a path and `?`
for one of them; all else stands for itself. A pattern without such signs is met by every path that
starts with it.

Texts that the double stars stand for have no line end in them.
-/

namespace Readability.Config

/-- A sign of a pattern. -/
inductive GlobSign where
  | literal (c : Char)
  /-- One character that is no slash. -/
  | one
  /-- Any run of characters that are no slashes. -/
  | run
  /-- Any text. -/
  | anything
  /-- Nothing, or any text that ends in a slash. -/
  | directories
deriving Repr, DecidableEq

namespace GlobSign

/-- The signs of a pattern. -/
def ofPattern : List Char → List GlobSign
  | [] => []
  | '*' :: '*' :: '/' :: rest => directories :: ofPattern rest
  | '*' :: '*' :: rest => anything :: ofPattern rest
  | '*' :: rest => run :: ofPattern rest
  | '?' :: rest => one :: ofPattern rest
  | c :: rest => literal c :: ofPattern rest

/-- Whether a sign stands for more than itself. -/
def isWild : GlobSign → Bool
  | literal _ => false
  | _ => true

end GlobSign

/-- What is left of a text after each run of accepted characters at its start, the empty run
first. -/
def afterRuns (accept : Char → Bool) : List Char → List (List Char)
  | [] => [[]]
  | c :: cs => (c :: cs) :: (if accept c then afterRuns accept cs else [])

/-- What is left of a text after each slash that no line end stands before. -/
def afterSlashes : List Char → List (List Char)
  | [] => []
  | c :: cs =>
    if c == '\n' then []
    else if c == '/' then cs :: afterSlashes cs
    else afterSlashes cs

/-- Whether a text is made up as some signs say; with `anchored`, nothing may be left. -/
def signsMatch (anchored : Bool) : List GlobSign → List Char → Bool
  | [], cs => !anchored || cs.isEmpty
  | .literal x :: signs, cs =>
    match cs with
    | [] => false
    | c :: rest => c == x && signsMatch anchored signs rest
  | .one :: signs, cs =>
    match cs with
    | [] => false
    | c :: rest => c != '/' && signsMatch anchored signs rest
  | .run :: signs, cs => (afterRuns (· != '/') cs).any (signsMatch anchored signs)
  | .anything :: signs, cs => (afterRuns (· != '\n') cs).any (signsMatch anchored signs)
  | .directories :: signs, cs => (cs :: afterSlashes cs).any (signsMatch anchored signs)

/-- Whether a path meets a pattern. -/
def globMatch (pattern path : String) : Bool :=
  let signs := GlobSign.ofPattern pattern.toList
  signsMatch (signs.any GlobSign.isWild) signs path.toList

end Readability.Config
