/-!
Patterns for paths. A star stands for any bytes but a slash, a question mark for one of them,
brackets for one of a set, braces for one of several patterns, and two stars between slashes for any
directories. Patterns are read into tokens; a path is matched byte by byte, each token taking from
the front what it can.
-/

namespace Readability.Ignore

/-- A part of a pattern. -/
inductive Token where
  | literal (c : Char)
  /-- One byte that is no slash. -/
  | any
  /-- Bytes that are no slashes, as many as one likes. -/
  | star
  /-- Directories in front of the rest, or none. -/
  | leadingDirectories
  /-- A slash, and directories up to a further one, or none. -/
  | innerDirectories
  /-- A slash and all that is behind it. -/
  | allBelow
  /-- One byte of a set, or one that is not in it. -/
  | oneOf (negated : Bool) (ranges : List (Char × Char))
  /-- One of several patterns. -/
  | choice (branches : List (List Token))
deriving Inhabited

namespace Token

/-- Whether this stands for directories in front. -/
def isLeading : Token → Bool
  | leadingDirectories => true
  | _ => false

/-- Whether this stands for all below a directory. -/
def isBelow : Token → Bool
  | allBelow => true
  | _ => false

end Token

/-- A pattern that is being read. -/
structure Reading where
  /-- The tokens of the pattern or branch that is being read, the latest first. -/
  tokens : List Token
  /-- The braces that are open, the innermost first: the tokens in front of each, and the branches
  that are complete, the latest first. -/
  outer : List (List Token × List (List Token))
  /-- The character before. -/
  previous : Option Char
  /-- A bracket was found that nothing closes, so that all further ones stand for themselves. -/
  bracketsAreLiteral : Bool

namespace Reading

/-- Nothing read yet. -/
def start : Reading := ⟨[], [], none, false⟩

/-- Puts tokens behind the others. -/
def push (r : Reading) (tokens : List Token) : Reading :=
  { r with tokens := tokens.reverse ++ r.tokens }

/-- Goes on behind a character. -/
def past (r : Reading) (c : Char) : Reading :=
  { r with previous := some c }

/-- Opens a choice. -/
def openChoice (r : Reading) : Reading :=
  { r with tokens := [], outer := (r.tokens, []) :: r.outer }

/-- Ends a branch of the innermost choice; where there is none, a comma is a comma. -/
def nextBranch (r : Reading) : Reading :=
  match r.outer with
  | [] => r.push [.literal ',']
  | (before, done) :: outer =>
    { r with tokens := [], outer := (before, r.tokens.reverse :: done) :: outer }

/-- Closes the innermost choice. -/
def closeChoice (r : Reading) : Option Reading :=
  match r.outer with
  | [] => none
  | (before, done) :: outer =>
    some { r with tokens := .choice (r.tokens.reverse :: done).reverse :: before, outer }

/-- Puts two stars behind a slash. The slash belongs to them, and they are one with other two stars
before it. -/
def foldStars (r : Reading) (token : Token) : Reading :=
  match r.tokens with
  | [] => r.push [token]
  | last :: before =>
    if last.isLeading || last.isBelow then r else { r with tokens := token :: before }

/-- Whether two stars may stand for directories here: behind a slash, or where a branch begins. -/
def mayCross (r : Reading) : Bool :=
  r.previous == some '/' ||
    (!r.outer.isEmpty && (r.previous == some ',' || r.previous == some '\x7b'))

/-- Puts two stars, and tells whether the slash behind them belongs to them. -/
def doubleStar (r : Reading) (next : Option Char) : Reading × Bool :=
  let plain := (r.push [.star, .star], false)
  if r.tokens.isEmpty then
    match next with
    | none => (r.push [.leadingDirectories], false)
    | some '/' => (r.push [.leadingDirectories], true)
    | some _ => plain
  else if !r.mayCross then plain
  else
    match next with
    | none => (r.foldStars .allBelow, false)
    | some '/' => (r.foldStars .innerDirectories, true)
    | some c =>
      if !r.outer.isEmpty && (c == ',' || c == '}') then (r.foldStars .allBelow, false) else plain

end Reading

/-- What brackets hold, and the text behind them. -/
inductive Bracket where
  | set (ranges : List (Char × Char)) (rest : List Char)
  /-- Nothing closes the bracket. -/
  | unclosed
  /-- A range ends before it begins. -/
  | reversed

/-- Reads what brackets hold. `ranges` are those read, the latest first; `opened` says that a dash
waits for the end of its range. -/
def readBracket (ranges : List (Char × Char)) (opened : Bool) : List Char → Bracket
  | [] => .unclosed
  | c :: rest =>
    match ranges with
    | [] => readBracket [(c, c)] false rest
    | (low, high) :: others =>
      if c == ']' then .set ((if opened then [('-', '-')] else []) ++ ranges) rest
      else if opened then
        if c < low then .reversed else readBracket ((low, c) :: others) false rest
      else if c == '-' then readBracket ranges true rest
      else readBracket ((c, c) :: (low, high) :: others) false rest

/-- Reads a bracket from behind its opening. -/
def bracket (text : List Char) : Bool × Bracket :=
  match text with
  | c :: rest =>
    if c == '!' || c == '^' then (true, readBracket [] false rest)
    else (false, readBracket [] false text)
  | [] => (false, .unclosed)

/-- Reads a pattern character by character; `fuel` is at least the number of characters. -/
def readTokens (fuel : Nat) (r : Reading) (text : List Char) : Option Reading :=
  match fuel, text with
  | _, [] => some r
  | 0, _ => none
  | fuel + 1, c :: rest =>
    let plain (token : Token) := readTokens fuel ((r.push [token]).past c) rest
    match c with
    | '?' => plain .any
    | '*' =>
      match rest with
      | '*' :: behind =>
        let (r, takesSlash) := r.doubleStar behind.head?
        if takesSlash then readTokens fuel (r.past '/') (behind.drop 1)
        else readTokens fuel (r.past '*') behind
      | _ => plain .star
    | '[' =>
      if r.bracketsAreLiteral then plain (.literal '[')
      else
        match bracket rest with
        | (negated, .set ranges behind) =>
          readTokens fuel ((r.push [.oneOf negated ranges]).past ']') behind
        | (_, .unclosed) =>
          readTokens fuel ({ r.push [.literal '['] with bracketsAreLiteral := true }.past '[') rest
        | (_, .reversed) => none
    | '\x7b' => readTokens fuel (r.openChoice.past c) rest
    | '}' =>
      match r.closeChoice with
      | some r => readTokens fuel (r.past c) rest
      | none => none
    | ',' => readTokens fuel (r.nextBranch.past c) rest
    | '\\' =>
      match rest with
      | escaped :: behind => readTokens fuel ((r.push [.literal escaped]).past escaped) behind
      | [] => none
    | _ => plain (.literal c)

/-- The tokens of a pattern, if it makes sense. -/
def tokens? (pattern : String) : Option (List Token) :=
  match readTokens pattern.length .start pattern.toList with
  | some r => if r.outer.isEmpty then some r.tokens.reverse else none
  | none => none

/-- The bytes of a character. -/
def bytesOf (c : Char) : List UInt8 :=
  (String.singleton c).toUTF8.toList

/-- Whether a byte is in a range of characters: it is a byte of either end, or between the last byte
of the low end and the first one of the high end. -/
def inRange (b : UInt8) (range : Char × Char) : Bool :=
  let low := bytesOf range.1
  let high := bytesOf range.2
  if range.1 == range.2 then low.contains b
  else low.contains b || high.contains b || (low.getLastD 0 ≤ b && b ≤ high.headD 0)

/-- What is left behind each slash of a path. -/
def behindSlashes : List UInt8 → List (List UInt8)
  | [] => []
  | b :: rest => if b == 47 then rest :: behindSlashes rest else behindSlashes rest

/-- What is left of a path when some of its bytes up to the first slash are taken. -/
def behindRun : List UInt8 → List (List UInt8)
  | [] => [[]]
  | b :: rest => if b == 47 then [b :: rest] else (b :: rest) :: behindRun rest

/-- All ends of a path. -/
def ends : List UInt8 → List (List UInt8)
  | [] => [[]]
  | b :: rest => (b :: rest) :: ends rest

/-- What is left when some bytes are taken from the front. -/
def behindBytes : List UInt8 → List UInt8 → List (List UInt8)
  | [], path => [path]
  | b :: bs, c :: path => if b == c then behindBytes bs path else []
  | _ :: _, [] => []

mutual

/-- What a token may leave of a path. -/
def Token.leave : Token → List UInt8 → List (List UInt8)
  | .literal c, path => behindBytes (bytesOf c) path
  | .any, path =>
    match path with
    | b :: rest => if b == 47 then [] else [rest]
    | [] => []
  | .star, path => behindRun path
  | .leadingDirectories, path => path :: behindSlashes path
  | .innerDirectories, path =>
    match path with
    | 47 :: rest => rest :: behindSlashes rest
    | _ => []
  | .allBelow, path =>
    match path with
    | 47 :: rest => ends rest
    | _ => []
  | .oneOf negated ranges, path =>
    match path with
    | b :: rest => if ranges.any (inRange b) != negated then [rest] else []
    | [] => []
  | .choice branches, path =>
    if branches.all List.isEmpty then [path] else leaveChoice branches path

/-- What some tokens, one after the other, may leave of a path. -/
def leaveAll : List Token → List UInt8 → List (List UInt8)
  | [], path => [path]
  | token :: rest, path => (token.leave path).flatMap (leaveAll rest)

/-- What one of several patterns may leave of a path; empty ones do not count beside others. -/
def leaveChoice : List (List Token) → List UInt8 → List (List UInt8)
  | [], _ => []
  | branch :: rest, path =>
    (if branch.isEmpty then [] else leaveAll branch path) ++ leaveChoice rest path

end

/-- Whether a pattern stands for a path. -/
def stands (pattern : List Token) (path : List UInt8) : Bool :=
  match pattern with
  | [.leadingDirectories] => true
  | _ => (leaveAll pattern path).any List.isEmpty

end Readability.Ignore
