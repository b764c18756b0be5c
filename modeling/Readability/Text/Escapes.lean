/-!
Escape codes of terminals, and texts without them. A code is an escape character, some marks,
numbers of at most four digits between semicolons, and a character that ends it, which may be one
more digit; or it names a set of characters, as in "(0". It is taken as long as it can be, by an
automaton that goes on until no code can come of what it has read.
-/

namespace Readability.Text

/-- Whether a character begins an escape code. -/
def isEscape (c : Char) : Bool :=
  c == '\x1b' || c == '\u009b'

/-- Whether a character other than a digit may end a code. -/
def isCodeEnd (c : Char) : Bool :=
  ('A' ≤ c && c ≤ 'P') || c == 'R' || c == 'Z' || c == 'c' || ('f' ≤ c && c ≤ 'n') || c == 'q' ||
    c == 'r' || c == 'y' || c == '=' || c == '>' || c == '<' || c == '~'

/-- What was read of a code last. -/
inductive CodeState where
  | escape
  /-- A round bracket right behind the escape character. -/
  | bracket
  | marks
  /-- So many digits of a number. -/
  | digits (count : Nat)
  /-- A semicolon behind a number. -/
  | separator
  /-- The code is over. -/
  | done
deriving Repr, DecidableEq

namespace CodeState

/-- Whether what was read is a code. -/
def isCode : CodeState → Bool
  | digits _ => true
  | done => true
  | _ => false

/-- What comes of one more mark. -/
def afterMark (isRound : Bool) : CodeState → Option CodeState
  | escape => some (if isRound then bracket else marks)
  | bracket => some marks
  | marks => some marks
  | _ => none

/-- What comes of one more semicolon. -/
def afterSemicolon : CodeState → Option CodeState
  | digits count => if count ≤ 4 then some separator else none
  | separator => some separator
  | state => state.afterMark false

/-- What comes of one more digit. A fifth one ends the code. -/
def afterDigit (digit : Char) : CodeState → Option CodeState
  | bracket => some (if digit ≤ '2' then done else digits 1)
  | digits count => if count ≤ 4 then some (digits (count + 1)) else none
  | done => none
  | _ => some (digits 1)

/-- What comes of a character that ends codes. -/
def afterEnd : CodeState → Option CodeState
  | digits count => if count ≤ 4 then some done else none
  | done => none
  | _ => some done

/-- What comes of one more character, unless no code can come of it. -/
def next? (state : CodeState) (c : Char) : Option CodeState :=
  if c == '(' || c == ')' then state.afterMark true
  else if c == '[' || c == '#' || c == '?' then state.afterMark false
  else if c == ';' then state.afterSemicolon
  else if c.isDigit then state.afterDigit c
  else if isCodeEnd c then state.afterEnd
  else none

end CodeState

/-- What is behind the longest code that the text goes on with; `best` is what is behind the longest
one that was read up to here. -/
def behindCode? (state : CodeState) (best : Option (List Char)) : List Char → Option (List Char)
  | [] => best
  | c :: rest =>
    match state.next? c with
    | none => best
    | some next => behindCode? next (if next.isCode then some rest else best) rest

/-- A text without escape codes; `fuel` is at least its length. -/
def dropCodes : Nat → List Char → List Char
  | 0, text => text
  | _, [] => []
  | fuel + 1, c :: rest =>
    if isEscape c then
      match behindCode? .escape none rest with
      | some behind => dropCodes fuel behind
      | none => c :: dropCodes fuel rest
    else c :: dropCodes fuel rest

/-- A text without escape codes. -/
def withoutCodes (text : String) : String :=
  String.ofList (dropCodes text.length text.toList)

/-- The codes of a set of characters and of a colour, one that has no end, and a number of more than
four digits. -/
example : withoutCodes "\x1b(0lq\x1b[31mred\x1b[1;x\x1b[123456m" = "lqred;x6m" := by decide +kernel

end Readability.Text
