/-!
Values of documents: the tree that a JSON or TOML text stands for. Records keep the order of their
entries and also entries whose name was used before, because readers of records report faults in
document order.
-/

namespace Readability.Data

/-- Why a part of a document has no value, although its text is well formed. -/
inductive Refusal where
  /-- A number beyond the range of doubles. -/
  | outOfRange
  /-- Half of a character outside the basic plane. -/
  | loneSurrogate
  /-- The first half of such a character without a second one behind it. -/
  | unfinishedPair
  /-- Too many brackets around it. -/
  | tooDeep
deriving Repr, DecidableEq

namespace Refusal

/-- The reason in words. -/
def message : Refusal → String
  | outOfRange => "number out of range"
  | loneSurrogate => "lone leading surrogate in hex escape"
  | unfinishedPair => "unexpected end of hex escape"
  | tooDeep => "recursion limit exceeded"

end Refusal

/-- A value of a document. -/
inductive Value where
  | null
  | bool (b : Bool)
  | int (n : Int)
  | float (x : Float)
  | text (s : String)
  | list (items : List Value)
  | record (entries : List (String × Value))
  /-- A part that has no value. A reader that skips it does not mind. -/
  | refused (reason : Refusal)
deriving Inhabited

namespace Value

/-- A list of texts. -/
def texts (items : List String) : Value :=
  .list (items.map .text)

/-- A value that may be missing. -/
def ofOption (write : α → Value) : Option α → Value
  | some a => write a
  | none => .null

mutual

/-- The first part that has no value. -/
def refusal? : Value → Option Refusal
  | .refused reason => some reason
  | .list items => refusalIn? items
  | .record entries => refusalOf? entries
  | _ => none

/-- The first part of some items that has no value. -/
def refusalIn? : List Value → Option Refusal
  | [] => none
  | item :: items => (refusal? item).or (refusalIn? items)

/-- The first part of some entries that has no value. -/
def refusalOf? : List (String × Value) → Option Refusal
  | [] => none
  | (_, value) :: entries => (refusal? value).or (refusalOf? entries)

end

/-- The value of the last entry of that name. -/
def get? (name : String) : Value → Option Value
  | .record entries => (entries.reverse.find? fun e => e.1 == name).map (·.2)
  | _ => none

end Value

end Readability.Data
