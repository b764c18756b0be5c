import Readability.Data.Value
import Readability.Decimal.Plain
import Readability.Text.Quoted

/-!
From document values to typed ones. A record is read entry by entry in document order, so that the
first fault of the document is the one reported; fields that are missing are found only at its end,
in the order in which the type declares them. A record may also be given as the list of its fields
in that order.

`Fields` describes the fields of a record type, `Row` is a tuple of their values, `Slots` what was
read so far.
-/

namespace Readability.Data

/-- What kind of document a value comes from. -/
inductive Form where
  | json
  /-- A part of a JSON document that was set aside and is read later. -/
  | setAside
  | toml
deriving Repr, DecidableEq

/-- Why a value is not of the type asked for. -/
inductive DecodeFault where
  | wrongType (found : Value) (expected : String)
  | wrongValue (found : Value) (expected : String)
  | wrongLength (length : Nat) (expected : String)
  | missingField (name : String)
  | duplicateField (name : String)
  | unknownField (name : String) (known : List String)
  | unknownVariant (name : String) (known : List String)
  /-- A value of another kind stands where a variant's name is due. -/
  | noValue
  /-- More items than the list may have. -/
  | trailing
  /-- A text that has a form of its own does not have it. -/
  | malformed (reason : String)

namespace DecodeFault

/-- A double as fault messages show it. -/
def floatText (form : Form) (x : Float) : String :=
  match form with
  | .toml =>
    let digits := Decimal.plain x
    if digits.contains '.' || !Decimal.isFinite x then digits else digits ++ ".0"
  | _ => Decimal.numeral x

/-- What a value is, as fault messages say it. -/
def describe (form : Form) : Value → String
  | .null => "null"
  | .bool b => "boolean `" ++ toString b ++ "`"
  | .int n => "integer `" ++ toString n ++ "`"
  | .float x => "floating point `" ++ floatText form x ++ "`"
  | .text s => "string " ++ Text.quoted s
  | .list _ => "sequence"
  | .record _ => "map"
  | .refused reason => reason.message

/-- A choice of names, as fault messages list it. -/
def oneOf (none : String) : List String → String
  | [] => none
  | [a] => "expected `" ++ a ++ "`"
  | [a, b] => "expected `" ++ a ++ "` or `" ++ b ++ "`"
  | names => "expected one of " ++ ", ".intercalate (names.map fun n => "`" ++ n ++ "`")

/-- The fault in words. -/
def message (form : Form) : DecodeFault → String
  | wrongType (.refused reason) _ => reason.message
  | wrongType found expected => "invalid type: " ++ describe form found ++ ", expected " ++ expected
  | wrongValue found expected =>
    "invalid value: " ++ describe form found ++ ", expected " ++ expected
  | wrongLength n expected => "invalid length " ++ toString n ++ ", expected " ++ expected
  | missingField name => "missing field `" ++ name ++ "`"
  | duplicateField name => "duplicate field `" ++ name ++ "`"
  | unknownField name known =>
    "unknown field `" ++ name ++ "`, " ++ oneOf "there are no fields" known
  | unknownVariant name known =>
    "unknown variant `" ++ name ++ "`, " ++ oneOf "there are no variants" known
  | noValue => "expected value"
  | trailing => "trailing characters"
  | malformed reason => reason

end DecodeFault

/-- A reader of values. -/
abbrev Decoder (α : Type) := Form → Value → Except DecodeFault α

namespace Decoder

/-- A text. -/
def text : Decoder String
  | _, .text s => .ok s
  | _, v => .error (.wrongType v "a string")

/-- The text of a path. -/
def path : Decoder String
  | _, .text s => .ok s
  | _, v => .error (.wrongType v "path string")

/-- A truth value. -/
def bool : Decoder Bool
  | _, .bool b => .ok b
  | _, v => .error (.wrongType v "a boolean")

/-- A double; whole numbers are rounded to one. -/
def float : Decoder Float
  | _, .float x => .ok x
  | _, .int n => .ok (Float.ofInt n)
  | _, v => .error (.wrongType v "f64")

/-- A whole number from zero up to below `limit`. -/
def natBelow (limit : Nat) (expected : String) : Decoder Nat
  | _, .int n => if 0 ≤ n && n < limit then .ok n.toNat else .error (.wrongValue (.int n) expected)
  | _, v => .error (.wrongType v expected)

/-- A whole number of thirty-two bits. -/
def word32 : Decoder Nat := natBelow UInt32.size "u32"

/-- A count. -/
def count : Decoder Nat := natBelow UInt64.size "usize"

/-- A value that may be null. -/
def option (decode : Decoder α) : Decoder (Option α)
  | _, .null => .ok none
  | form, v => (decode form v).map some

/-- A list of values. -/
def list (decode : Decoder α) : Decoder (List α)
  | form, .list items => items.mapM (decode form)
  | _, v => .error (.wrongType v "a sequence")

/-- One of some names, given as a text or as a record with that name and no content. -/
def variant (names : List (String × α)) : Decoder α := fun form v =>
  let pick (name : String) : Except DecodeFault α :=
    match names.find? fun n => n.1 == name with
    | some n => .ok n.2
    | none => .error (.unknownVariant name (names.map (·.1)))
  match v with
  | .text s => pick s
  | .record [(name, content)] => do
    let a ← pick name
    match content with
    | .null => return a
    | content => throw (.wrongType content "unit")
  | .record ((name, content) :: _) => do
    let _ ← pick name
    match content with
    | .null => throw .noValue
    | content => throw (.wrongType content "unit")
  | v => match form with
    | .json => throw .noValue
    | _ => throw (.wrongType v "string or map")

end Decoder

/-- A field of a record type. -/
structure Field (α : Type) where
  name : String
  decode : Decoder α
  /-- The value of the field when the record does not name it. -/
  missing : Option α
  /-- The value of the field when a list of fields ends before it. -/
  cutOff : Option α

namespace Field

/-- A field that has to be there. -/
def required (name : String) (decode : Decoder α) : Field α :=
  ⟨name, decode, none, none⟩

/-- A field that is left out or null when there is no value. -/
def optional (name : String) (decode : Decoder α) : Field (Option α) :=
  ⟨name, .option decode, some none, none⟩

/-- A field with a value of its own when it is left out. -/
def withDefault (name : String) (decode : Decoder α) (value : α) : Field α :=
  ⟨name, decode, some value, some value⟩

end Field

/-- The fields of a record type, in order. -/
inductive Fields : List Type → Type 1 where
  | nil : Fields []
  | cons (field : Field α) (rest : Fields αs) : Fields (α :: αs)

/-- The values of some fields. -/
def Row : List Type → Type
  | [] => Unit
  | α :: αs => α × Row αs

/-- The values of some fields as far as they were read. -/
def Slots : List Type → Type
  | [] => Unit
  | α :: αs => Option α × Slots αs

namespace Fields

/-- The names of the fields. -/
def names : Fields αs → List String
  | nil => []
  | cons field rest => field.name :: rest.names

/-- Nothing read yet. -/
def empty : Fields αs → Slots αs
  | nil => ()
  | cons _ rest => (none, rest.empty)

/-- Puts one entry of a record into its slot; nothing if there is no field of that name. -/
def put (form : Form) (name : String) (v : Value) :
    Fields αs → Slots αs → Option (Except DecodeFault (Slots αs))
  | nil, _ => none
  | cons field rest, (slot, slots) =>
    if field.name == name then
      match slot with
      | some _ => some (.error (.duplicateField name))
      | none => some ((field.decode form v).map fun a => (some a, slots))
    else (rest.put form name v slots).map fun r => r.map fun slots => (slot, slots)

/-- The values, once all entries are read. -/
def close : Fields αs → Slots αs → Except DecodeFault (Row αs)
  | nil, _ => .ok ()
  | cons field rest, (slot, slots) =>
    match slot, field.missing with
    | some a, _ => (rest.close slots).map fun row => (a, row)
    | none, some a => (rest.close slots).map fun row => (a, row)
    | none, none => .error (.missingField field.name)

/-- Reads the entries of a record in order; with `strict`, each has to name a field. -/
def ofEntries (fields : Fields αs) (form : Form) (strict : Bool) :
    List (String × Value) → Slots αs → Except DecodeFault (Row αs)
  | [], slots => fields.close slots
  | (name, v) :: entries, slots =>
    match fields.put form name v slots with
    | none =>
      if strict then .error (.unknownField name fields.names)
      else fields.ofEntries form strict entries slots
    | some (.error fault) => .error fault
    | some (.ok slots) => fields.ofEntries form strict entries slots

/-- Reads the fields from a list in order; `position` counts the items read before. -/
def ofItems (form : Form) (expected : String) (position : Nat) :
    Fields αs → List Value → Except DecodeFault (Row αs)
  | nil, [] => .ok ()
  | nil, extra =>
    match form with
    | .json => .error .trailing
    | .setAside => .error (.wrongLength (position + extra.length)
        (toString position ++ (if position == 1 then " element" else " elements")
          ++ " in sequence"))
    | .toml => .ok ()
  | cons field rest, [] =>
    match field.cutOff with
    | some a => (rest.ofItems form expected (position + 1) []).map fun row => (a, row)
    | none => .error (.wrongLength position expected)
  | cons field rest, v :: items => do
    let a ← field.decode form v
    let row ← rest.ofItems form expected (position + 1) items
    return (a, row)

/-- How many fields there are. -/
def size : Fields αs → Nat
  | nil => 0
  | cons _ rest => rest.size + 1

end Fields

namespace Decoder

/-- A record, or the list of its fields. -/
def fields (title : String) (fields : Fields αs) (strict : Bool) : Decoder (Row αs) := fun form v =>
  let counted := title ++ " with " ++ toString fields.size
    ++ (if fields.size == 1 then " element" else " elements")
  match v with
  | .record entries => fields.ofEntries form strict entries fields.empty
  | .list items => fields.ofItems form counted 0 items
  | v => .error (.wrongType v title)

/-- A record type that ignores entries it does not know. -/
def record (title : String) (known : Fields αs) (build : Row αs → α) : Decoder α := fun form v =>
  (fields title known false form v).map build

/-- A record type that knows all its entries. -/
def strictRecord (title : String) (known : Fields αs) (build : Row αs → α) :
    Decoder α := fun form v =>
  (fields title known true form v).map build

end Decoder

end Readability.Data
