import Readability.Data.Value

/-!
Tables of a TOML document while it is read. A table may come to be in four ways, and each may be
added to in some ways only: by its own header, by a header of a table inside it, by a dotted key, or
as an item of an array of tables. A key is set once.
-/

namespace Readability.Data.Toml

/-- Why a text is not a TOML document. -/
inductive Fault where
  | malformed
  | duplicateKey (key : String)
  /-- A key is to have keys below it, but has a value. -/
  | notTable (key : String)
  | outOfRange
  | tooDeep
deriving Repr, DecidableEq

namespace Fault

/-- The fault in words. -/
def message : Fault → String
  | malformed => "invalid document"
  | duplicateKey key => "duplicate key `" ++ key ++ "`"
  | notTable key => "dotted key `" ++ key ++ "` attempted to extend a value"
  | outOfRange => "value is out of range"
  | tooDeep => "recursion limit exceeded"

end Fault

mutual

/-- What a key stands for. -/
inductive Item where
  | value (v : Value)
  | table (t : Table)
  | tables (ts : List Table)

/-- Keys with what they stand for. `implicit` tables have no header of their own, `dotted` ones come
from a dotted key. -/
inductive Table where
  | mk (implicit dotted : Bool) (entries : List (String × Item))

end

namespace Table

/-- A table with a header. -/
def explicit : Table := .mk false false []

/-- A table that is there because one inside it is. -/
def between (dotted : Bool) : Table := .mk true dotted []

/-- Whether the table has no header of its own. -/
def isImplicit : Table → Bool
  | .mk implicit _ _ => implicit

/-- Whether the table comes from a dotted key. -/
def isDotted : Table → Bool
  | .mk _ dotted _ => dotted

/-- The keys with what they stand for. -/
def entries : Table → List (String × Item)
  | .mk _ _ entries => entries

/-- The table with other entries. -/
def withEntries (entries : List (String × Item)) : Table → Table
  | .mk implicit dotted _ => .mk implicit dotted entries

/-- What a key stands for. -/
def get? (t : Table) (key : String) : Option Item :=
  (t.entries.find? fun e => e.1 == key).map (·.2)

/-- Sets a key that is not there yet, behind all others. -/
def add (t : Table) (key : String) (item : Item) : Table :=
  t.withEntries (t.entries ++ [(key, item)])

/-- Sets a key in its place. -/
def replace (t : Table) (key : String) (item : Item) : Table :=
  t.withEntries (t.entries.map fun e => if e.1 == key then (key, item) else e)

/-- Takes a key out. -/
def erase (t : Table) (key : String) : Table :=
  t.withEntries (t.entries.filter fun e => e.1 != key)

/-- Changes the table that a path leads to; tables that are missing on the way are made. -/
def update (dotted : Bool) (change : Table → Except Fault Table) (path : List String) (t : Table) :
    Except Fault Table :=
  match path with
  | [] => change t
  | key :: rest =>
    match t.get? key with
    | none => do
      let child ← update dotted change rest (between dotted)
      return t.add key (.table child)
    | some (.value _) => .error (.notTable key)
    | some (.tables ts) =>
      match ts.getLast? with
      | none => .error (.notTable key)
      | some last => do
        let child ← update dotted change rest last
        return t.replace key (.tables (ts.dropLast ++ [child]))
    | some (.table child) =>
      if dotted && !child.isImplicit then .error (.duplicateKey key)
      else do
        let child ← update dotted change rest child
        return t.replace key (.table child)

/-- Sets a key below a dotted path. -/
def setDotted (path : List String) (key : String) (v : Value) (t : Table) : Except Fault Table :=
  t.update true (fun inner =>
    if inner.isDotted == path.isEmpty then .error (.duplicateKey key)
    else if (inner.get? key).isSome then .error (.duplicateKey key)
    else .ok (inner.add key (.value v))) path

mutual

/-- A table as a value. -/
def toValue : Table → Value
  | .mk _ _ entries => .record (entryValues entries)

/-- An item as a value. -/
def itemValue : Item → Value
  | .value v => v
  | .table t => toValue t
  | .tables ts => .list (tableValues ts)

/-- Tables as values. -/
def tableValues : List Table → List Value
  | [] => []
  | t :: rest => toValue t :: tableValues rest

/-- Entries as values. -/
def entryValues : List (String × Item) → List (String × Value)
  | [] => []
  | (key, item) :: rest => (key, itemValue item) :: entryValues rest

end

end Table

/-- A document while it is read: what was finished, and the table whose header was read last. -/
structure Draft where
  root : Table
  current : Table
  /-- Where the current table belongs; nowhere for the keys in front of all headers. -/
  path : List String
  /-- The current table is an item of an array of tables. -/
  isItem : Bool

namespace Draft

/-- An empty document. -/
def start : Draft := ⟨.explicit, .explicit, [], false⟩

/-- Puts the current table where it belongs. -/
def finishTable (d : Draft) : Except Fault Table :=
  match d.path.getLast? with
  | none => .ok d.current
  | some key =>
    d.root.update false (fun parent =>
      if d.isItem then
        match parent.get? key with
        | none => .ok (parent.add key (.tables [d.current]))
        | some (.tables ts) => .ok (parent.replace key (.tables (ts ++ [d.current])))
        | some _ => .error (.duplicateKey key)
      else
        match parent.get? key with
        | none => .ok (parent.add key (.table d.current))
        | some _ => .error (.duplicateKey key)) d.path.dropLast

/-- The item of a path's last key in the table the rest of the path leads to, if there is one. -/
def lookup (root : Table) : List String → Option Item
  | [] => none
  | [key] => root.get? key
  | key :: rest =>
    match root.get? key with
    | some (.table t) => lookup t rest
    | some (.tables ts) => (ts.getLast?).bind fun t => lookup t rest
    | _ => none

/-- Begins a table under a header. A table that is there only for those inside it is taken up
again. -/
def startTable (d : Draft) (path : List String) : Except Fault Draft := do
  let root ← d.finishTable
  let key := path.getLastD ""
  let found := lookup root path
  let root ← root.update false (fun parent => .ok (parent.erase key)) path.dropLast
  match found with
  | none => return ⟨root, .explicit, path, false⟩
  | some (.table t) =>
    if t.isImplicit && !t.isDotted then return ⟨root, .mk false false t.entries, path, false⟩
    else throw (.duplicateKey key)
  | some _ => throw (.duplicateKey key)

/-- Begins an item of an array of tables. -/
def startItem (d : Draft) (path : List String) : Except Fault Draft := do
  let root ← d.finishTable
  let key := path.getLastD ""
  let root ← root.update false (fun parent =>
    match parent.get? key with
    | none => .ok (parent.add key (.tables []))
    | some (.tables _) => .ok parent
    | some _ => .error (.duplicateKey key)) path.dropLast
  return ⟨root, .explicit, path, true⟩

/-- Sets a key of the current table. -/
def setKey (d : Draft) (path : List String) (key : String) (v : Value) : Except Fault Draft := do
  let current ← d.current.setDotted path key v
  return { d with current := current }

end Draft

end Readability.Data.Toml
