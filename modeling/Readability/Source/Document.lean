import Readability.Data.Decoder
import Readability.Source.Language
import Readability.Source.UnitError
import Readability.Source.UnitId

/-!
Units and their faults as document values. A fault is written as its kind and what there is to say
of it, under the names `kind` and `detail`; the two may stand in any order.
-/

namespace Readability.Source

open Readability.Data

namespace Language

/-- Reads a language. -/
def decode : Decoder Language :=
  .variant (all.map fun language => (language.tag, language))

end Language

namespace ScopeSpan

/-- The span as a document value. -/
def toValue (s : ScopeSpan) : Value :=
  .record [("name", .text s.name), ("kind", .text s.kind), ("start_line", .int s.startLine),
    ("end_line", .int s.endLine)]

/-- Reads a span. -/
def decode : Decoder ScopeSpan :=
  .record "struct ScopeSpan"
    (.cons (.required "name" .text) <| .cons (.required "kind" .text)
      <| .cons (.required "start_line" .count) <| .cons (.required "end_line" .count) .nil)
    fun (name, kind, startLine, endLine, ()) => ⟨name, kind, startLine, endLine⟩

end ScopeSpan

namespace UnitId

/-- The unit's name as a document value; a whole file has no scope. -/
def toValue (id : UnitId) : Value :=
  .record ([("path", .text id.path), ("revision", .text id.revision)]
    ++ id.scope.toList.map fun span => ("scope", span.toValue))

/-- Reads a unit's name. -/
def decode : Decoder UnitId :=
  .record "struct UnitId"
    (.cons (.required "path" .text) <| .cons (.required "revision" .text)
      <| .cons (.withDefault "scope" (.option ScopeSpan.decode) none) .nil)
    fun (path, revision, scope, ()) => ⟨path, revision, scope⟩

end UnitId

namespace UnitError

/-- What there is to say of a fault beyond its kind. -/
def detail : UnitError → Value
  | parse reason => .text reason
  | featureMismatch reason => .text reason
  | notFound path revision => .record [("path", .text path), ("revision", .text revision)]
  | repository reason => .text reason

/-- The fault as a document value. -/
def toValue (e : UnitError) : Value :=
  .record [("kind", .text e.kind), ("detail", e.detail)]

/-- Reads what is said of a file that was not found. -/
def decodeNotFound : Decoder UnitError :=
  .record "struct variant UnitError::NotFound"
    (.cons (.required "path" .text) <| .cons (.required "revision" .text) .nil)
    fun (path, revision, ()) => .notFound path revision

/-- Reads a kind of fault, as the reader of its detail. -/
def decodeKind : Decoder (Decoder UnitError) :=
  .variant
    [("parse", fun form v => (Decoder.text form v).map .parse),
      ("feature_mismatch", fun form v => (Decoder.text form v).map .featureMismatch),
      ("not_found", decodeNotFound),
      ("repository", fun form v => (Decoder.text form v).map .repository)]

/-- What a fault is called in messages about its document. -/
def title : String := "adjacently tagged enum UnitError"

/-- Checks that no further entry says the kind or the detail again. -/
def checkRest : List (String × Value) → Except DecodeFault Unit
  | [] => .ok ()
  | (name, _) :: rest =>
    if name == "kind" || name == "detail" then .error (.duplicateField name) else checkRest rest

/-- Reads the entries behind the kind. -/
def afterKind (form : Form) (decode : Decoder UnitError) :
    List (String × Value) → Except DecodeFault UnitError
  | [] => .error (.missingField "detail")
  | (name, v) :: rest =>
    if name == "kind" then .error (.duplicateField name)
    else if name == "detail" then do
      let e ← decode form v
      checkRest rest
      return e
    else afterKind form decode rest

/-- Reads the entries behind a detail that was set aside. -/
def afterDetail (form : Form) (aside : Value) : List (String × Value) → Except DecodeFault UnitError
  | [] => .error (.missingField "kind")
  | (name, v) :: rest =>
    if name == "detail" then .error (.duplicateField name)
    else if name == "kind" then do
      let decode ← decodeKind form v
      let e ← decode .setAside aside
      checkRest rest
      return e
    else afterDetail form aside rest

/-- Reads the entries of a fault. -/
def ofEntries (form : Form) : List (String × Value) → Except DecodeFault UnitError
  | [] => .error (.missingField "kind")
  | (name, v) :: rest =>
    if name == "kind" then do
      let decode ← decodeKind form v
      afterKind form decode rest
    else if name == "detail" then afterDetail form v rest
    else ofEntries form rest

/-- Reads a fault, given as a record or as a list of kind and detail. -/
def decode : Decoder UnitError
  | form, .record entries => ofEntries form entries
  | _, .list [] => .error (.wrongLength 0 title)
  | form, .list [kind] => do
    let _ ← decodeKind form kind
    throw (.wrongLength 1 title)
  | form, .list (kind :: detail :: rest) => do
    let decode ← decodeKind form kind
    let e ← decode form detail
    match rest with
    | [] => return e
    | _ :: _ => throw .trailing
  | _, v => .error (.wrongType v title)

end UnitError

end Readability.Source
