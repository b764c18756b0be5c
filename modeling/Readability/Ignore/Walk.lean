import Readability.Files.Disk
import Readability.Ignore.Rules

/-!
The files below a directory that are worth a look. Hidden ones are passed over, and those that rules
pass over. Rules lie in files beside what they are about: general ones, those of version control,
and those that version control keeps for itself. Of each kind the nearest directory that says
something decides, and general ones go before the others.
-/

namespace Readability.Ignore

open Readability.Files (Disk Entry)

/-- The rules that lie in a directory. -/
structure Layer where
  /-- The directory, as names from the root. -/
  place : List String
  general : Rules
  versioned : Rules
  internal : Rules

namespace Layer

/-- The rules in the file that some names lead to. -/
def rulesAt (directory : Entry) (names : List String) : Rules :=
  match directory.find? names with
  | some (.file content _) => .ofBytes content
  | _ => []

/-- The rules that lie in a directory. -/
def ofDirectory (place : List String) (directory : Entry) : Layer :=
  ⟨place, rulesAt directory [".ignore"], rulesAt directory [".gitignore"],
    rulesAt directory [".git", "info", "exclude"]⟩

/-- A path as bytes, seen from the layer's directory. -/
def pathFrom (layer : Layer) (place : List String) : List UInt8 :=
  ("/".intercalate (place.drop layer.place.length)).toUTF8.toList

end Layer

/-- What the first layer says that is not silent. -/
def firstVerdict (layers : List Layer) (kind : Layer → Rules) (place : List String)
    (isDirectory : Bool) :
    Verdict :=
  match layers with
  | [] => .silent
  | layer :: rest =>
    ((kind layer).verdict (layer.pathFrom place) isDirectory).orElse
      (firstVerdict rest kind place isDirectory)

/-- What some layers, the nearest first, say of a path. -/
def verdictOf (layers : List Layer) (place : List String) (isDirectory : Bool) : Verdict :=
  ((firstVerdict layers Layer.general place isDirectory).orElse
    (firstVerdict layers Layer.versioned place isDirectory)).orElse
    (firstVerdict layers Layer.internal place isDirectory)

/-- Whether an entry of a directory is passed over. -/
def passesOver (layers : List Layer) (place : List String) (name : String) (isDirectory : Bool) :
    Bool :=
  match verdictOf layers (place ++ [name]) isDirectory with
  | .passedOver => true
  | .kept => false
  | .silent => name.startsWith "."

mutual

/-- The files at or below a place, as names from there. -/
def filesBelow (layers : List Layer) (place : List String) : Entry → List (List String)
  | .file .. => [[]]
  | .directory entries =>
    filesAmong (.ofDirectory place (.directory entries) :: layers) place entries

/-- The files at or below some entries of a directory. -/
def filesAmong (layers : List Layer) (place : List String) :
    List (String × Entry) → List (List String)
  | [] => []
  | (name, entry) :: rest =>
    (if passesOver layers place name entry.isDirectory then []
      else (filesBelow layers (place ++ [name]) entry).map (name :: ·))
        ++ filesAmong layers place rest

end

/-- The layers of the directories that a place lies in, the nearest first. -/
def layersAbove (root : Entry) (place : List String) : List Layer :=
  ((List.range place.length).map place.take).reverse.filterMap fun above =>
    (root.find? above).map (Layer.ofDirectory above)

/-- The files below a directory, as paths that begin like its own. -/
def walk (disk : Disk) (directory : String) : List String :=
  match disk.locate directory with
  | .error _ => []
  | .ok place =>
    match disk.root.find? place with
    | none => []
    | some entry =>
      (filesBelow (layersAbove disk.root place) place entry).map fun names =>
        Source.Path.join directory ("/".intercalate names)

end Readability.Ignore
