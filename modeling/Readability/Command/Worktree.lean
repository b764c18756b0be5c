import Readability.Command.Output
import Readability.History.Memory
import Readability.Ignore.Walk

/-!
Rating of files as they are. The files become a history of one revision, so that they are rated like
any other history; of a single file one may mark the lines that are rated.
-/

namespace Readability.Command

open Readability.Config (Project)
open Readability.Files (Disk)
open Readability.History (Edit Memory)
open Readability.Source (Language LineRange)

/-- The revision that files are rated at. -/
def worktree : String := "worktree"

/-- A path as reports show it. -/
def shownPath (path : String) : String :=
  let text := path.map fun c => if c == '\\' then '/' else c
  if text.startsWith "./" then (text.drop 2).toString else text

/-- Files by the paths that they are shown under, in the order of those. -/
abbrev Collection := List (String × String)

namespace Collection

/-- Puts a file in; of two that are shown alike the later one stays. -/
def insert (c : Collection) (file : String) : Collection :=
  let shown := shownPath file
  match c with
  | [] => [(shown, file)]
  | other :: rest =>
    if other.1 == shown then (shown, file) :: rest
    else if shown < other.1 then (shown, file) :: other :: rest
    else other :: insert rest file

end Collection

/-- The files that a path stands for: the file itself, or those below a directory that can be rated
and are not left out. -/
def filesOf (disk : Disk) (project : Project) (path : String) : Except CommandFault (List String) :=
  if disk.isFile path then .ok [path]
  else if disk.isDirectory path then
    .ok ((Ignore.walk disk path).filter fun file =>
      (Language.ofPath? file).isSome && project.keeps (shownPath file))
  else .error (.missingPath path)

/-- The files that some paths stand for. -/
def collect (disk : Disk) (project : Project) (paths : List String) :
    Except CommandFault Collection := do
  let files ← paths.mapM (filesOf disk project)
  return files.flatten.foldl Collection.insert []

/-- The marked lines of a content, if lines are marked and it is a text. -/
def marked (lines : Option LineRange) (shown : String) (content : ByteArray) :
    Except CommandFault ByteArray :=
  match lines, Text.decodeUtf8 content with
  | some range, .ok text =>
    match range.cut text with
    | .ok snippet => .ok snippet.toUTF8
    | .error fault => .error (.lines shown fault)
  | _, _ => .ok content

/-- A file as it goes into the revision, and when it was written. -/
structure Taken where
  shown : String
  /-- There is none when the file cannot be read. -/
  content : Option ByteArray
  written : Option Int

namespace Taken

/-- Reads a file. -/
def ofFile (disk : Disk) (lines : Option LineRange) (file : String × String) :
    Except CommandFault Taken :=
  match disk.readWithTime file.2 with
  | .error _ => .ok ⟨file.1, none, none⟩
  | .ok (content, written) => do return ⟨file.1, some (← marked lines file.1 content), some written⟩

end Taken

/-- The files as a history of one revision, whose time is that of the latest file. -/
def snapshot (files : List Taken) (now : Time.Instant) : Memory :=
  let time := match (files.filterMap (·.written)).max? with
    | some written => .ofUnix written 0
    | none => now
  let edits := files.map fun f => Edit.mk f.shown (some (f.content.getD .empty))
  let unreadable := files.filter fun f => f.content.isNone
  unreadable.foldl (fun m f => m.breakFile worktree f.shown)
    (Memory.empty.commit worktree time edits)

/-- Whether lines may be marked: there is one path, and it is a file. -/
def isSingleFile (disk : Disk) : List String → Bool
  | [path] => disk.isFile path
  | _ => false

namespace FileRequest

/-- The files that are rated, and the settings for that. -/
def prepare (r : FileRequest) (s : Surroundings) : Except CommandFault (Memory × Settings) := do
  if r.lines.isSome && !isSingleFile s.disk r.paths then throw .linesOfSeveral
  let (settings, project) ← (Settings.load s r.flags s.workPath).mapError (.settings s.workPath)
  let collection ← collect s.disk project r.paths
  if collection.isEmpty then throw .nothingToScore
  let files ← collection.mapM (Taken.ofFile s.disk r.lines)
  return (snapshot files s.now, settings)

/-- What the run does: all files, whatever their language. -/
def job (s : Surroundings) (settings : Settings) (memory : Memory) (model : Model) :
    Run.Job where
  history := memory.toHistory
  options := ⟨.whole, settings.order, settings.granularity, true, true⟩
  keeps _ := true
  signal := .never
  tools := s.parser
  model

/-- Rates the files. -/
def run (r : FileRequest) (s : Surroundings) : Outcome :=
  match r.prepare s with
  | .error fault => .failure s.disk "" fault
  | .ok (memory, settings) =>
    let resolved := settings.sources.resolve s.disk
    match (Run.runWith resolved (job s settings memory) .never s.runId s.now).1 with
    | .error f => .failure s.disk "" (.run f)
    | .ok report => emit s (settings.registry s) report settings.template r.output

end FileRequest

end Readability.Command
