import Readability.Command.Usage
import Readability.History.Basic
import Readability.Run.Granularity
import Readability.Source.LineRange

/-!
Reading of command lines. Options may stand before and behind arguments; the value of an option is
in the same word behind an equals sign, or it is the next word. The value of an option that takes
the next word is looked at only when the next option or argument is met, so that a fault of that
word itself is told first.
-/

namespace Readability.Command

open Readability.History (WalkOrder)
open Readability.Run (Granularity)
open Readability.Source (LineRange)

/-- A value given on the command line. -/
inductive Given where
  /-- A flag. -/
  | present
  | text (s : String)
  | count (n : Nat)
  | order (o : WalkOrder)
  | granularity (g : Granularity)
  | lines (range : LineRange)

/-- Why a word is not taken as a value. -/
inductive ValueFault where
  | blank
  | notAmong
  | invalid (reason : String)

/-- An option. -/
structure OptionForm where
  /-- The name behind two dashes. -/
  long : String
  /-- The letter behind one dash. -/
  short : Option Char
  /-- The name of its value and how that is read; a flag has none. -/
  value : Option (String × (String → Except ValueFault Given))

namespace OptionForm

/-- The option as help texts write it. -/
def title (o : OptionForm) : String :=
  match o.value with
  | some (name, _) => "--" ++ o.long ++ " <" ++ name ++ ">"
  | none => "--" ++ o.long

end OptionForm

/-- Any text. -/
def anyText (s : String) : Except ValueFault Given :=
  .ok (.text s)

/-- The text of a path. -/
def pathText (s : String) : Except ValueFault Given :=
  if s == "" then .error .blank else .ok (.text s)

/-- A count. -/
def anyCount (s : String) : Except ValueFault Given :=
  match Number.readWord s with
  | .ok n => .ok (.count n)
  | .error fault => .error (.invalid fault.message)

/-- The number of workers. -/
def workerCount (s : String) : Except ValueFault Given :=
  match Number.readWord s with
  | .error _ => .error (.invalid ("'" ++ s ++ "' is not a valid number"))
  | .ok n =>
    if n == 0 then .error (.invalid "workers must be at least 1")
    else if n > 64 then .error (.invalid "workers cannot exceed 64")
    else .ok (.count n)

/-- One of a few texts. -/
def oneOf (choices : List String) (s : String) : Except ValueFault Given :=
  if choices.contains s then .ok (.text s) else if s == "" then .error .blank else .error .notAmong

/-- A value that a type reads for itself. -/
def readBy (parse : String → Except String α) (wrap : α → Given) (s : String) :
    Except ValueFault Given :=
  match parse s with
  | .ok a => .ok (wrap a)
  | .error reason => .error (.invalid reason)

/-- What a command takes beside options. -/
structure Positional where
  /-- The argument as help texts write it. -/
  title : String
  repeats : Bool
  isRequired : Bool

/-- What a command line, or the part of it behind a command's name, may hold. -/
structure CommandForm where
  name : String
  about : String
  options : List OptionForm
  positional : Option Positional
  /-- Names of commands that the rest of the line may be handed to. -/
  commands : List String

/-- Where a value goes. -/
inductive Slot where
  | option (o : OptionForm)
  | positional (p : Positional)

namespace Slot

/-- The name under which values are kept; arguments have none. -/
def key : Slot → String
  | option o => o.long
  | positional _ => ""

/-- The slot as help texts write it. -/
def title : Slot → String
  | option o => o.title
  | positional p => p.title

/-- Reads a value of the slot. -/
def read : Slot → String → Except ValueFault Given
  | option o, word =>
    match o.value with
    | some (_, read) => read word
    | none => .ok .present
  | positional _, word => pathText word

end Slot

/-- How far a command line is read. -/
structure Progress where
  /-- The values taken, in their order. -/
  given : List (String × Given)
  /-- A slot, and the words that are to be taken for it. -/
  pending : Option (Slot × List String)
  /-- The next word is the pending option's value. -/
  awaiting : Bool
  /-- All further words are arguments. -/
  onlyArguments : Bool
  /-- An argument that cannot be repeated was met. -/
  filled : Bool

namespace Progress

/-- Nothing read yet. -/
def start : Progress := ⟨[], none, false, false, false⟩

/-- Takes words for a slot. An option is taken once, an argument may be taken again. -/
def take (p : Progress) (slot : Slot) (words : List String) : Except UsageFault Progress := do
  if words.isEmpty then throw (.noValue slot.title)
  match slot with
  | .option o => if p.given.any fun g => g.1 == o.long then throw (.repeated slot.title)
  | .positional _ => pure ()
  let values ← words.mapM fun word =>
    match slot.read word with
    | .ok value => .ok (slot.key, value)
    | .error .blank => .error (.noValue slot.title)
    | .error .notAmong => .error (.notAmong word slot.title)
    | .error (.invalid reason) => .error (.badValue word slot.title reason)
  return { p with given := p.given ++ values }

/-- Takes what is pending. -/
def settle (p : Progress) : Except UsageFault Progress :=
  match p.pending with
  | none => .ok p
  | some (slot, words) => { p with pending := none }.take slot words

/-- Takes a flag. -/
def flag (p : Progress) (form : CommandForm) (o : OptionForm) : Except UsageFault Progress := do
  let p ← p.settle
  if o.long == "help" then throw (.helpWanted form.about)
  if o.long == "version" then throw .versionWanted
  if p.given.any fun g => g.1 == o.long then throw (.repeated o.title)
  return { p with given := p.given ++ [(o.long, .present)], awaiting := false }

/-- Takes an option with the value that is in its word, or lets it wait for the next word. -/
def option (p : Progress) (o : OptionForm) (attached : Option String) :
    Except UsageFault Progress := do
  let p ← p.settle
  match attached with
  | some word => return { ← p.take (.option o) [word] with awaiting := false }
  | none => return { p with pending := some (.option o, []), awaiting := true }

/-- Reads a word with two dashes in front, which are left out here. -/
def long (p : Progress) (form : CommandForm) (word : List Char) : Except UsageFault Progress :=
  let name := String.ofList (word.takeWhile (· != '='))
  let attached := match word.dropWhile (· != '=') with
    | [] => none
    | _ :: value => some (String.ofList value)
  match form.options.find? fun o => o.long == name with
  | none => .error (.unexpected ("--" ++ name))
  | some o =>
    match o.value, attached with
    | some _, _ => p.option o attached
    | none, some value => .error (.valueForFlag value o.title)
    | none, none => p.flag form o

/-- Reads the letters of a word with one dash in front. What is behind the letter of an option is
its value. -/
def short (p : Progress) (form : CommandForm) : List Char → Except UsageFault Progress
  | [] => .ok p
  | letter :: rest =>
    match form.options.find? fun o => o.short == some letter with
    | none => .error (.unexpected ("-" ++ String.singleton letter))
    | some o =>
      match o.value, rest with
      | none, _ => do (← p.flag form o).short form rest
      | some _, [] => p.option o none
      | some _, '=' :: value => p.option o (some (String.ofList value))
      | some _, value => p.option o (some (String.ofList value))

/-- Reads an argument. -/
def argument (p : Progress) (form : CommandForm) (word : String) : Except UsageFault Progress :=
  match form.positional with
  | none =>
    if p.onlyArguments && form.commands.contains word || form.commands.isEmpty then
      .error (.unexpected word)
    else .error (.unknownCommand word)
  | some slot =>
    if slot.repeats then
      match p.pending with
      | some (.positional _, words) =>
        .ok { p with pending := some (.positional slot, words ++ [word]), awaiting := false }
      | _ => do
        let settled ← p.settle
        return { settled with pending := some (.positional slot, [word]), awaiting := false }
    else if p.filled then .error (.unexpected word)
    else do
      let settled ← p.settle
      let pending := some (.positional slot, [word])
      return { settled with pending := pending, awaiting := false, filled := true }

/-- Takes a word as the value that is awaited, or as an argument. -/
def plain (p : Progress) (form : CommandForm) (word : String) : Except UsageFault Progress :=
  match p.awaiting, p.pending with
  | true, some (slot, words) =>
    .ok { p with pending := some (slot, words ++ [word]), awaiting := false }
  | _, _ => p.argument form word

/-- Reads a word. -/
def word (p : Progress) (form : CommandForm) (text : String) : Except UsageFault Progress :=
  if p.onlyArguments then p.argument form text
  else
    match text.toList with
    | ['-', '-'] => .ok { p with onlyArguments := true }
    | '-' :: '-' :: rest => p.long form rest
    | ['-'] => p.plain form text
    | '-' :: rest => p.short form rest
    | _ => p.plain form text

/-- Whether a word hands the rest of the line to a command. -/
def handsOver (p : Progress) (form : CommandForm) (text : String) : Bool :=
  !p.onlyArguments && !p.awaiting && form.commands.contains text

/-- Reads words up to the name of a command: that name and the words behind it, or none when all
words are read. -/
def words (p : Progress) (form : CommandForm) :
    List String → Except UsageFault (Progress × Option (String × List String))
  | [] => .ok (p, none)
  | text :: rest =>
    if p.handsOver form text then .ok (p, some (text, rest))
    else do (← p.word form text).words form rest

end Progress

/-- The values given to a command. -/
structure Values where
  given : List (String × Given)

namespace Values

/-- The value of an option. -/
def get? (v : Values) (option : String) : Option Given :=
  (v.given.find? fun g => g.1 == option).map (·.2)

/-- Whether a flag is set. -/
def has (v : Values) (flag : String) : Bool :=
  (v.get? flag).isSome

/-- The text of an option. -/
def text? (v : Values) (option : String) : Option String :=
  match v.get? option with
  | some (.text s) => some s
  | _ => none

/-- The count of an option. -/
def count? (v : Values) (option : String) : Option Nat :=
  match v.get? option with
  | some (.count n) => some n
  | _ => none

/-- The order that an option names. -/
def order? (v : Values) (option : String) : Option WalkOrder :=
  match v.get? option with
  | some (.order o) => some o
  | _ => none

/-- The granularity that an option names. -/
def granularity? (v : Values) (option : String) : Option Granularity :=
  match v.get? option with
  | some (.granularity g) => some g
  | _ => none

/-- The lines that an option names. -/
def lines? (v : Values) (option : String) : Option LineRange :=
  match v.get? option with
  | some (.lines range) => some range
  | _ => none

/-- The arguments. -/
def arguments (v : Values) : List String :=
  v.given.filterMap fun
    | ("", .text s) => some s
    | _ => none

end Values

end Readability.Command
