import Std.Time.Format
import CommandShell.CommandLine.Input
import CommandShell.CommandLine.Program
import CommandShell.CommandLine.Rendering

/-!
# The executable

Connects the program to the operating system: it reads each script when its turn comes, hands the
lines of the standard input to the dialogue one at a time, and writes what happens in the order in
which it happens.
-/

namespace CommandShell.Main

/-! ## Files -/

/-- The number of an error, if the operating system gave it one. Some calls give it negated. -/
def errorNumber? : IO.Error → Option Nat
  | .noFileOrDirectory _ code _ | .inappropriateType _ code _ | .invalidArgument _ code _
  | .permissionDenied _ code _ | .resourceExhausted _ code _ | .noSuchThing _ code _ =>
    some (min code.toNat (0x100000000 - code.toNat))
  | _ => none

/-- The reason for which a file cannot be read. -/
def failureOf (e : IO.Error) : ReadFailure :=
  match errorNumber? e with
  | some 2 => .notFound
  | some 13 => .other "Permission denied (os error 13)"
  | some 20 => .notDirectory
  | some 21 => .isDirectory
  | some 36 => .nameTooLong
  | _ => .other (toString e)

/-- The text at a path. -/
def readText (path : String) : IO (Except ReadFailure String) := do
  try
    return decodeText (← IO.FS.readBinFile path)
  catch e =>
    return .error (failureOf e)

/-! ## Output -/

/-- The time of day as notes give it. -/
def timeText : IO String := do
  let now ← Std.Time.Timestamp.now
  let date := Std.Time.DateTime.ofTimestamp now .UTC
  return date.format "uuuu-MM-dd'T'HH:mm:ss'Z'"

/-- Writes what has happened, and forgets it. -/
def flush (filter : Program.NoteFilter) (s : Session) : IO Session := do
  let time ← timeText
  let output ← IO.getStdout
  let errors ← IO.getStderr
  for event in s.events do
    output.putStr (Session.outputOf event)
    output.flush
    errors.putStr (filter.errorOutputOf (Note.written time) event)
    errors.flush
  return { s with events := [] }

/-! ## Input -/

/-- The bytes up to the next line feed, with it, or up to the end of the input. -/
partial def readBytes (input : IO.FS.Stream) (bytes : ByteArray) : IO ByteArray := do
  let next ← input.read 1
  if next.isEmpty then return bytes
  let bytes := bytes ++ next
  if next.toList == [10] then return bytes
  readBytes input bytes

/-- The next reading, with the prompt before it if someone is there to see it. -/
def nextReading (prompt : String) : IO Reading := do
  let input ← IO.getStdin
  if ← input.isTty then
    let output ← IO.getStdout
    output.putStr prompt
    output.flush
  let bytes ← readBytes input .empty
  return (Reading.ofStream bytes).headD .ended

/-! ## The program -/

/-- No command of the program takes more than one step, and then a call has to come to its end. -/
def limit : Nat := 2

/-- Runs scripts in order, up to one that ends with a fault. Those behind it are not read. -/
def runScripts (settings : Settings) (filter : Program.NoteFilter) :
    List String → Nat → Session → IO (Except Fault Nat × Session)
  | [], failed, s => return (.ok failed, s)
  | path :: rest, failed, s => do
    let text ← readText path
    match s.executeScript limit settings (fun _ => text) path with
    | none => return (.ok failed, s)
    | some (.error fault, s) => return (.error fault, s)
    | some (.ok summary, s) =>
      runScripts settings filter rest (failed + summary.failed) (← flush filter s)

/-- Goes through the dialogue. -/
partial def converse (settings : Settings) (filter : Program.NoteFilter) (s : Session) :
    IO (Except Fault Unit × Session) := do
  let s ← flush filter s
  let reading ← nextReading settings.prompt
  match s.respond limit reading with
  | none => return (.ok (), s)
  | some (.error fault, s) => return (.error fault, s)
  | some (.ok false, s) => return (.ok (), s.bidFarewell)
  | some (.ok true, s) => converse settings filter s

/-- Runs the program and gives the number that it ends with. -/
def run (arguments : List String) : IO Nat := do
  match Options.parse arguments with
  | .error e =>
    let _ ← flush .nothing (Program.fail (Session.start .empty) e.message)
    return Program.Status.failure.code
  | .ok o =>
    let filter := Program.noteFilter o
    if let some lines := Program.selfReport? o then
      let _ ← flush filter ((Session.start .empty).printLines lines)
      return Program.Status.success.code
    let (result, s) ← runScripts o.settings filter o.files 0 (← flush filter Program.prepare)
    match Program.afterScripts o result s with
    | .ended status s =>
      let _ ← flush filter s
      return status.code
    | .ready s =>
      let (result, s) ← converse o.settings filter (s.greet o.settings)
      let (status, s) := Program.close result s
      let _ ← flush filter s
      return status.code

end CommandShell.Main

def main (arguments : List String) : IO UInt32 := do
  return UInt32.ofNat (← CommandShell.Main.run arguments)
