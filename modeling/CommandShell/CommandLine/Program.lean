import CommandShell.CommandLine.Options
import CommandShell.Console.Dialogue
import CommandShell.Console.Script
import CommandShell.Demo

/-!
# The program

The program runs the scripts it is given, one after the other in one session, and then a dialogue on
its standard input, unless it was asked to run the scripts only. Asked for help or its version, it
says that and does nothing else. It fails if its arguments make no sense, if a script ends with a
fault, and if reading its input fails.

The standard error shows the notes that the options ask for, in their place between the reports and
what commands write there themselves. How a note looks is not for the program to say; it is given a
rendering of notes. Everything else is shown as it is.

Main definitions:

* `Program.launch`: all that comes before the dialogue;
* `Program.run`: everything, on readings that are given beforehand.
-/

namespace CommandShell.Program

/-! ## What is shown of the notes -/

/-- Which notes are shown: those about commands in every detail, those for everyone, or none. -/
inductive NoteFilter where
  | commands
  | info
  | nothing
deriving DecidableEq, Repr

/-- The notes that the options ask for. -/
def noteFilter (o : Options) : NoteFilter :=
  if o.traceMatch then .commands else if o.verbose then .info else .nothing

/-- Whether a note is shown. -/
def NoteFilter.shows : NoteFilter → Note → Bool
  | .commands, n => n.origin == .registration || n.origin == .resolution
  | .info, n => n.level == .info
  | .nothing, _ => false

/-- What an event shows on the standard error, given how notes look. -/
def NoteFilter.errorOutputOf (filter : NoteFilter) (rendering : Note → String) : Event → String
  | .complained text | .warned text => text
  | .noted n => if filter.shows n then rendering n else ""
  | _ => ""

/-- All that is shown on the standard error. -/
def NoteFilter.errorOutput (filter : NoteFilter) (rendering : Note → String) (s : Session) :
    String :=
  String.join (s.events.map (filter.errorOutputOf rendering))

/-! ## The help text -/

/-- A heading in the help text. -/
def heading (text : String) : String := "\x1b[1m" ++ text ++ "\x1b[0m"

/-- The lines of the help text. -/
def helpLines : List String :=
  [heading "Keyline" ++ " - Grammar-driven command dispatcher",
   "",
   heading "USAGE:",
   "    keyline [OPTIONS] [FILES...]",
   "",
   heading "ARGUMENTS:",
   "    [FILES...]    Command scripts to run before starting the REPL",
   "",
   heading "OPTIONS:",
   "    -h, --help          Print help information",
   "    -V, --version       Print version information",
   "    -b, --batch         Run scripts and exit (no REPL), stopping at the first failure",
   "    --prompt TEXT       Use TEXT as the input prompt (default \">>> \")",
   "    --no-banner         Do not print the welcome banner",
   "    --stop-on-error     Stop a script at its first failing line",
   "",
   heading "LOGGING OPTIONS:",
   "    -v, --verbose       Log executed commands",
   "    --trace-match       Trace overload elimination while matching",
   "                        (RUST_LOG overrides both)",
   "",
   heading "EXAMPLES:",
   "    keyline                     Start interactive REPL",
   "    keyline setup.kl            Run setup.kl, then start REPL",
   "    keyline -b setup.kl         Run setup.kl and exit",
   "",
   heading "REPL COMMANDS:",
   "    help                 List every command signature",
   "    help KEYWORD         List the overloads of KEYWORD",
   "    exit, quit           Leave the REPL",
   "    Ctrl+D               Exit REPL",
   "    Ctrl+C               Cancel current input"]

/-! ## Running -/

/-- How a program can end. -/
inductive Status where
  | success
  | failure
deriving DecidableEq, Repr

/-- The number by which the operating system knows an end. -/
def Status.code : Status → Nat
  | .success => 0
  | .failure => 1

/-- What has become of the program before any dialogue. -/
inductive Opening where
  /-- It has ended. -/
  | ended (status : Status) (s : Session)
  /-- The dialogue is to follow. -/
  | ready (s : Session)

/-- The program ends with a message on the standard error. -/
def fail (s : Session) (message : String) : Session :=
  s.record (.complained (redLine ("Error: " ++ message)))

/-- Runs scripts in order, and gives the number of lines that failed in them, or the fault that
ended one of them and all. -/
def runScripts (limit : Nat) (settings : Settings) (files : FileReader) :
    List String → Nat → Session → Option (Except Fault Nat × Session)
  | [], failed, s => some (.ok failed, s)
  | path :: rest, failed, s =>
    match s.executeScript limit settings files path with
    | none => none
    | some (.error fault, s) => some (.error fault, s)
    | some (.ok summary, s) => runScripts limit settings files rest (failed + summary.failed) s

/-- The session with the demo commands, before any script. -/
def prepare : Session :=
  let s := Demo.register (Session.start .empty)
  s.note (.commandsReady s.catalog.keywords.length)

/-- What the program says about itself, if that is all it was asked for. -/
def selfReport? (o : Options) : Option (List String) :=
  if o.help then some helpLines
  else if o.version then some ["keyline " ++ CommandShell.version]
  else none

/-- What follows the scripts, when they have come to a fault or to a number of lines that failed. -/
def afterScripts (o : Options) (result : Except Fault Nat) (s : Session) : Opening :=
  match result with
  | .error fault => .ended .failure (fail s fault.message)
  | .ok failed =>
    if o.batch then
      if 0 < failed then .ended .failure (fail s (toString failed ++ " line(s) failed"))
      else .ended .success s
    else .ready s

/-- All that comes before the dialogue. A program that is only asked about itself does not look at
any file. -/
def launch (limit : Nat) (o : Options) (files : FileReader) : Option Opening :=
  match selfReport? o with
  | some lines => some (.ended .success ((Session.start .empty).printLines lines))
  | none =>
    (runScripts limit o.settings files o.files 0 prepare).map fun r => afterScripts o r.1 r.2

/-- The end of the program after a dialogue. -/
def close (result : Except Fault Unit) (s : Session) : Status × Session :=
  match result with
  | .ok () => (.success, s)
  | .error fault => (.failure, fail s fault.message)

/-- Runs the program with some options. -/
def runWith (limit : Nat) (o : Options) (files : FileReader) (readings : List Reading) :
    Option (Status × Session) :=
  match launch limit o files with
  | none => none
  | some (.ended status s) => some (status, s)
  | some (.ready s) =>
    match s.run limit o.settings readings with
    | none => none
    | some (result, _, s) => some (close result s)

/-- What a program leaves behind. -/
structure Outcome where
  status : Status
  output : String
  errorOutput : String
deriving Repr

/-- Runs the program with some arguments, in a place with some files and with some readings for its
dialogue. -/
def run (limit : Nat) (rendering : Note → String) (arguments : List String) (files : FileReader)
    (readings : List Reading) : Option Outcome :=
  match Options.parse arguments with
  | .error e =>
    let s := fail (Session.start .empty) e.message
    some ⟨.failure, s.output, NoteFilter.nothing.errorOutput rendering s⟩
  | .ok o =>
    (runWith limit o files readings).map fun result =>
      ⟨result.1, result.2.output, (noteFilter o).errorOutput rendering result.2⟩

end CommandShell.Program
