import CommandShell.Console.Line
import CommandShell.Console.Settings
import CommandShell.Files.Reader
import CommandShell.Text.Lines

/-!
# Scripts

A script is a text whose lines are executed one after the other. A line that fails is reported with
the script's path, the number of the line counted from one, and the line without the white space
around it; then the script goes on, unless the settings say that it stops there. A line that leaves
the console ends the script and nothing else.
-/

namespace CommandShell

/-- How many lines of a script ran a command, and how many failed. -/
structure Summary where
  executed : Nat := 0
  failed : Nat := 0
deriving DecidableEq, Repr

namespace Session

/-- A fault in a line of a script. -/
def scriptFault (path : String) (number : Nat) (line : String) (fault : Fault) : Fault :=
  fault.located ⟨some path, some number, some (Text.trim line)⟩

/-- Executes lines of a script from the one with a given number on. -/
def executeLines (limit : Nat) (stopOnError : Bool) (path : String) :
    Nat → List String → Summary → Session → Option (Except Fault Summary × Session)
  | _, [], summary, s => some (.ok summary, s)
  | number, line :: rest, summary, s =>
    match s.executeLine limit line with
    | none => none
    | some (.ok .left, s) => some (.ok summary, s)
    | some (.ok .skipped, s) => executeLines limit stopOnError path (number + 1) rest summary s
    | some (.ok (.help signatures), s) =>
      executeLines limit stopOnError path (number + 1) rest summary (s.printHelp signatures)
    | some (.ok (.dispatched _), s) =>
      executeLines limit stopOnError path (number + 1) rest
        { summary with executed := summary.executed + 1 } s
    | some (.error fault, s) =>
      let located := scriptFault path number line fault
      if stopOnError then some (.error located, s)
      else
        executeLines limit stopOnError path (number + 1) rest
          { summary with failed := summary.failed + 1 } (s.report located)

/-- Executes the script at a path. -/
def executeScript (limit : Nat) (settings : Settings) (files : FileReader) (path : String)
    (s : Session) : Option (Except Fault Summary × Session) :=
  match files path with
  | .error failure => some (.error (.of (.unreadable path failure.message)), s)
  | .ok text =>
    executeLines limit settings.stopOnError path 1 (Text.lines text) {}
      (s.note (.runningScript path))

end Session

end CommandShell
