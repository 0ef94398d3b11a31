/-!
# Console settings

How a console presents itself and what it does about failing lines of scripts.
-/

namespace CommandShell

/-- The version that the shell gives as its own. -/
def version : String := "0.1.0"

/-- The settings of a console. -/
structure Settings where
  /-- What is shown in front of each line that is read. -/
  prompt : String := ">>> "
  /-- Whether the console introduces itself. -/
  banner : Bool := true
  /-- How many lines the line editor remembers. -/
  historySize : Nat := 1000
  /-- Whether the first failing line ends a script. -/
  stopOnError : Bool := false
deriving DecidableEq, Repr

namespace Settings

/-- The settings for a person at a terminal. -/
def interactive : Settings := {}

/-- The settings for scripts that run unattended. -/
def batch : Settings := { banner := false, stopOnError := true }

end Settings

end CommandShell
