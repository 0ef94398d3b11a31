import CommandShell.Console.Line
import CommandShell.Console.Settings

/-!
# Dialogues

A console reads a line, executes it and shows what became of it, until the input ends, a line leaves
the console, or reading fails. What the line editor gives is a list of readings; after the last of
them the input has ended.

The account of a dialogue holds what the line editor was asked for and told: the prompt of each
reading, the words offered for completion at each reading, and the lines to be remembered.
-/

namespace CommandShell

/-- What the line editor gives when it is asked for a line. -/
inductive Reading where
  | line (text : String)
  | interrupted
  | ended
  | failed (message : String)
deriving DecidableEq, Repr

/-- The line to remember of a reading. Blank lines are forgotten. -/
def Reading.remembered? : Reading → Option String
  | .line text => if Text.isBlankLine text then none else some text
  | _ => none

/-- The dealings with the line editor. -/
structure Account where
  prompts : List String := []
  history : List String := []
  /-- The words offered for completion, for each reading. -/
  offered : List (List String) := []
  /-- The readings that were not asked for any more. -/
  unread : List Reading := []
deriving Repr

namespace Session

/-! ## One reading -/

/-- The words offered for completion. -/
def completions (s : Session) : List String := s.catalog.keywords ++ Request.builtins

/-- The account after one more reading. -/
def accountFor (settings : Settings) (s : Session) (account : Account) (reading : Reading) :
    Account :=
  { account with
    prompts := account.prompts ++ [settings.prompt]
    history := account.history ++ reading.remembered?.toList
    offered := account.offered ++ [s.completions] }

/-- Answers a reading, and says whether there is to be another. -/
def respond (limit : Nat) (reading : Reading) (s : Session) :
    Option (Except Fault Bool × Session) :=
  match reading with
  | .ended => some (.ok false, s)
  | .failed message => some (.error (.of (.editor message)), s)
  | .interrupted => some (.ok true, s.print "\n")
  | .line text =>
    if Text.isBlankLine text then some (.ok true, s)
    else
      match s.executeLine limit text with
      | none => none
      | some (.ok .left, s) => some (.ok false, s)
      | some (.ok (.help signatures), s) => some (.ok true, s.printHelp signatures)
      | some (.ok .skipped, s) | some (.ok (.dispatched _), s) => some (.ok true, s)
      | some (.error fault, s) => some (.ok true, s.report fault)

/-! ## The whole dialogue -/

/-- Goes through readings until there is to be no other. -/
def converse (limit : Nat) (settings : Settings) :
    List Reading → Account → Session → Option (Except Fault Unit × Account × Session)
  | [], account, s => some (.ok (), accountFor settings s account .ended, s)
  | reading :: rest, account, s =>
    let account := accountFor settings s account reading
    match s.respond limit reading with
    | none => none
    | some (.error fault, s) => some (.error fault, { account with unread := rest }, s)
    | some (.ok false, s) => some (.ok (), { account with unread := rest }, s)
    | some (.ok true, s) => converse limit settings rest account s

/-- What a console says first, if it introduces itself. -/
def bannerLines : List String :=
  ["\x1b[1;36mKeyline\x1b[0m v" ++ version,
   "Type `help` to list commands, `exit` or Ctrl+D to leave.\n"]

/-- The session after the introduction. -/
def greet (settings : Settings) (s : Session) : Session :=
  if settings.banner then s.printLines bannerLines else s

/-- The session after the last words. -/
def bidFarewell (s : Session) : Session := s.printLines ["\nGoodbye!"]

/-- A dialogue from its introduction to its last words, which are not said if reading fails. -/
def run (limit : Nat) (settings : Settings) (readings : List Reading) (s : Session) :
    Option (Except Fault Unit × Account × Session) :=
  match converse limit settings readings {} (s.greet settings) with
  | none => none
  | some (.error fault, account, s) => some (.error fault, account, s)
  | some (.ok (), account, s) => some (.ok (), account, s.bidFarewell)

end Session

end CommandShell
