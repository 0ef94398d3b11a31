import CommandShell.Session.Basic

/-!
# Lines of input

A line is first sorted by its words alone. Lines without words and comments are skipped, a few lines
are for the console itself, and every other line is dispatched. The words of the console come before
any command of that keyword, but only when they stand alone, or for help with one keyword.

Main definitions:

* `Request.ofTokens`: what a line asks for;
* `Session.executeLine`: does it.
-/

namespace CommandShell

/-- What a line asks for. -/
inductive Request where
  | skip
  | leave
  | help
  | helpOn (keyword : String)
  | command (tokens : List String)
deriving DecidableEq, Repr

namespace Request

/-- The words that the console takes itself. -/
def builtins : List String := ["help", "exit", "quit"]

/-- Whether a word begins a comment. -/
def isComment (word : String) : Bool := word.toList.head? == some '#'

/-- What the words of a line ask for. -/
def ofTokens : List String → Request
  | [] => .skip
  | first :: rest =>
    if isComment first then .skip
    else
      match first, rest with
      | "exit", [] => .leave
      | "quit", [] => .leave
      | "help", [] => .help
      | "help", [keyword] => .helpOn keyword
      | first, rest => .command (first :: rest)

/-- What a line asks for. -/
def ofLine (line : String) : Request := ofTokens (Text.words line)

end Request

/-- What became of a line. -/
inductive LineOutcome where
  | skipped
  | left
  /-- The signatures that were asked for. -/
  | help (signatures : List String)
  | dispatched (call : Invocation)

/-- A line of red text. -/
def redLine (text : String) : String := "\x1b[31m" ++ text ++ "\x1b[0m\n"

/-- The line that reports a fault, without its place. -/
def Fault.reportLine (fault : Fault) : String :=
  redLine ((if fault.cause.isInternal then "Internal error" else "Error") ++ ": " ++ fault.message)

namespace Session

/-- Does what was asked for. -/
def fulfil (limit : Nat) (request : Request) (s : Session) :
    Option (Except Fault LineOutcome × Session) :=
  match request with
  | .skip => some (.ok .skipped, s)
  | .leave => some (.ok .left, s)
  | .help => some (.ok (.help s.catalog.signatures), s)
  | .helpOn keyword =>
    match s.catalog.usage keyword with
    | [] => some (.error (.of (.commandNotFound keyword)), s)
    | usage => some (.ok (.help usage), s)
  | .command tokens =>
    match s.dispatch limit tokens with
    | none => none
    | some (.error fault, s) => some (.error fault, s)
    | some (.ok call, s) => some (.ok (.dispatched call), s.note (.executed call.command.signature))

/-- Does what a line asks for. -/
def executeLine (limit : Nat) (line : String) (s : Session) :
    Option (Except Fault LineOutcome × Session) :=
  s.fulfil limit (.ofLine line)

/-! ## What the console shows of a line -/

/-- Prints signatures for help, each on an indented line of its own. -/
def printHelp (s : Session) (signatures : List String) : Session :=
  s.printLines (signatures.map fun signature => "  " ++ signature)

/-- Reports a fault on the standard error, and its place on a line of its own if it has one. -/
def report (s : Session) (fault : Fault) : Session :=
  let reported := s.record (.complained fault.reportLine)
  match fault.place with
  | none => reported
  | some place => reported.record (.complained ("  " ++ place.text ++ "\n"))

end Session

end CommandShell
