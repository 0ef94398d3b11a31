/-!
# Faults

What can go wrong with a line, a script or the terminal, as a cause with its data. The wording is in
`Fault.message` alone. A fault may also say where it happened; that place is shown on a line of its
own and is no part of the message.
-/

namespace CommandShell

/-- Where a fault happened: in which script, on which line counted from one, and in which input. -/
structure Place where
  source : Option String := none
  line : Option Nat := none
  input : Option String := none
deriving DecidableEq, Repr

/-- The written form of a place, `at source:line:` before the input in back quotes. A line number
says nothing without a source and is left out then. -/
def Place.text (p : Place) : String :=
  let position := match p.source, p.line with
    | none, _ => ""
    | some source, none => "at " ++ source
    | some source, some line => "at " ++ source ++ ":" ++ toString line
  let separator := if p.source.isSome && p.input.isSome then ": " else ""
  position ++ separator ++ (p.input.elim "" fun input => "`" ++ input ++ "`")

/-- What went wrong. -/
inductive Cause where
  /-- There was no word to look a command up by. -/
  | emptyInput
  /-- No command has the keyword. -/
  | commandNotFound (keyword : String)
  /-- Commands have the keyword, but the arguments fit none of them; the best of them used this
  many words, the keyword included. -/
  | noViableOverload (keyword : String) (consumed : Nat)
  /-- The arguments fit several commands, and none of them goes before the others. -/
  | ambiguousCommand (keyword : String) (signatures : List String)
  /-- A parameter was asked to read words that it does not accept. -/
  | contractViolation (param : String) (position : Nat)
  /-- The line editor failed. -/
  | editor (message : String)
  /-- A script could not be read. -/
  | unreadable (path message : String)
deriving DecidableEq, Repr

namespace Cause

/-- The wording of a cause. -/
def message : Cause → String
  | .emptyInput => "empty input"
  | .commandNotFound keyword => "command not found: " ++ keyword
  | .noViableOverload keyword consumed =>
    "no overload of `" ++ keyword ++ "` matches the arguments (matched " ++ toString consumed
      ++ " token(s))"
  | .ambiguousCommand keyword signatures =>
    "ambiguous command `" ++ keyword ++ "`: " ++ " | ".intercalate signatures
  | .contractViolation param position =>
    "internal error: " ++ param ++ " cannot consume token at position " ++ toString position
  | .editor message => "line editor error: " ++ message
  | .unreadable path message => "cannot read " ++ path ++ ": " ++ message

/-- Whether a cause is no mistake in the input, but a defect or a failing environment. -/
def isInternal : Cause → Bool
  | .contractViolation _ _ | .editor _ | .unreadable _ _ => true
  | _ => false

/-- The keyword that a cause is about. -/
def keyword? : Cause → Option String
  | .commandNotFound keyword | .noViableOverload keyword _ | .ambiguousCommand keyword _ =>
    some keyword
  | _ => none

end Cause

/-- A cause, and the place where it arose if that is known. -/
structure Fault where
  cause : Cause
  place : Option Place := none
deriving DecidableEq, Repr

namespace Fault

/-- A fault without a place. -/
def of (cause : Cause) : Fault := { cause }

/-- The fault at a place. A place given before is forgotten as a whole. -/
def located (fault : Fault) (place : Place) : Fault := { fault with place := some place }

/-- The wording of a fault. -/
def message (fault : Fault) : String := fault.cause.message

end Fault

end CommandShell
