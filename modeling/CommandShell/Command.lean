import CommandShell.Param.Basic
import CommandShell.Fault

/-!
# Commands

A command answers to a keyword, takes arguments as its parameters say, and does something with them.
Several commands may share a keyword, and even their parameters.

What a command does is up to whoever registers it. It takes steps: it prints, it writes to the
standard error, it registers further commands, it dispatches a line as if it had been typed, it
keeps a text for later calls. In between it may look about and decide on its next steps by all that
it has seen, and so its steps need not be known beforehand, nor need they come to an end.

Main definitions:

* `Sight`: what a running command can see;
* `Step`: one thing that a running command does;
* `Command` and `Invocation`.
-/

namespace CommandShell

/-- What can be seen of a command without calling it. -/
structure Outline where
  keyword : String
  params : List Param
deriving DecidableEq, Repr

/-- What commands can find again in later calls. All of them share one memory. -/
structure Memory where
  /-- The text that was kept last. -/
  kept : String := ""
  /-- What became of the line that was last dispatched from within a call: the command that was
  called and its arguments, or what was wrong with the line. -/
  outcome : Option (Except Fault (Outline × List Value)) := none

/-- What a running command sees when it looks about. -/
structure Sight where
  memory : Memory
  /-- The known commands in the order of their registration. -/
  known : List Outline

/-- One thing that a running command does, where `C` is the type of commands. -/
inductive Step (C : Type) where
  /-- Writes text to the standard output. -/
  | print (text : String)
  /-- Writes text to the standard error. -/
  | warn (text : String)
  /-- Makes a further command known. -/
  | register (command : C)
  /-- Dispatches a line; what becomes of it is recorded and remembered, and otherwise ignored. -/
  | dispatch (line : String)
  /-- Keeps a text in place of the one that was kept before. -/
  | keep (text : String)
  /-- Looks about, takes the steps that everything seen so far calls for, and looks about again,
  until no step is called for. -/
  | proceed (course : List Sight → List (Step C))

/-- A command: what it is called, what it takes and what it does. -/
structure Command where
  keyword : String
  params : List Param
  action : List Value → List (Step Command)

namespace Command

/-- How many parameters a command has. The number of words that it takes may differ, because an
array takes any number of them. -/
def arity (c : Command) : Nat := c.params.length

/-- The keyword and the parameters as help and messages show them. -/
def signature (c : Command) : String := " ".intercalate (c.keyword :: c.params.map Param.display)

/-- All that a command is made of, its action excepted. -/
def inspect (c : Command) : String :=
  "CommandDescriptor \x7b keyword: " ++ Text.quoted c.keyword
    ++ ", params: [" ++ ", ".intercalate (c.params.map Param.inspect) ++ "], .. \x7d"

/-- What can be seen of a command without calling it. -/
def outline (c : Command) : Outline := ⟨c.keyword, c.params⟩

end Command

/-- A command together with the arguments for one call of it. -/
structure Invocation where
  command : Command
  args : List Value

/-- What can be seen of a call. -/
def Invocation.outline (call : Invocation) : Outline × List Value :=
  (call.command.outline, call.args)

end CommandShell
