/-!
# Notes

What a shell tells about its own work while it runs. A note holds what happened; its level, the part
of the shell that it comes from and its wording are functions of that.
-/

namespace CommandShell

/-- How detailed a note is, the most detailed first. -/
inductive Level where
  | trace
  | debug
  | info
deriving DecidableEq, Repr

/-- The name of a level. -/
def Level.name : Level → String
  | .trace => "TRACE"
  | .debug => "DEBUG"
  | .info => "INFO"

/-- The parts of the shell that notes come from. -/
inductive Origin where
  | program
  | console
  | registration
  | resolution
deriving DecidableEq, Repr

/-- The path by which notes name the part that they come from. -/
def Origin.path : Origin → String
  | .program => "keyline"
  | .console => "keyline_runtime::repl"
  | .registration => "keyline_dispatch::dispatcher"
  | .resolution => "keyline_dispatch::matcher"

/-- Something worth telling. -/
inductive Note where
  /-- The program has its commands, with this many keywords. -/
  | commandsReady (keywords : Nat)
  /-- A script is about to run. -/
  | runningScript (path : String)
  /-- A line has run the command with this signature. -/
  | executed (signature : String)
  /-- The command with this signature is being registered. -/
  | registering (signature : String)
  /-- No command has the keyword. -/
  | noneRegistered (keyword : String)
  /-- This many words are tried against this many commands. -/
  | matching (keyword : String) (words overloads : Nat)
  /-- The command with this signature does not take what stands at a position. -/
  | rejected (signature : String) (position : Nat)
  /-- The command with this signature takes all but this many words. -/
  | leftOver (signature : String) (words : Nat)
  /-- No command takes the words; the best of them reached this position. -/
  | noneSurvived (keyword : String) (furthest : Nat)
  /-- This many commands take the words and none of them goes before the others. -/
  | ambiguous (keyword : String) (overloads : Nat)
  /-- The command with this signature takes the words. -/
  | resolved (signature : String)
deriving DecidableEq, Repr

namespace Note

/-- The part of the shell that a note comes from. -/
def origin : Note → Origin
  | .commandsReady _ => .program
  | .runningScript _ | .executed _ => .console
  | .registering _ => .registration
  | _ => .resolution

/-- How detailed a note is. -/
def level : Note → Level
  | .commandsReady _ | .runningScript _ | .executed _ => .info
  | .rejected _ _ | .leftOver _ _ => .trace
  | _ => .debug

/-- The wording of a note. -/
def text : Note → String
  | .commandsReady keywords => "registered " ++ toString keywords ++ " command keyword(s)"
  | .runningScript path => "running script " ++ path
  | .executed signature => "executed `" ++ signature ++ "`"
  | .registering signature => "registering `" ++ signature ++ "`"
  | .noneRegistered keyword => "no command registered for `" ++ keyword ++ "`"
  | .matching keyword words overloads =>
    "matching `" ++ keyword ++ "` (" ++ toString words ++ " token(s)) against "
      ++ toString overloads ++ " overload(s)"
  | .rejected signature position =>
    "eliminated `" ++ signature ++ "` at token " ++ toString position
  | .leftOver signature words =>
    "eliminated `" ++ signature ++ "`: " ++ toString words ++ " token(s) left over"
  | .noneSurvived keyword furthest =>
    "no overload of `" ++ keyword ++ "` survived (furthest token " ++ toString furthest ++ ")"
  | .ambiguous keyword overloads =>
    "`" ++ keyword ++ "` is ambiguous between " ++ toString overloads ++ " overload(s)"
  | .resolved signature => "resolved to `" ++ signature ++ "`"

end Note

end CommandShell
