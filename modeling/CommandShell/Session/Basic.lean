import CommandShell.Resolution.Verdict
import CommandShell.Text.Words

/-!
# Sessions

A session is a catalog of commands, what commands remember, and the record of what has happened so
far: calls, output, notes. The record is one list in the order of the events, so what was printed
before what can be read off it. It is only ever written: what happens next depends on the catalog
and the memory alone.

A call takes the steps of its command, and a step may dispatch a line and so call again. Nothing
keeps commands from calling each other forever, or from looking about forever, so there is a limit
on how many steps follow each other and nest; a call that would go beyond it has no result. A result
does not depend on the limit (`perform_mono`).

Main definitions:

* `Session.register`: makes a command known;
* `Session.resolve`: finds the call for some words, without performing it;
* `Session.perform`: takes the steps of a call;
* `Session.invoke`: performs a call;
* `Session.dispatch`: finds the call for some words and performs it.
-/

namespace CommandShell

/-- Something that happened. -/
inductive Event where
  /-- A command was called, by the session itself at depth zero and otherwise from within a call at
  the depth above. -/
  | called (depth : Nat) (command : Command) (args : List Value)
  /-- A line was dispatched from within a call, and this became of it. -/
  | nested (outcome : Except Fault Invocation)
  /-- A command became known. -/
  | registered (command : Command)
  /-- Text went to the standard output. -/
  | printed (text : String)
  /-- A fault was reported, with this text on the standard error. -/
  | complained (text : String)
  /-- A command wrote text to the standard error. -/
  | warned (text : String)
  /-- A note was taken. -/
  | noted (note : Note)

/-- The commands that are known, what they remember, and all that has happened. -/
structure Session where
  catalog : Catalog
  events : List Event
  memory : Memory

namespace Session

/-! ## Recording -/

/-- A session in which nothing has happened. -/
def start (catalog : Catalog) : Session := ⟨catalog, [], {}⟩

/-- The session after one more event. -/
def record (s : Session) (event : Event) : Session := { s with events := s.events ++ [event] }

/-- The session after text went to the standard output. -/
def print (s : Session) (text : String) : Session := s.record (.printed text)

/-- The session after a command wrote text to the standard error. -/
def warn (s : Session) (text : String) : Session := s.record (.warned text)

/-- The session after some lines went to the standard output. -/
def printLines (s : Session) (lines : List String) : Session :=
  lines.foldl (fun s line => s.print (line ++ "\n")) s

/-- The session after a note was taken. -/
def note (s : Session) (n : Note) : Session := s.record (.noted n)

/-- The session after some notes were taken. -/
def noteAll (s : Session) (notes : List Note) : Session := notes.foldl note s

/-! ### What recording leaves alone and adds -/

@[simp] theorem catalog_record (s : Session) (event : Event) :
    (s.record event).catalog = s.catalog := rfl

@[simp] theorem memory_record (s : Session) (event : Event) :
    (s.record event).memory = s.memory := rfl

@[simp] theorem events_record (s : Session) (event : Event) :
    (s.record event).events = s.events ++ [event] := rfl

@[simp] theorem catalog_noteAll (s : Session) (notes : List Note) :
    (s.noteAll notes).catalog = s.catalog := by
  unfold noteAll
  induction notes generalizing s with
  | nil => rfl
  | cons n notes ih => exact ih (s.note n)

@[simp] theorem memory_noteAll (s : Session) (notes : List Note) :
    (s.noteAll notes).memory = s.memory := by
  unfold noteAll
  induction notes generalizing s with
  | nil => rfl
  | cons n notes ih => exact ih (s.note n)

@[simp] theorem events_noteAll (s : Session) (notes : List Note) :
    (s.noteAll notes).events = s.events ++ notes.map .noted := by
  unfold noteAll
  induction notes generalizing s with
  | nil => simp
  | cons n notes ih =>
    rw [List.foldl_cons, ih (s.note n), List.map_cons, note, events_record, List.append_assoc,
      List.singleton_append]

@[simp] theorem catalog_printLines (s : Session) (lines : List String) :
    (s.printLines lines).catalog = s.catalog := by
  unfold printLines
  induction lines generalizing s with
  | nil => rfl
  | cons line lines ih => exact ih (s.print (line ++ "\n"))

@[simp] theorem memory_printLines (s : Session) (lines : List String) :
    (s.printLines lines).memory = s.memory := by
  unfold printLines
  induction lines generalizing s with
  | nil => rfl
  | cons line lines ih => exact ih (s.print (line ++ "\n"))

@[simp] theorem events_printLines (s : Session) (lines : List String) :
    (s.printLines lines).events =
      s.events ++ lines.map fun line => .printed (line ++ "\n") := by
  unfold printLines
  induction lines generalizing s with
  | nil => simp
  | cons line lines ih =>
    rw [List.foldl_cons, ih (s.print (line ++ "\n")), List.map_cons, print, events_record,
      List.append_assoc, List.singleton_append]

/-! ## Commands -/

/-- The session with one more command. -/
def register (s : Session) (command : Command) : Session :=
  { s with catalog := s.catalog.register command }
    |>.note (.registering command.signature)
    |>.record (.registered command)

/-- The call for some words, with the notes on how it was found. -/
def resolve (s : Session) (tokens : List String) : Except Fault Invocation × Session :=
  let verdict := s.catalog.judge tokens
  (verdict.result, s.noteAll verdict.notes)

@[simp] theorem catalog_register (s : Session) (command : Command) :
    (s.register command).catalog = s.catalog.register command := rfl

/-! ## Calls -/

/-- What a running command can see. -/
def sight (s : Session) : Sight := ⟨s.memory, s.catalog.commands.map Command.outline⟩

/-- The session after a command kept a text. -/
def keep (s : Session) (text : String) : Session := { s with memory.kept := text }

/-- The session when a call begins at a depth. -/
def enter (s : Session) (depth : Nat) (call : Invocation) : Session :=
  s.record (.called depth call.command call.args)

/-- The session after a line was dispatched from within a call. -/
def conclude (s : Session) (outcome : Except Fault Invocation) : Session :=
  { s with memory.outcome := some (outcome.map Invocation.outline) }.record (.nested outcome)

/-- Takes steps of a call at a depth, one after the other. -/
def perform : Nat → Nat → List (Step Command) → Session → Option Session
  | 0, _, _, _ => none
  | _ + 1, _, [], s => some s
  | limit + 1, depth, .print text :: rest, s => perform limit depth rest (s.print text)
  | limit + 1, depth, .warn text :: rest, s => perform limit depth rest (s.warn text)
  | limit + 1, depth, .register command :: rest, s => perform limit depth rest (s.register command)
  | limit + 1, depth, .dispatch line :: rest, s =>
    match s.resolve (Text.words line) with
    | (.error fault, s) => perform limit depth rest (s.conclude (.error fault))
    | (.ok call, s) =>
      match perform limit (depth + 1) (call.command.action call.args)
          (s.enter (depth + 1) call) with
      | none => none
      | some s => perform limit depth rest (s.conclude (.ok call))
  | limit + 1, depth, .keep text :: rest, s => perform limit depth rest (s.keep text)
  | limit + 1, depth, .proceed course :: rest, s =>
    match course [s.sight] with
    | [] => perform limit depth rest s
    | step :: more =>
      -- the course goes on after these steps, and has seen this much then
      let onward := Step.proceed fun seen => course (s.sight :: seen)
      perform limit depth (step :: more ++ onward :: rest) s

/-- Performs a call. -/
def invoke (limit : Nat) (call : Invocation) (s : Session) : Option Session :=
  perform limit 0 (call.command.action call.args) (s.enter 0 call)

/-- Finds the call for some words and performs it. If there is no call, nothing is performed. -/
def dispatch (limit : Nat) (tokens : List String) (s : Session) :
    Option (Except Fault Invocation × Session) :=
  match s.resolve tokens with
  | (.error fault, s) => some (.error fault, s)
  | (.ok call, s) => (s.invoke limit call).map fun s => (.ok call, s)

/-- Dispatches the words of a line. -/
def dispatchLine (limit : Nat) (line : String) (s : Session) :
    Option (Except Fault Invocation × Session) :=
  s.dispatch limit (Text.words line)

/-! ## Output -/

/-- What an event wrote to the standard output. -/
def outputOf : Event → String
  | .printed text => text
  | _ => ""

/-- All that went to the standard output. -/
def output (s : Session) : String := String.join (s.events.map outputOf)

end Session

end CommandShell
