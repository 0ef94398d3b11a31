import CommandShell.Console.Line
import Mathlib.Order.Basic

/-!
# What calls do to a session

Whatever commands do when they are called, and however deep their calls nest, they change a session
in a few ways only. They know nothing of the record, so what was recorded before a call is still
there after it and makes no difference to it. They cannot take a command away or move it, so the
catalog is at any time what it was before, followed by the commands that have been registered since,
in the order of their registration. And every call that is made from within a call is recorded at
a greater depth than that.

Main results:

* `Session.perform_mono`: a result does not depend on the limit;
* `Session.perform_since`: a call goes on as if nothing had happened before it;
* `Session.exists_grows_of_perform`: what a call adds to the record and to the catalog.
-/

namespace CommandShell

namespace Session

variable {limit depth : Nat} {rest steps : List (Step Command)} {s t u : Session}

/-! ## Looking for a call -/

/-- The session after a call has been looked for. -/
def considered (s : Session) (tokens : List String) : Session :=
  s.noteAll (s.catalog.judge tokens).notes

/-- The answer is the catalog's, and the session only takes note of the contest. -/
theorem resolve_eq (s : Session) (tokens : List String) :
    s.resolve tokens = (s.catalog.resolve tokens, s.considered tokens) := rfl

/-- Words that name no call leave the session as it is after looking for one. -/
theorem dispatch_of_error {tokens : List String} {fault : Fault}
    (h : s.catalog.resolve tokens = .error fault) :
    s.dispatch limit tokens = some (.error fault, s.considered tokens) := by
  rw [dispatch, resolve_eq, h]

/-- A call that was found is made in the session that has taken note of the contest. -/
theorem dispatch_of_ok {tokens : List String} {call : Invocation}
    (h : s.catalog.resolve tokens = .ok call) :
    s.dispatch limit tokens =
      ((s.considered tokens).invoke limit call).map fun t => (.ok call, t) := by
  rw [dispatch, resolve_eq, h]

theorem fulfil_command_of_error {tokens : List String} {fault : Fault}
    (h : s.catalog.resolve tokens = .error fault) :
    s.fulfil limit (.command tokens) = some (.error fault, s.considered tokens) := by
  rw [fulfil, dispatch_of_error h]

/-- A request whose words name a call is answered with the call, after it was made and noted. -/
theorem fulfil_command_of_ok {tokens : List String} {call : Invocation}
    (h : s.catalog.resolve tokens = .ok call) :
    s.fulfil limit (.command tokens) = ((s.considered tokens).invoke limit call).map fun t =>
      (.ok (.dispatched call), t.note (.executed call.command.signature)) := by
  rw [fulfil, dispatch_of_ok h]
  cases (s.considered tokens).invoke limit call <;> rfl

/-! ## One step -/

/-- A line that a call cannot execute is concluded with its fault, and the call goes on. -/
theorem perform_dispatch_of_error {line : String} {fault : Fault}
    (h : s.catalog.resolve (Text.words line) = .error fault) :
    perform (limit + 1) depth (.dispatch line :: rest) s =
      perform limit depth rest ((s.considered (Text.words line)).conclude (.error fault)) := by
  rw [perform, resolve_eq, h]

/-- A call within a call is made one level deeper. The call around it goes on where that has ended.
-/
theorem perform_dispatch_of_ok {line : String} {call : Invocation}
    (h : s.catalog.resolve (Text.words line) = .ok call) :
    perform (limit + 1) depth (.dispatch line :: rest) s =
      (perform limit (depth + 1) (call.command.action call.args)
        ((s.considered (Text.words line)).enter (depth + 1) call)).bind fun u =>
          perform limit depth rest (u.conclude (.ok call)) := by
  rw [perform, resolve_eq, h]
  dsimp only
  -- both sides pass a call that never ends on
  cases perform limit (depth + 1) (call.command.action call.args)
    ((s.considered (Text.words line)).enter (depth + 1) call) <;> rfl

/-- A course that asks for nothing after it has looked at the session is over. -/
theorem perform_proceed_of_nil {course : List Sight → List (Step Command)}
    (h : course [s.sight] = []) :
    perform (limit + 1) depth (.proceed course :: rest) s = perform limit depth rest s := by
  rw [perform, h]

/-- A course that asks for steps is asked again after these, and then has seen the session once
more. -/
theorem perform_proceed_of_cons {course : List Sight → List (Step Command)} {step : Step Command}
    {more : List (Step Command)} (h : course [s.sight] = step :: more) :
    perform (limit + 1) depth (.proceed course :: rest) s =
      perform limit depth
        (step :: more ++ .proceed (fun seen => course (s.sight :: seen)) :: rest) s := by
  rw [perform, h]

/-! ## The limit -/

/-- A call that ends within a limit ends within the next one, in the same session. -/
theorem perform_succ (h : perform limit depth steps s = some t) :
    perform (limit + 1) depth steps s = some t := by
  -- on the limit, which every step, nested or not, makes smaller by one
  induction limit generalizing depth steps s t with
  | zero => simp [perform] at h
  | succ limit ih =>
    cases steps with
    | nil => exact h
    | cons step rest =>
      cases step with
      | print text => exact ih h
      | warn text => exact ih h
      | register command => exact ih h
      | keep text => exact ih h
      | dispatch line =>
        cases hresolve : s.catalog.resolve (Text.words line) with
        | error fault =>
          rw [perform_dispatch_of_error hresolve] at h ⊢
          exact ih h
        | ok call =>
          rw [perform_dispatch_of_ok hresolve] at h ⊢
          -- the nested call and what comes after it have ended, each within the smaller limit
          obtain ⟨u, hcall, hrest⟩ := Option.bind_eq_some_iff.mp h
          exact Option.bind_eq_some_iff.mpr ⟨u, ih hcall, ih hrest⟩
      | proceed course =>
        cases hcourse : course [s.sight] with
        | nil =>
          rw [perform_proceed_of_nil hcourse] at h ⊢
          exact ih h
        | cons step more =>
          rw [perform_proceed_of_cons hcourse] at h ⊢
          exact ih h

/-- **A result does not depend on the limit.** -/
theorem perform_mono {limit' : Nat} (h : perform limit depth steps s = some t)
    (hle : limit ≤ limit') : perform limit' depth steps s = some t := by
  induction hle with
  | refl => exact h
  | step _ ih => exact perform_succ ih

/-! ## What happened before -/

/-- The session in which some other events came first. -/
def since (earlier : List Event) (s : Session) : Session :=
  { s with events := earlier ++ s.events }

section Since

variable (earlier : List Event)

@[simp] theorem catalog_since : (s.since earlier).catalog = s.catalog := rfl

@[simp] theorem sight_since : (s.since earlier).sight = s.sight := rfl

theorem keep_since (text : String) :
    (s.since earlier).keep text = (s.keep text).since earlier := rfl

theorem record_since (event : Event) :
    (s.since earlier).record event = (s.record event).since earlier := by
  simp [record, since]

theorem noteAll_since (notes : List Note) :
    (s.since earlier).noteAll notes = (s.noteAll notes).since earlier := by
  unfold noteAll
  induction notes generalizing s with
  | nil => rfl
  | cons n notes ih => rw [List.foldl_cons, List.foldl_cons, note, record_since, ih, note]

theorem register_since (command : Command) :
    (s.since earlier).register command = (s.register command).since earlier := by
  simp [register, note, record, since]

theorem considered_since (tokens : List String) :
    (s.since earlier).considered tokens = (s.considered tokens).since earlier :=
  noteAll_since earlier _

theorem conclude_since (outcome : Except Fault Invocation) :
    (s.since earlier).conclude outcome = (s.conclude outcome).since earlier := by
  simp [conclude, record, since]

/-- **What happened before makes no difference to a call**, and it is still recorded after it. -/
theorem perform_since : perform limit depth steps (s.since earlier) =
    (perform limit depth steps s).map (since earlier) := by
  -- on the limit; each kind of step has been shown to let the earlier events through
  induction limit generalizing depth steps s with
  | zero => rfl
  | succ limit ih =>
    cases steps with
    | nil => rfl
    | cons step rest =>
      cases step with
      | print text => rw [perform, perform, print, record_since, ih, print]
      | warn text => rw [perform, perform, warn, record_since, ih, warn]
      | register command => rw [perform, perform, register_since, ih]
      | keep text => rw [perform, perform, keep_since, ih]
      | dispatch line =>
        cases hresolve : s.catalog.resolve (Text.words line) with
        | error fault =>
          rw [perform_dispatch_of_error hresolve, perform_dispatch_of_error (s := s.since earlier)
            hresolve, considered_since, conclude_since, ih]
        | ok call =>
          rw [perform_dispatch_of_ok hresolve, perform_dispatch_of_ok (s := s.since earlier)
            hresolve, considered_since, enter, record_since, ih, ← enter]
          -- where the nested call ends, the rest of the call starts from a session with the same
          -- past
          cases perform limit (depth + 1) (call.command.action call.args)
              ((s.considered (Text.words line)).enter (depth + 1) call) with
          | none => rfl
          | some u =>
            show perform limit depth rest ((u.since earlier).conclude (.ok call)) = _
            rw [conclude_since, ih]
            rfl
      | proceed course =>
        cases hcourse : course [s.sight] with
        | nil =>
          rw [perform_proceed_of_nil hcourse, perform_proceed_of_nil (s := s.since earlier) hcourse,
            ih]
        | cons step more =>
          rw [perform_proceed_of_cons hcourse, perform_proceed_of_cons (s := s.since earlier)
            hcourse, sight_since, ih]

theorem invoke_since (call : Invocation) : (s.since earlier).invoke limit call =
    (s.invoke limit call).map (since earlier) := by
  rw [invoke, enter, record_since, perform_since, ← enter, invoke]

/-- What happened before makes no difference to a line. -/
theorem executeLine_since (line : String) : (s.since earlier).executeLine limit line =
    (s.executeLine limit line).map fun r => (r.1, r.2.since earlier) := by
  rw [executeLine, executeLine]
  -- what is asked for depends on the line only; of what can be asked for, two requests read the
  -- catalog
  cases Request.ofLine line with
  | skip => rfl
  | leave => rfl
  | help => rfl
  | helpOn keyword =>
    rw [fulfil, fulfil, catalog_since]
    cases s.catalog.usage keyword <;> rfl
  | command tokens =>
    cases hresolve : s.catalog.resolve tokens with
    | error fault =>
      rw [fulfil_command_of_error hresolve, fulfil_command_of_error (s := s.since earlier) hresolve,
        considered_since]
      rfl
    | ok call =>
      rw [fulfil_command_of_ok hresolve, fulfil_command_of_ok (s := s.since earlier) hresolve,
        considered_since, invoke_since, Option.map_map, Option.map_map]
      congr 1
      funext t
      simp only [Function.comp, note, record_since]

end Since

/-! ## What is added -/

end Session

/-- The command that became known by an event. -/
def Event.registration? : Event → Option Command
  | .registered command => some command
  | _ => none

/-- A part of the record that has nothing to do with notes has none of them. -/
theorem Event.filterMap_map_noted {α : Type} {f : Event → Option α} (h : ∀ n, f (.noted n) = none)
    (notes : List Note) : (notes.map Event.noted).filterMap f = [] := by
  rw [List.filterMap_map]
  exact List.filterMap_eq_nil_iff.mpr fun n _ => h n

namespace Session

/-- What a session has recorded since another, when the calls among it are all at a depth or below
it and nothing was reported. The catalog has grown by the commands whose registration is
recorded. -/
structure Grows (depth : Nat) (new : List Event) (s t : Session) : Prop where
  events_eq : t.events = s.events ++ new
  commands_eq : t.catalog.commands = s.catalog.commands ++ new.filterMap Event.registration?
  deep : ∀ d command args, .called d command args ∈ new → depth ≤ d
  quiet : ∀ text, .complained text ∉ new

theorem Grows.refl (depth : Nat) (s : Session) : Grows depth [] s s where
  events_eq := (List.append_nil _).symm
  commands_eq := (List.append_nil _).symm
  deep := by simp
  quiet := by simp

/-- What was recorded in two stretches was recorded in all. -/
theorem Grows.trans {first second : List Event} (h : Grows depth first s t)
    (h' : Grows depth second t u) : Grows depth (first ++ second) s u where
  events_eq := by rw [h'.events_eq, h.events_eq, List.append_assoc]
  commands_eq := by rw [h'.commands_eq, h.commands_eq, List.filterMap_append, List.append_assoc]
  deep := by
    intro d command args hmem
    rcases List.mem_append.mp hmem with hmem | hmem
    · exact h.deep d command args hmem
    · exact h'.deep d command args hmem
  quiet := by
    intro text hmem
    rcases List.mem_append.mp hmem with hmem | hmem
    · exact h.quiet text hmem
    · exact h'.quiet text hmem

/-- Calls that are below some depth are below any smaller one. -/
theorem Grows.of_le {depth' : Nat} {new : List Event} (h : Grows depth' new s t)
    (hle : depth ≤ depth') : Grows depth new s t where
  events_eq := h.events_eq
  commands_eq := h.commands_eq
  deep := fun d command args hmem => Nat.le_trans hle (h.deep d command args hmem)
  quiet := h.quiet

theorem grows_print (text : String) : Grows depth [.printed text] s (s.print text) where
  events_eq := rfl
  commands_eq := (List.append_nil _).symm
  deep := by simp
  quiet := by simp

/-- A warning adds itself to the record. It is no report, for no line has failed. -/
theorem grows_warn (text : String) : Grows depth [.warned text] s (s.warn text) where
  events_eq := rfl
  commands_eq := (List.append_nil _).symm
  deep := by simp
  quiet := by simp

theorem grows_considered (tokens : List String) :
    Grows depth ((s.catalog.judge tokens).notes.map .noted) s (s.considered tokens) where
  events_eq := events_noteAll s _
  commands_eq := by
    rw [Event.filterMap_map_noted fun _ => rfl, List.append_nil, considered, catalog_noteAll]
  deep := by simp
  quiet := by simp

theorem grows_register (command : Command) :
    Grows depth [.noted (.registering command.signature), .registered command] s
      (s.register command) where
  events_eq := by simp [register, note, record]
  commands_eq := rfl
  deep := by simp
  quiet := by simp

theorem grows_conclude (outcome : Except Fault Invocation) :
    Grows depth [.nested outcome] s (s.conclude outcome) where
  events_eq := rfl
  commands_eq := (List.append_nil _).symm
  deep := by simp
  quiet := by simp

/-- A call adds itself, at its own depth. -/
theorem grows_enter (depth : Nat) (call : Invocation) :
    Grows depth [.called depth call.command call.args] s (s.enter depth call) where
  events_eq := rfl
  commands_eq := (List.append_nil _).symm
  deep := by
    intro d command args hmem
    obtain ⟨rfl, rfl, rfl⟩ := Event.called.inj (List.mem_singleton.mp hmem)
    exact Nat.le_refl d
  quiet := by simp

/-- **What a call adds.** It takes nothing away from the record and from the catalog, it reports
nothing, and the calls that it makes are deeper than it is itself. -/
theorem exists_grows_of_perform (h : perform limit depth steps s = some t) :
    ∃ new, Grows (depth + 1) new s t := by
  -- on the limit: each step adds its own events, and the steps after it what they add by induction
  induction limit generalizing depth steps s t with
  | zero => simp [perform] at h
  | succ limit ih =>
    cases steps with
    | nil =>
      obtain rfl := Option.some.inj h
      exact ⟨[], .refl _ s⟩
    | cons step rest =>
      cases step with
      | print text =>
        obtain ⟨new, hrest⟩ := ih h
        exact ⟨_, (grows_print text).trans hrest⟩
      | warn text =>
        obtain ⟨new, hrest⟩ := ih h
        exact ⟨_, (grows_warn text).trans hrest⟩
      | register command =>
        obtain ⟨new, hrest⟩ := ih h
        exact ⟨_, (grows_register command).trans hrest⟩
      | keep text =>
        obtain ⟨new, hrest⟩ := ih h
        exact ⟨new, hrest.events_eq, hrest.commands_eq, hrest.deep, hrest.quiet⟩
      | dispatch line =>
        cases hresolve : s.catalog.resolve (Text.words line) with
        | error fault =>
          rw [perform_dispatch_of_error hresolve] at h
          obtain ⟨new, hrest⟩ := ih h
          exact ⟨_, (grows_considered _).trans ((grows_conclude _).trans hrest)⟩
        | ok call =>
          rw [perform_dispatch_of_ok hresolve] at h
          obtain ⟨u, hcall, hrest⟩ := Option.bind_eq_some_iff.mp h
          obtain ⟨inner, hinner⟩ := ih hcall
          obtain ⟨outer, houter⟩ := ih hrest
          -- what the nested call makes of itself is even deeper than it is
          have hcalled := (grows_enter (depth + 1) call).trans (hinner.of_le (Nat.le_succ _))
          exact ⟨_, (grows_considered _).trans (hcalled.trans ((grows_conclude _).trans houter))⟩
      | proceed course =>
        cases hcourse : course [s.sight] with
        | nil =>
          rw [perform_proceed_of_nil hcourse] at h
          exact ih h
        | cons step more =>
          rw [perform_proceed_of_cons hcourse] at h
          exact ih h

end Session

end CommandShell
