import CommandShell.Console.Dialogue
import CommandShell.Console.Script
import CommandShell.Proofs.LineBreaks
import CommandShell.Proofs.Resolution
import CommandShell.Proofs.Tasks
import Mathlib.Data.List.TakeWhile

/-!
# Going through lines

A dialogue and a script go through lines in loops of their own. What the loops do to a session can
be said in the same way for both: the lines are executed one after the other, and after each of them
the session is shown what became of it, until a line leaves. The two differ in the place that they
give a fault, and a script may end at the first line that fails.

Main definitions:

* `Session.present`: shows what became of a line;
* `Session.Passes`: goes through lines none of which leaves.

Main results:

* `Session.respond_line`: a dialogue executes a line and shows what became of it;
* `Session.passes_of_converse`, `Session.exists_converse_of_passes`: a dialogue on lines;
* `Session.executeLines_eq_ok_iff`, `Session.executeLines_eq_error_iff`: the two ends of a script;
* `Session.Passes.complaints_eq`: all that is reported on the way;
* `Session.Quietly.exists_warnings_eq`: when nothing is reported, only commands write to the
  standard error.
-/

namespace CommandShell

/-! ## What became of lines -/

/-- What became of a line, or what was wrong with it. -/
abbrev LineResult := Except Fault LineOutcome

namespace LineResult

/-- Whether a line ran a command. -/
def isDispatched : LineResult → Bool
  | .ok (.dispatched _) => true
  | _ => false

/-- Whether a line failed. -/
def isFailed : LineResult → Bool
  | .error _ => true
  | .ok _ => false

end LineResult

/-- The counts after some more lines. -/
def Summary.after (summary : Summary) (results : List LineResult) : Summary where
  executed := summary.executed + results.countP LineResult.isDispatched
  failed := summary.failed + results.countP LineResult.isFailed

/-- Counts that begin with nothing count the lines themselves. -/
theorem Summary.after_empty (results : List LineResult) : ({} : Summary).after results =
    ⟨results.countP LineResult.isDispatched, results.countP LineResult.isFailed⟩ := by
  simp [after]

theorem Summary.after_cons (summary : Summary) (result : LineResult) (results : List LineResult) :
    summary.after (result :: results) = (summary.after [result]).after results := by
  simp only [after, List.countP_cons, List.countP_nil, Summary.mk.injEq]
  omega

/-- A line that failed, with its number. -/
structure Failure where
  number : Nat
  line : String
  fault : Fault

/-- The lines that failed among lines numbered from some number on. -/
def failures : Nat → List String → List LineResult → List Failure
  | number, line :: lines, .error fault :: results =>
    ⟨number, line, fault⟩ :: failures (number + 1) lines results
  | number, _ :: lines, .ok _ :: results => failures (number + 1) lines results
  | _, _, _ => []

/-- The text of a report that an event put on the standard error. -/
def Event.complaint? : Event → Option String
  | .complained text => some text
  | _ => none

/-- The text that a command itself put on the standard error by an event. -/
def Event.warning? : Event → Option String
  | .warned text => some text
  | _ => none

/-- The text that an event put on the standard error, whoever wrote it. Notes are shown there only
if they are asked for, and are left out here. -/
def Event.errorText? : Event → Option String
  | .complained text | .warned text => some text
  | _ => none

/-- All lines that report a fault: what is wrong, and the place if it is known. -/
def Fault.reportLines (fault : Fault) : List String :=
  fault.reportLine :: fault.place.toList.map fun place => "  " ++ place.text ++ "\n"

/-- A report of a fault with a place has two lines, of which the second is the place. -/
theorem Fault.reportLines_located (fault : Fault) (place : Place) :
    (fault.located place).reportLines = [fault.reportLine, "  " ++ place.text ++ "\n"] := by
  rw [reportLines, reportLine, reportLine]
  rfl

namespace Request

/-- The lines before the first one that leaves. -/
def staying (lines : List String) : List String :=
  lines.takeWhile fun line => !decide (Leaves line)

/-- The lines behind the first one that leaves. -/
def behind (lines : List String) : List String := lines.drop ((staying lines).length + 1)

variable {line : String} {rest : List String}

theorem staying_cons_of_leaves (h : Leaves line) : staying (line :: rest) = [] :=
  List.takeWhile_cons_of_neg (by simp [h])

theorem staying_cons_of_not_leaves (h : ¬ Leaves line) :
    staying (line :: rest) = line :: staying rest :=
  List.takeWhile_cons_of_pos (by simp [h])

theorem staying_eq_self {lines : List String} (h : ∀ line ∈ lines, ¬ Leaves line) :
    staying lines = lines :=
  List.takeWhile_eq_self_iff.mpr fun line hline => by simp [h line hline]

/-- What stands somewhere before the first line that leaves stands there among all lines. -/
theorem exists_append_of_staying_eq {lines before after : List String}
    (h : staying lines = before ++ line :: after) : ∃ rest, lines = before ++ line :: rest := by
  obtain ⟨rest, hrest⟩ : staying lines <+: lines := List.takeWhile_prefix _
  refine ⟨after ++ rest, ?_⟩
  rw [← hrest, h, List.append_assoc, List.cons_append]

theorem behind_cons_of_leaves (h : Leaves line) : behind (line :: rest) = rest := by
  rw [behind, staying_cons_of_leaves h]
  rfl

/-- A line that does not leave changes nothing about what is left alone. -/
theorem behind_cons_of_not_leaves (h : ¬ Leaves line) : behind (line :: rest) = behind rest := by
  rw [behind, staying_cons_of_not_leaves h]
  rfl

end Request

namespace Session

open Request (Leaves staying behind staying_cons_of_leaves staying_cons_of_not_leaves
  behind_cons_of_leaves behind_cons_of_not_leaves)

variable {limit number : Nat} {line path : String} {lines : List String} {s t u : Session}
  {result : LineResult} {results : List LineResult}

/-! ## One line -/

/-- A line that leaves does nothing else. -/
theorem executeLine_of_leaves (h : Leaves line) :
    s.executeLine limit line = some (.ok .left, s) := by
  rw [executeLine, Request.ofLine_eq_leave_iff.mpr h]
  rfl

/-- No other line has the outcome of leaving. -/
theorem leaves_of_executeLine (h : s.executeLine limit line = some (.ok .left, t)) :
    Leaves line := by
  rw [executeLine] at h
  -- by what the line asks for, which is all that its outcome depends on here
  cases hrequest : Request.ofLine line with
  | leave => exact Request.ofLine_eq_leave_iff.mp hrequest
  | skip | help =>
    rw [hrequest] at h
    simp [fulfil] at h
  | helpOn keyword =>
    rw [hrequest, fulfil] at h
    split at h <;> simp at h
  | command tokens =>
    rw [hrequest, fulfil] at h
    split at h <;> simp at h

/-- A line fails when help is asked for on a keyword that is not known, or with what is wrong with
its words. -/
theorem fault_of_executeLine {fault : Fault}
    (h : s.executeLine limit line = some (.error fault, t)) :
    (∃ keyword, Request.ofLine line = .helpOn keyword ∧
      fault = .of (.commandNotFound keyword)) ∨
    ∃ tokens, Request.ofLine line = .command tokens ∧
      s.catalog.resolve tokens = .error fault := by
  rw [executeLine] at h
  cases hrequest : Request.ofLine line with
  | skip | leave | help =>
    rw [hrequest] at h
    simp [fulfil] at h
  | helpOn keyword =>
    rw [hrequest, fulfil] at h
    split at h
    · obtain ⟨hfault, -⟩ := Prod.mk.inj (Option.some.inj h)
      exact .inl ⟨keyword, rfl, (Except.error.inj hfault).symm⟩
    · simp at h
  | command tokens =>
    rw [hrequest] at h
    cases hresolve : s.catalog.resolve tokens with
    | error fault' =>
      rw [fulfil_command_of_error hresolve] at h
      obtain ⟨hfault, -⟩ := Prod.mk.inj (Option.some.inj h)
      obtain rfl := Except.error.inj hfault
      exact .inr ⟨tokens, rfl, hresolve⟩
    | ok call =>
      rw [fulfil_command_of_ok hresolve] at h
      simp at h

/-- The fault of a line is a mistake in the line, and has no place as long as it is not known where
the line comes from. -/
theorem exists_cause_of_executeLine {fault : Fault}
    (h : s.executeLine limit line = some (.error fault, t)) :
    ∃ cause, fault = .of cause ∧ cause.isInternal = false := by
  rcases fault_of_executeLine h with ⟨keyword, -, hfault⟩ | ⟨tokens, -, hresolve⟩
  · exact ⟨.commandNotFound keyword, hfault, rfl⟩
  · -- the fault of a parameter, which is an internal one, is not among those of a contest
    rcases Catalog.eq_of_resolve_eq_error hresolve with
      rfl | ⟨_, rfl⟩ | ⟨_, _, rfl⟩ | ⟨_, _, rfl⟩ <;> exact ⟨_, rfl, rfl⟩

/-- The fault of a line has no place of its own; it gets one from whoever knows where the line
stands. -/
theorem place_of_executeLine {fault : Fault}
    (h : s.executeLine limit line = some (.error fault, t)) : fault.place = none := by
  obtain ⟨cause, rfl, -⟩ := exists_cause_of_executeLine h
  rfl

/-- A line adds to a session what a call from the outside may add. -/
theorem exists_grows_of_executeLine (h : s.executeLine limit line = some (result, t)) :
    ∃ new, Grows 0 new s t := by
  have hattempt : s.attempt limit (.executeLine line) = some (.executed result, t) := by
    rw [attempt, h]
    rfl
  exact exists_grows_of_attempt hattempt

/-- The session after it is shown what became of a line. -/
def present (s : Session) : LineResult → Session
  | .ok (.help signatures) => s.printHelp signatures
  | .ok _ => s
  | .error fault => s.report fault

/-- Showing what became of a line leaves the catalog alone. -/
@[simp] theorem catalog_present (s : Session) (result : LineResult) :
    (s.present result).catalog = s.catalog := by
  cases result with
  | error fault =>
    rw [present, report]
    cases fault.place <;> rfl
  | ok outcome =>
    cases outcome with
    | help signatures => exact catalog_printLines s _
    | skipped | left | dispatched => rfl

/-- Showing what became of a line leaves alone what is remembered. -/
@[simp] theorem memory_present (s : Session) (result : LineResult) :
    (s.present result).memory = s.memory := by
  cases result with
  | error fault =>
    rw [present, report]
    cases fault.place <;> rfl
  | ok outcome =>
    cases outcome with
    | help signatures => exact memory_printLines s _
    | skipped | left | dispatched => rfl

/-- What is recorded when a session is shown what became of a line. -/
def shownOf : LineResult → List Event
  | .ok (.help signatures) => signatures.map fun signature => .printed ("  " ++ signature ++ "\n")
  | .ok _ => []
  | .error fault => fault.reportLines.map .complained

theorem events_report (s : Session) (fault : Fault) :
    (s.report fault).events = s.events ++ fault.reportLines.map .complained := by
  rw [report, Fault.reportLines]
  cases fault.place <;> simp

/-- What is shown is recorded, and nothing else. -/
theorem events_present (s : Session) (result : LineResult) :
    (s.present result).events = s.events ++ shownOf result := by
  cases result with
  | error fault => exact events_report s fault
  | ok outcome =>
    cases outcome with
    | help signatures =>
      have hprinted := events_printLines s (signatures.map fun signature => "  " ++ signature)
      rw [List.map_map] at hprinted
      exact hprinted
    | skipped | left | dispatched => exact (List.append_nil _).symm

/-- **A dialogue executes a line and shows what became of it**, and goes on unless the line leaves.
That it looks for a blank line first makes no difference. -/
theorem respond_line : s.respond limit (.line line) =
    (s.executeLine limit line).map fun r => (.ok !decide (Leaves line), r.2.present r.1) := by
  rw [respond]
  split
  · next hblank =>
    -- a blank line has no words, so it would be skipped in any case
    have hwords := Text.words_eq_nil_iff.mpr hblank
    have hstays : ¬ Leaves line := by simp [Leaves, hwords]
    have hskip : Request.ofLine line = .skip := by rw [Request.ofLine, hwords]; rfl
    rw [executeLine, hskip]
    simp [fulfil, present, hstays]
  · by_cases hleaves : Leaves line
    · rw [executeLine_of_leaves hleaves]
      simp [present, hleaves]
    · -- any other line that stays: by its outcome, of which some are shown and some are not
      cases hexecute : s.executeLine limit line with
      | none => rfl
      | some r =>
        obtain ⟨result, t⟩ := r
        cases result with
        | error fault => simp [present, hleaves]
        | ok outcome =>
          cases outcome with
          | left => exact absurd (leaves_of_executeLine hexecute) hleaves
          | skipped | help | dispatched => simp [present, hleaves]

/-! ## Lines none of which leaves -/

/-- Lines numbered from some number on are executed one after the other, none of them leaves, and
the session is shown what became of each of them; a fault is given its place first. -/
inductive Passes (limit : Nat) (locate : Nat → String → Fault → Fault) :
    Nat → List String → List LineResult → Session → Session → Prop where
  | nil (number : Nat) (s : Session) : Passes limit locate number [] [] s s
  | cons {number : Nat} {line : String} {lines : List String} {result : LineResult}
      {results : List LineResult} {s t u : Session} (stays : ¬ Leaves line)
      (executed : s.executeLine limit line = some (result, t))
      (rest : Passes limit locate (number + 1) lines results
        (t.present (result.mapError (locate number line))) u) :
      Passes limit locate number (line :: lines) (result :: results) s u

variable {locate : Nat → String → Fault → Fault}

/-- A line that stays and has a result is gone through with this result, and then the rest. -/
theorem passes_cons_iff (hstays : ¬ Leaves line)
    (hexecute : s.executeLine limit line = some (result, t)) :
    Passes limit locate number (line :: lines) results s u ↔
      ∃ rest, results = result :: rest ∧ Passes limit locate (number + 1) lines rest
        (t.present (result.mapError (locate number line))) u := by
  constructor
  · rintro (_ | ⟨-, executed, hrest⟩)
    obtain ⟨rfl, rfl⟩ := Prod.mk.inj (Option.some.inj (hexecute.symm.trans executed))
    exact ⟨_, rfl, hrest⟩
  · rintro ⟨rest, rfl, hrest⟩
    exact .cons hstays hexecute hrest

theorem not_passes_cons (hexecute : s.executeLine limit line = none) :
    ¬ Passes limit locate number (line :: lines) results s u := by
  rintro (_ | ⟨-, executed, -⟩)
  simp [hexecute] at executed

/-- None of the lines that are gone through leaves. -/
theorem Passes.not_leaves (h : Passes limit locate number lines results s t) :
    ∀ line ∈ lines, ¬ Leaves line := by
  induction h with
  | nil => simp
  | cons stays _ _ ih => exact List.forall_mem_cons.mpr ⟨stays, ih⟩

theorem prefix_executeLine (h : s.executeLine limit line = some (result, t)) :
    s.events <+: t.events := by
  obtain ⟨new, hgrows⟩ := exists_grows_of_executeLine h
  rw [hgrows.events_eq]
  exact List.prefix_append _ _

theorem prefix_present (s : Session) (result : LineResult) :
    s.events <+: (s.present result).events := by
  rw [events_present]
  exact List.prefix_append _ _

/-- Going through lines takes nothing from the record. -/
theorem Passes.prefix_events (h : Passes limit locate number lines results s t) :
    s.events <+: t.events := by
  -- along the lines: what each one does, and what is shown of it
  induction h with
  | nil => exact List.prefix_refl _
  | cons _ executed _ ih =>
    exact ((prefix_executeLine executed).trans (prefix_present _ _)).trans ih

/-- **The first line that fails** is reached when the lines before it have been gone through, and
none of those fails. -/
theorem Passes.exists_first_failure (h : Passes limit locate number lines results s t)
    (hfails : 0 < results.countP LineResult.isFailed) :
    ∃ before line after first inner v u, lines = before ++ line :: after ∧
      Passes limit locate number before first s v ∧
      (∀ result ∈ first, LineResult.isFailed result = false) ∧
      ¬ Leaves line ∧ v.executeLine limit line = some (.error inner, u) := by
  -- along the lines, up to the one that counts
  induction h with
  | nil => simp at hfails
  | @cons number line lines result results s w t stays executed _ ih =>
    cases result with
    | error inner =>
      exact ⟨[], line, lines, [], inner, s, w, rfl, .nil number s, by simp, stays, executed⟩
    | ok outcome =>
      -- the first line does not count, so one behind it does
      have hcount : 0 < results.countP LineResult.isFailed := by
        rwa [List.countP_cons_of_neg (by simp [LineResult.isFailed])] at hfails
      obtain ⟨before, last, after, first, inner, v, u, rfl, hbefore, hall, hlast⟩ := ih hcount
      exact ⟨line :: before, last, after, .ok outcome :: first, inner, v, u, rfl,
        .cons stays executed hbefore, List.forall_mem_cons.mpr ⟨rfl, hall⟩, hlast⟩

/-! ## Dialogues -/

/-- Faults are left without a place. -/
def unplaced (_ : Nat) (_ : String) (fault : Fault) : Fault := fault

theorem mapError_unplaced (result : LineResult) :
    result.mapError (unplaced number line) = result := by
  cases result <;> rfl

section Dialogue

variable {settings : Settings} {account account' : Account} {rest : List Reading}

/-- A dialogue ends at a line that leaves, and the readings after it stay unread. -/
theorem converse_of_leaves (h : Leaves line) :
    converse limit settings (.line line :: rest) account s =
      some (.ok (), { accountFor settings s account (.line line) with unread := rest }, s) := by
  rw [converse, respond_line, executeLine_of_leaves h]
  simp [h, present]

/-- A dialogue goes on behind a line that does not leave, in the session that was shown its result.
-/
theorem converse_of_not_leaves (hstays : ¬ Leaves line)
    (hexecute : s.executeLine limit line = some (result, t)) :
    converse limit settings (.line line :: rest) account s =
      converse limit settings rest (accountFor settings s account (.line line))
        (t.present result) := by
  rw [converse, respond_line, hexecute]
  simp [hstays]

/-- A dialogue does not end if one of its lines does not. -/
theorem converse_of_executeLine_eq_none (hexecute : s.executeLine limit line = none) :
    converse limit settings (.line line :: rest) account s = none := by
  rw [converse, respond_line, hexecute]
  rfl

/-- **A dialogue goes through its lines** up to the first one that leaves, and those behind it stay
unread. -/
theorem passes_of_converse {answer : Except Fault Unit} (number : Nat)
    (hunread : account.unread = [])
    (h : converse limit settings (lines.map .line) account s = some (answer, account', t)) :
    answer = .ok () ∧ account'.unread = (behind lines).map .line ∧
      ∃ results, Passes limit unplaced number (staying lines) results s t := by
  -- along the lines; the account of the dialogue grows with each, but only its end can leave some
  -- unread
  induction lines generalizing number account s with
  | nil =>
    simp only [List.map_nil, converse, Option.some.injEq, Prod.mk.injEq] at h
    obtain ⟨rfl, rfl, rfl⟩ := h
    exact ⟨rfl, hunread, [], .nil number s⟩
  | cons line lines ih =>
    rw [List.map_cons] at h
    by_cases hleaves : Leaves line
    · rw [converse_of_leaves hleaves, Option.some.injEq, Prod.mk.injEq, Prod.mk.injEq] at h
      obtain ⟨rfl, rfl, rfl⟩ := h
      rw [behind_cons_of_leaves hleaves, staying_cons_of_leaves hleaves]
      exact ⟨rfl, rfl, [], .nil number s⟩
    · cases hexecute : s.executeLine limit line with
      | none => simp [converse_of_executeLine_eq_none hexecute] at h
      | some r =>
        rw [converse_of_not_leaves hleaves hexecute] at h
        -- nothing counts as unread until the dialogue ends
        have hunread' : (accountFor settings s account (.line line)).unread = [] := hunread
        obtain ⟨hanswer, hbehind, results, hpasses⟩ := ih (number + 1) hunread' h
        rw [behind_cons_of_not_leaves hleaves, staying_cons_of_not_leaves hleaves]
        refine ⟨hanswer, hbehind, r.1 :: results, .cons hleaves hexecute ?_⟩
        rwa [mapError_unplaced]

/-- Lines that can be gone through are a dialogue that ends. -/
theorem exists_converse_of_passes
    (h : Passes limit unplaced number (staying lines) results s t) :
    ∃ account',
      converse limit settings (lines.map .line) account s = some (.ok (), account', t) := by
  induction lines generalizing number account results s with
  | nil =>
    cases h
    exact ⟨_, rfl⟩
  | cons line lines ih =>
    rw [List.map_cons]
    by_cases hleaves : Leaves line
    · rw [staying_cons_of_leaves hleaves] at h
      cases h
      exact ⟨_, converse_of_leaves hleaves⟩
    · rw [staying_cons_of_not_leaves hleaves] at h
      obtain _ | ⟨-, hexecute, hrest⟩ := h
      rw [mapError_unplaced] at hrest
      rw [converse_of_not_leaves hleaves hexecute]
      exact ih hrest

end Dialogue

/-! ## Scripts -/

section Script

variable {stop : Bool} {summary summary' : Summary} {rest : List String} {fault : Fault}

theorem executeLines_of_leaves (h : Leaves line) :
    executeLines limit stop path number (line :: rest) summary s = some (.ok summary, s) := by
  rw [executeLines, executeLine_of_leaves h]

theorem executeLines_of_executeLine_eq_none (hexecute : s.executeLine limit line = none) :
    executeLines limit stop path number (line :: rest) summary s = none := by
  rw [executeLines, hexecute]

/-- A script that is to stop ends at a line that fails, with the fault of that line and its place.
-/
theorem executeLines_of_stop (hexecute : s.executeLine limit line = some (.error fault, t)) :
    executeLines limit true path number (line :: rest) summary s =
      some (.error (scriptFault path number line fault), t) := by
  rw [executeLines, hexecute]
  rfl

/-- A script goes on behind a line that does not leave, unless it is to stop because of it. -/
theorem executeLines_of_goes_on (hstays : ¬ Leaves line)
    (hexecute : s.executeLine limit line = some (result, t))
    (hstop : stop = true → result.isFailed = false) :
    executeLines limit stop path number (line :: rest) summary s =
      executeLines limit stop path (number + 1) rest (summary.after [result])
        (t.present (result.mapError (scriptFault path number line))) := by
  rw [executeLines, hexecute]
  cases result with
  | error fault =>
    cases stop with
    | false => rfl
    | true => simp [LineResult.isFailed] at hstop
  | ok outcome =>
    cases outcome with
    | left => exact absurd (leaves_of_executeLine hexecute) hstays
    | skipped | help | dispatched => rfl

/-- All that a line can do to a script: it ends it, it has no end itself, it makes it stop, or the
script goes on behind it. -/
theorem executeLines_cons_cases (limit : Nat) (stop : Bool) (path : String) (number : Nat)
    (line : String) (rest : List String) (summary : Summary) (s : Session) :
    (Leaves line ∧ executeLines limit stop path number (line :: rest) summary s =
      some (.ok summary, s)) ∨
    (¬ Leaves line ∧ s.executeLine limit line = none ∧
      executeLines limit stop path number (line :: rest) summary s = none) ∨
    (¬ Leaves line ∧ stop = true ∧ ∃ fault t,
      s.executeLine limit line = some (.error fault, t) ∧
      executeLines limit stop path number (line :: rest) summary s =
        some (.error (scriptFault path number line fault), t)) ∨
    (¬ Leaves line ∧ ∃ result t, s.executeLine limit line = some (result, t) ∧
      (stop = true → LineResult.isFailed result = false) ∧
      executeLines limit stop path number (line :: rest) summary s =
        executeLines limit stop path (number + 1) rest (summary.after [result])
          (t.present (result.mapError (scriptFault path number line)))) := by
  by_cases hleaves : Leaves line
  · exact .inl ⟨hleaves, executeLines_of_leaves hleaves⟩
  cases hexecute : s.executeLine limit line with
  | none =>
    exact .inr (.inl ⟨hleaves, rfl, executeLines_of_executeLine_eq_none hexecute⟩)
  | some r =>
    obtain ⟨result, t⟩ := r
    -- the line has a result: the script stops there only if it is to stop and the line has failed
    by_cases hstop : stop = true → LineResult.isFailed result = false
    · exact .inr (.inr (.inr ⟨hleaves, result, t, rfl, hstop,
        executeLines_of_goes_on hleaves hexecute hstop⟩))
    · obtain ⟨rfl, hfailed⟩ := Classical.not_imp.mp hstop
      cases result with
      | ok outcome => exact absurd rfl hfailed
      | error fault =>
        exact .inr (.inr (.inl ⟨hleaves, rfl, fault, t, rfl, executeLines_of_stop hexecute⟩))

/-- A script goes through lines none of which leaves it or makes it stop, and then on with the rest,
as if these had been all its lines so far. -/
theorem executeLines_of_passes {before : List String}
    (h : Passes limit (scriptFault path) number before results s t)
    (hstop : stop = true → ∀ result ∈ results, LineResult.isFailed result = false) :
    executeLines limit stop path number (before ++ rest) summary s =
      executeLines limit stop path (number + before.length) rest (summary.after results) t := by
  -- along the lines, with the number and the counts that have come up so far
  induction before generalizing number summary s results with
  | nil =>
    cases h
    rfl
  | cons line before ih =>
    obtain _ | ⟨hstays, hexecute, hrest⟩ := h
    have hfirst := fun hstop' => (List.forall_mem_cons.mp (hstop hstop')).1
    have hothers := fun hstop' => (List.forall_mem_cons.mp (hstop hstop')).2
    have hnumber : number + 1 + before.length = number + (before.length + 1) := by omega
    rw [List.cons_append, executeLines_of_goes_on hstays hexecute hfirst, ih hrest hothers,
      ← summary.after_cons, hnumber, List.length_cons]

/-- A script without lines gets through, with nothing counted. -/
theorem exists_passes_nil_iff :
    (∃ results, Passes limit (scriptFault path) number [] results s t ∧
      (stop = true → ∀ result ∈ results, LineResult.isFailed result = false) ∧
      summary' = summary.after results) ↔
    (some (.ok summary, s) : Option (Except Fault Summary × Session)) = some (.ok summary', t) := by
  simp only [Option.some.injEq, Prod.mk.injEq, Except.ok.injEq]
  constructor
  · rintro ⟨results, hpasses, -, rfl⟩
    cases hpasses
    exact ⟨rfl, rfl⟩
  · rintro ⟨rfl, rfl⟩
    exact ⟨[], .nil number s, by simp, rfl⟩

/-- **A script gets through** if its lines are gone through up to the first one that leaves, and
none of them fails if it is to stop there. -/
theorem executeLines_eq_ok_iff :
    executeLines limit stop path number lines summary s = some (.ok summary', t) ↔
      ∃ results, Passes limit (scriptFault path) number (staying lines) results s t ∧
        (stop = true → ∀ result ∈ results, LineResult.isFailed result = false) ∧
        summary' = summary.after results := by
  -- along the lines, by the four things that a line can do
  induction lines generalizing number summary s with
  | nil => exact exists_passes_nil_iff.symm
  | cons line lines ih =>
    rcases executeLines_cons_cases limit stop path number line lines summary s with
      ⟨hleaves, heq⟩ | ⟨hstays, hnone, heq⟩ | ⟨hstays, rfl, fault, u, hexecute, heq⟩ |
      ⟨hstays, result, u, hexecute, hstop, heq⟩
    · rw [heq, staying_cons_of_leaves hleaves]
      exact exists_passes_nil_iff.symm
    · rw [heq, staying_cons_of_not_leaves hstays]
      simp [not_passes_cons hnone]
    · -- what was gone through would have a failed line at its beginning
      rw [heq, staying_cons_of_not_leaves hstays]
      refine iff_of_false (by simp) ?_
      rintro ⟨results, hpasses, hall, -⟩
      obtain ⟨rest, rfl, -⟩ := (passes_cons_iff hstays hexecute).mp hpasses
      have hfirst := hall rfl (.error fault) List.mem_cons_self
      simp [LineResult.isFailed] at hfirst
    · -- the script goes on, and what it counts from there comes on top of this line
      rw [heq, ih, staying_cons_of_not_leaves hstays]
      constructor
      · rintro ⟨results, hpasses, hall, rfl⟩
        refine ⟨result :: results, .cons hstays hexecute hpasses, ?_,
          (summary.after_cons result results).symm⟩
        exact fun h => List.forall_mem_cons.mpr ⟨hstop h, hall h⟩
      · rintro ⟨results, hpasses, hall, rfl⟩
        obtain ⟨rest, rfl, hrest⟩ := (passes_cons_iff hstays hexecute).mp hpasses
        exact ⟨rest, hrest, fun h => (List.forall_mem_cons.mp (hall h)).2,
          summary.after_cons result rest⟩

/-- **A script ends with a fault** if it is to stop at the first line that fails and there is one
before any line that leaves; the fault is that line's, with its place. -/
theorem executeLines_eq_error_iff :
    executeLines limit stop path number lines summary s = some (.error fault, t) ↔
      stop = true ∧ ∃ before line after results inner u, lines = before ++ line :: after ∧
        Passes limit (scriptFault path) number before results s u ∧
        (∀ result ∈ results, LineResult.isFailed result = false) ∧
        u.executeLine limit line = some (.error inner, t) ∧
        fault = scriptFault path (number + before.length) line inner := by
  constructor
  · intro h
    induction lines generalizing number summary s with
    | nil => simp [executeLines] at h
    | cons line lines ih =>
      rcases executeLines_cons_cases limit stop path number line lines summary s with
        ⟨-, heq⟩ | ⟨-, -, heq⟩ | ⟨-, rfl, inner, u, hexecute, heq⟩ |
        ⟨hstays, result, u, hexecute, hstop, heq⟩
      · simp [heq] at h
      · simp [heq] at h
      · rw [heq] at h
        obtain ⟨hfault, rfl⟩ := Prod.mk.inj (Option.some.inj h)
        exact ⟨rfl, [], line, lines, [], inner, s, rfl, .nil number s, by simp, hexecute,
          (Except.error.inj hfault).symm⟩
      · rw [heq] at h
        obtain ⟨rfl, before, last, after, results, inner, v, rfl, hpasses, hall, hlast, rfl⟩ := ih h
        refine ⟨rfl, line :: before, last, after, result :: results, inner, v, rfl,
          .cons hstays hexecute hpasses, List.forall_mem_cons.mpr ⟨hstop rfl, hall⟩, hlast, ?_⟩
        rw [List.length_cons, Nat.add_right_comm, Nat.add_assoc]
  · rintro ⟨rfl, before, last, after, results, inner, v, rfl, hpasses, hall, hlast, rfl⟩
    -- the lines before the one that fails do not keep the script from reaching it
    rw [executeLines_of_passes hpasses fun _ => hall]
    exact executeLines_of_stop hlast

end Script

/-! ## Reports -/

/-- All reports, in order. -/
def complaints (s : Session) : List String := s.events.filterMap Event.complaint?

/-- All that commands themselves wrote to the standard error, in order. -/
def warnings (s : Session) : List String := s.events.filterMap Event.warning?

/-- All that went to the standard error: the reports, and between them what commands wrote. -/
def errorTexts (s : Session) : List String := s.events.filterMap Event.errorText?

/-- Nothing was reported between two sessions. Commands may have written what they like. -/
def Quietly (s t : Session) : Prop :=
  ∃ new, t.events = s.events ++ new ∧ ∀ text, .complained text ∉ new

theorem Quietly.refl (s : Session) : s.Quietly s := ⟨[], (List.append_nil _).symm, by simp⟩

/-- Two quiet stretches are a quiet one. -/
theorem Quietly.trans (h : s.Quietly t) (h' : t.Quietly u) : s.Quietly u := by
  obtain ⟨first, hfirst, hquiet⟩ := h
  obtain ⟨second, hsecond, hquiet'⟩ := h'
  refine ⟨first ++ second, by rw [hsecond, hfirst, List.append_assoc], ?_⟩
  intro text hmem
  rcases List.mem_append.mp hmem with hmem | hmem
  · exact hquiet text hmem
  · exact hquiet' text hmem

/-- Whatever a call does, it makes no report. -/
theorem Grows.quietly {depth : Nat} {new : List Event} (h : Grows depth new s t) : s.Quietly t :=
  ⟨new, h.events_eq, h.quiet⟩

theorem OnlyNoted.quietly (h : s.OnlyNoted t) : s.Quietly t := by
  obtain ⟨notes, hgrows⟩ := h.exists_grows 0
  exact hgrows.quietly

theorem quietly_printLines (s : Session) (lines : List String) : s.Quietly (s.printLines lines) :=
  ⟨_, events_printLines s lines, by simp⟩

/-- When nothing is reported, the reports stay as they are. -/
theorem Quietly.complaints_eq (h : s.Quietly t) : t.complaints = s.complaints := by
  obtain ⟨new, hevents, hquiet⟩ := h
  have hnew : new.filterMap Event.complaint? = [] := by
    refine List.filterMap_eq_nil_iff.mpr fun e he => ?_
    cases e with
    | complained text => exact absurd he (hquiet text)
    | _ => rfl
  rw [complaints, hevents, List.filterMap_append, hnew, List.append_nil, complaints]

/-- **When nothing is reported, only commands write to the standard error.** -/
theorem Quietly.exists_warnings_eq (h : s.Quietly t) :
    ∃ written, t.warnings = s.warnings ++ written ∧ t.errorTexts = s.errorTexts ++ written := by
  obtain ⟨new, hevents, hquiet⟩ := h
  have hnew : new.filterMap Event.errorText? = new.filterMap Event.warning? := by
    refine List.filterMap_congr fun e he => ?_
    cases e with
    | complained text => exact absurd he (hquiet text)
    | _ => rfl
  refine ⟨new.filterMap Event.warning?, ?_, ?_⟩
  · rw [warnings, hevents, List.filterMap_append, warnings]
  · rw [errorTexts, hevents, List.filterMap_append, hnew, errorTexts]

/-- If no command has written to the standard error, all that is there are reports. -/
theorem errorTexts_eq_complaints (h : s.warnings = []) : s.errorTexts = s.complaints := by
  refine List.filterMap_congr fun e he => ?_
  cases e with
  | warned text =>
    have hnone := List.filterMap_eq_nil_iff.mp h _ he
    simp [Event.warning?] at hnone
  | _ => rfl

theorem complaints_report (s : Session) (fault : Fault) :
    (s.report fault).complaints = s.complaints ++ fault.reportLines := by
  have hreported : (fault.reportLines.map Event.complained).filterMap Event.complaint? =
      fault.reportLines := by
    rw [List.filterMap_map]
    exact List.filterMap_some
  rw [complaints, events_report, List.filterMap_append, hreported, complaints]

/-- What is shown of a line that does not fail goes to the standard output. -/
theorem quietly_present_ok (s : Session) (outcome : LineOutcome) :
    s.Quietly (s.present (.ok outcome)) := by
  cases outcome with
  | help signatures => exact quietly_printLines s _
  | skipped | left | dispatched => exact .refl s

/-- **What is reported** is one report for each line that fails, in the order of the lines. -/
theorem Passes.complaints_eq (h : Passes limit locate number lines results s t) :
    t.complaints = s.complaints ++ (failures number lines results).flatMap fun f =>
      (locate f.number f.line f.fault).reportLines := by
  -- along the lines: executing one reports nothing, and what is shown of it does if it has failed
  induction h with
  | nil => simp [failures]
  | @cons number line lines result results s t u _ executed _ ih =>
    obtain ⟨new, hgrows⟩ := exists_grows_of_executeLine executed
    cases result with
    | error fault =>
      -- the report of this line comes between what was reported before it and behind it
      rw [ih, Except.mapError, present, complaints_report, hgrows.quietly.complaints_eq, failures,
        List.flatMap_cons, List.append_assoc]
    | ok outcome =>
      have hshown := hgrows.quietly.trans (quietly_present_ok t outcome)
      rw [ih, Except.mapError, hshown.complaints_eq, failures]

/-- Nothing is reported if no line fails. -/
theorem Passes.quietly_of_succeeded (h : Passes limit locate number lines results s t)
    (hall : ∀ result ∈ results, LineResult.isFailed result = false) : s.Quietly t := by
  -- along the lines, each of which is executed and shown without a report
  induction h with
  | nil _ s => exact .refl s
  | @cons number line lines result results s t u _ executed _ ih =>
    obtain ⟨hfirst, hothers⟩ := List.forall_mem_cons.mp hall
    obtain ⟨new, hgrows⟩ := exists_grows_of_executeLine executed
    cases result with
    | error fault => simp [LineResult.isFailed] at hfirst
    | ok outcome => exact hgrows.quietly.trans ((quietly_present_ok t outcome).trans (ih hothers))

/-- Faults have no place before they are given one. -/
theorem Passes.place_eq_none (h : Passes limit locate number lines results s t) :
    ∀ f ∈ failures number lines results, f.fault.place = none := by
  induction h with
  | nil => simp [failures]
  | @cons number line lines result results s t u _ executed _ ih =>
    cases result with
    | error fault =>
      rw [failures]
      exact List.forall_mem_cons.mpr ⟨place_of_executeLine executed, ih⟩
    | ok outcome => rwa [failures]

end Session

end CommandShell
