import CommandShell.Proofs.Dialogues
import CommandShell.Proofs.Scripts
import CommandShell.Proofs.Twins

/-!
# How the program ends

The arguments, the scripts and the readings decide between them how the program ends, and each of
them only when those before it leave it open. The commands of the program do next to nothing, so the
program always comes to an end, and where it ends is found by following the scripts and then the
dialogue.

The program has a message for scripts that ran unattended and in which lines failed. It is never
seen: an unattended script stops at the first line that fails, and its fault is what is reported.

Main results:

* `Session.exists_executeLine`: lines come to their end, and with them scripts and dialogues;
* `Reading.exists_ending_eq_error_iff`: a dialogue fails if it reaches a reading that failed;
* `Program.outcome_of_run`: how the program ends.
-/

namespace CommandShell

/-! ## Commands that do next to nothing -/

/-- The command takes no more than one step, and only prints. -/
def Command.Brief (c : Command) : Prop :=
  ∀ args, c.action args = [] ∨ ∃ text, c.action args = [.print text]

/-- A demo command prints its phrase, or nothing if its arguments are not what the phrase needs. -/
theorem Demo.brief_command (e : Demo.Entry) : e.command.Brief := by
  intro args
  have haction : e.command.action args =
    (Demo.render? args e.phrase).toList.map fun text => .print (text ++ "\n") := rfl
  rw [haction]
  cases Demo.render? args e.phrase with
  | none => exact .inl rfl
  | some text => exact .inr ⟨text ++ "\n", rfl⟩

/-- A call is one of a command of the catalog. -/
theorem Catalog.mem_commands_of_resolve {catalog : Catalog} {tokens : List String}
    {call : Invocation} (h : catalog.resolve tokens = .ok call) :
    call.command ∈ catalog.commands := by
  obtain ⟨keyword, -, hleads, -⟩ := resolve_eq_ok_iff.mp h
  have hover := (mem_suitable_iff.mp hleads.mem).1
  exact (List.mem_filter.mp hover).1

/-- **A dialogue fails if it reaches a reading that failed**, which no reading before it may keep it
from. -/
theorem Reading.exists_ending_eq_error_iff (readings : List Reading) :
    (∃ fault, ending readings = .error fault) ↔ ∃ before message after,
      readings = before ++ .failed message :: after ∧ ∀ r ∈ before, r.GoesOn := by
  simp only [ending_eq_error_iff, List.find?_eq_some_iff_append]
  constructor
  · rintro ⟨-, message, ⟨-, before, after, rfl, hbefore⟩, -⟩
    exact ⟨before, message, after, rfl, by simpa using hbefore⟩
  · rintro ⟨before, message, after, rfl, hbefore⟩
    have hends : (!decide (GoesOn (.failed message))) = true := rfl
    exact ⟨_, message, ⟨hends, before, after, rfl, by simpa using hbefore⟩, rfl⟩

namespace Session

variable {s t u : Session}

/-- Between two sessions no command has become known, and none has written to the standard error. -/
structure Steady (s t : Session) : Prop where
  catalog_eq : t.catalog = s.catalog
  warnings_eq : t.warnings = s.warnings

theorem Steady.refl (s : Session) : s.Steady s := ⟨rfl, rfl⟩

theorem Steady.trans (h : s.Steady t) (h' : t.Steady u) : s.Steady u :=
  ⟨h'.catalog_eq.trans h.catalog_eq, h'.warnings_eq.trans h.warnings_eq⟩

/-- Sessions are steady when none of the events between them is what a command wrote there. -/
theorem steady_of_events_eq {new : List Event} (hcatalog : t.catalog = s.catalog)
    (hevents : t.events = s.events ++ new) (hnew : new.filterMap Event.warning? = []) :
    s.Steady t := by
  refine ⟨hcatalog, ?_⟩
  rw [warnings, hevents, List.filterMap_append, hnew, List.append_nil, warnings]

theorem OnlyNoted.steady (h : s.OnlyNoted t) : s.Steady t := by
  obtain ⟨notes, hevents⟩ := h.events_eq
  exact steady_of_events_eq h.catalog_eq hevents (Event.filterMap_map_noted (fun _ => rfl) notes)

theorem steady_printLines (s : Session) (lines : List String) : s.Steady (s.printLines lines) := by
  refine steady_of_events_eq (catalog_printLines s lines) (events_printLines s lines) ?_
  rw [List.filterMap_map]
  exact List.filterMap_eq_nil_iff.mpr fun _ _ => rfl

/-- A report is made by the session, so it does not count as written by a command. -/
theorem steady_present (s : Session) (result : LineResult) : s.Steady (s.present result) := by
  cases result with
  | error fault =>
    refine steady_of_events_eq (catalog_present s _) (events_present s (.error fault)) ?_
    rw [shownOf, List.filterMap_map]
    exact List.filterMap_eq_nil_iff.mpr fun _ _ => rfl
  | ok outcome =>
    cases outcome with
    | help signatures => exact steady_printLines s _
    | skipped | left | dispatched => exact .refl s

/-- All commands do next to nothing. -/
def Brief (s : Session) : Prop := ∀ c ∈ s.catalog.commands, c.Brief

/-- Commands that do next to nothing still do so when no other has become known. -/
theorem Brief.of_steady (h : s.Brief) (hsteady : s.Steady t) : t.Brief := by
  rw [Brief, hsteady.catalog_eq]
  exact h

/-- A call of a command that does next to nothing comes to its end within two steps. -/
theorem exists_invoke (limit : Nat) {call : Invocation} (h : call.command.Brief) (s : Session) :
    ∃ t, s.invoke (limit + 2) call = some t ∧ s.Steady t := by
  have hentered : s.Steady (s.enter 0 call) := steady_of_events_eq rfl rfl rfl
  -- either there is no step, or there is one, and one more is allowed for the end of the steps
  rcases h call.args with hnothing | ⟨text, hprint⟩
  · refine ⟨s.enter 0 call, ?_, hentered⟩
    rw [invoke, hnothing]
    rfl
  · have hprinted : (s.enter 0 call).Steady ((s.enter 0 call).print text) :=
      steady_of_events_eq rfl rfl rfl
    refine ⟨(s.enter 0 call).print text, ?_, hentered.trans hprinted⟩
    rw [invoke, hprint]
    rfl

/-- A line comes to its end, and changes next to nothing. -/
theorem exists_executeLine (limit : Nat) (h : s.Brief) (line : String) :
    ∃ result t, s.executeLine (limit + 2) line = some (result, t) ∧ s.Steady t := by
  rw [executeLine]
  -- all requests but one are answered by the session itself, without a step
  cases Request.ofLine line with
  | skip | leave | help => exact ⟨_, s, rfl, .refl s⟩
  | helpOn keyword =>
    rw [fulfil]
    cases s.catalog.usage keyword <;> exact ⟨_, s, rfl, .refl s⟩
  | command tokens =>
    -- neither the notes on the search nor the call change the catalog
    have hconsidered : s.Steady (s.considered tokens) := (onlyNoted_considered s tokens).steady
    cases hresolve : s.catalog.resolve tokens with
    | error fault => exact ⟨_, _, fulfil_command_of_error hresolve, hconsidered⟩
    | ok call =>
      have hbrief := h call.command (Catalog.mem_commands_of_resolve hresolve)
      obtain ⟨t, hinvoke, hcalled⟩ := exists_invoke limit hbrief (s.considered tokens)
      refine ⟨.ok (.dispatched call), t.note (.executed call.command.signature), ?_,
        (hconsidered.trans hcalled).trans (onlyNoted_note t _).steady⟩
      rw [fulfil_command_of_ok hresolve, hinvoke]
      rfl

/-! ## Scripts come to their end -/

/-- The lines of a script come to their end, or stop at one that fails. -/
theorem exists_executeLines (limit : Nat) (h : s.Brief) (stop : Bool) (path : String)
    (number : Nat) (lines : List String) (summary : Summary) :
    ∃ outcome t, executeLines (limit + 2) stop path number lines summary s = some (outcome, t) ∧
      s.Steady t := by
  -- along the lines; each leaves a session in which commands still do next to nothing
  induction lines generalizing number summary s with
  | nil => exact ⟨_, s, rfl, .refl s⟩
  | cons line lines ih =>
    obtain ⟨result, u, hexecute, hline⟩ := exists_executeLine limit h line
    rcases executeLines_cons_cases (limit + 2) stop path number line lines summary s with
      ⟨-, heq⟩ | ⟨-, hnone, -⟩ | ⟨-, -, fault, v, hexecute', heq⟩ |
      ⟨-, result', v, hexecute', -, heq⟩
    · exact ⟨_, s, heq, .refl s⟩
    · simp [hexecute] at hnone
    · obtain ⟨-, rfl⟩ := Prod.mk.inj (Option.some.inj (hexecute.symm.trans hexecute'))
      exact ⟨_, u, heq, hline⟩
    · obtain ⟨rfl, rfl⟩ := Prod.mk.inj (Option.some.inj (hexecute.symm.trans hexecute'))
      have hafter := hline.trans (steady_present u (result.mapError (scriptFault path number line)))
      obtain ⟨outcome, t, hrest, ht⟩ :=
        ih (h.of_steady hafter) (number + 1) (summary.after [result])
      exact ⟨outcome, t, heq.trans hrest, hafter.trans ht⟩

/-- A script comes to its end, also when its file cannot be read. -/
theorem exists_executeScript (limit : Nat) (h : s.Brief) (settings : Settings)
    (files : FileReader) (path : String) :
    ∃ outcome t, s.executeScript (limit + 2) settings files path = some (outcome, t) ∧
      s.Steady t := by
  cases hfile : files path with
  | error failure => exact ⟨_, s, executeScript_of_unreadable hfile, .refl s⟩
  | ok text =>
    have hbegun : s.Steady (s.note (.runningScript path)) := (onlyNoted_note s _).steady
    obtain ⟨outcome, t, hlines, ht⟩ := exists_executeLines limit (h.of_steady hbegun)
      settings.stopOnError path 1 (Text.lines text) {}
    exact ⟨outcome, t, (executeScript_of_readable hfile).trans hlines, hbegun.trans ht⟩

/-! ## Dialogues come to their end -/

/-- A reading comes to its end, whatever it is. -/
theorem exists_answer (limit : Nat) (h : s.Brief) (reading : Reading) :
    ∃ t, s.answer (limit + 2) reading = some t ∧ s.Steady t := by
  cases reading with
  | ended | failed => exact ⟨s, rfl, .refl s⟩
  | interrupted => exact ⟨s.print "\n", rfl, steady_of_events_eq rfl rfl rfl⟩
  | line text =>
    obtain ⟨result, t, hexecute, hline⟩ := exists_executeLine limit h text
    refine ⟨t.present result, ?_, hline.trans (steady_present t result)⟩
    rw [answer, hexecute]
    rfl

/-- So do readings one after the other. -/
theorem exists_answerAll (limit : Nat) (h : s.Brief) (readings : List Reading) :
    ∃ t, answerAll (limit + 2) readings s = some t := by
  -- along the readings, as long as commands do next to nothing
  induction readings generalizing s with
  | nil => exact ⟨s, rfl⟩
  | cons reading rest ih =>
    obtain ⟨u, hanswer, hsteady⟩ := exists_answer limit h reading
    obtain ⟨t, hrest⟩ := ih (h.of_steady hsteady)
    refine ⟨t, ?_⟩
    rw [answerAll, hanswer]
    exact hrest

/-- A dialogue comes to its end, and fails exactly if it reaches a reading that failed. -/
theorem exists_run (limit : Nat) (h : s.Brief) (settings : Settings) (readings : List Reading) :
    ∃ answer account t, s.run (limit + 2) settings readings = some (answer, account, t) ∧
      ((∃ fault, answer = .error fault) ↔ ∃ before message after,
        readings = before ++ .failed message :: after ∧ ∀ r ∈ before, r.GoesOn) := by
  have hgreeted : (s.greet settings).Brief := by
    refine h.of_steady ?_
    rw [greet]
    split
    · exact steady_printLines s _
    · exact .refl s
  obtain ⟨t, hanswers⟩ := exists_answerAll limit hgreeted (Reading.asked readings)
  have hfails := Reading.exists_ending_eq_error_iff readings
  -- what the dialogue answers is decided by its readings alone
  rw [run, converse_eq rfl, hanswers, Option.map_some]
  cases hending : Reading.ending readings with
  | error fault => exact ⟨_, _, t, rfl, hending ▸ hfails⟩
  | ok _ => exact ⟨_, _, t.bidFarewell, rfl, hending ▸ hfails⟩

end Session

/-! ## Wordings -/

/-- The wording of a cause begins with a letter. -/
theorem Cause.exists_head_message (cause : Cause) :
    ∃ c, cause.message.toList.head? = some c ∧ c.isDigit = false := by
  -- one cause has a wording without any names, and all others begin with a word of their own
  unfold message
  cases cause with
  | emptyInput => exact ⟨'e', by decide, by decide⟩
  | _ => simp [String.toList_append]

/-- No fault is worded like a count of lines. -/
theorem Fault.message_ne_count (fault : Fault) (n : Nat) :
    fault.message ≠ toString n ++ " line(s) failed" := by
  intro heq
  obtain ⟨c, hhead, hletter⟩ := fault.cause.exists_head_message
  -- a count begins with a digit, so the two begin differently
  obtain ⟨d, ds, hdigits⟩ := List.exists_cons_of_ne_nil (@Nat.toDigits_ne_nil n 10)
  have hdigit : d.isDigit = true :=
    Nat.isDigit_of_mem_toDigits (by decide) (Nat.le_refl 10) (hdigits ▸ List.mem_cons_self)
  have hcount : (toString n).toList = d :: ds := String.toList_ofList.trans hdigits
  rw [message] at heq
  rw [heq, String.toList_append, hcount, List.cons_append, List.head?_cons] at hhead
  simp [← Option.some.inj hhead, hdigit] at hletter

namespace Program

open Session (Brief ScriptFails)

variable {limit : Nat} {rendering : Note → String} {arguments : List String} {files : FileReader}
  {readings : List Reading} {o : Options} {s t : Session} {fault : Fault}

/-! ## Scripts one after the other -/

/-- The program knows the demo commands only. -/
theorem brief_prepare : prepare.Brief := by
  intro c hc
  have hcommands : prepare.catalog.commands = Demo.entries.map Demo.Entry.command :=
    Demo.commands_register (Session.start .empty)
  rw [hcommands] at hc
  obtain ⟨e, -, rfl⟩ := List.mem_map.mp hc
  exact Demo.brief_command e

/-- Scripts one after the other come to their end, or to the first that does not get through. -/
theorem exists_runScripts (limit : Nat) (h : s.Brief) (settings : Settings) (files : FileReader)
    (paths : List String) (failed : Nat) :
    ∃ outcome t, runScripts (limit + 2) settings files paths failed s = some (outcome, t) ∧
      s.Steady t := by
  -- along the paths, with the number of failed lines so far
  induction paths generalizing failed s with
  | nil => exact ⟨_, s, rfl, .refl s⟩
  | cons path paths ih =>
    obtain ⟨outcome, u, hscript, hsteady⟩ :=
      Session.exists_executeScript limit h settings files path
    rw [runScripts_cons, hscript]
    cases outcome with
    | error fault => exact ⟨_, u, rfl, hsteady⟩
    | ok summary =>
      obtain ⟨outcome, t, hrest, ht⟩ := ih (h.of_steady hsteady) (failed + summary.failed)
      exact ⟨outcome, t, hrest, hsteady.trans ht⟩

/-! ## What is left behind -/

/-- What the program leaves behind when it ends in a session. -/
def leave (rendering : Note → String) (o : Options) (status : Status) (s : Session) : Outcome :=
  ⟨status, s.output, (noteFilter o).errorOutput rendering s⟩

/-- When its arguments make sense, the program leaves behind what it has done in a session. -/
theorem run_eq_of_parse (h : Options.parse arguments = .ok o) :
    run limit rendering arguments files readings =
      (runWith limit o files readings).map fun r => leave rendering o r.1 r.2 := by
  rw [run, h]
  rfl

/-- The settings stop a script at a failing line if either of two options was given. -/
theorem stopOnError_settings (o : Options) :
    o.settings.stopOnError = (o.batch || o.stopOnError) := by
  cases hbatch : o.batch <;> simp [Options.settings, hbatch, Settings.batch, Settings.interactive]

section Launch

variable (hhelp : o.help = false) (hversion : o.version = false)

include hhelp hversion

/-- A script that does not get through ends the program before any reading. -/
theorem runWith_of_fails
    (h : runScripts limit o.settings files o.files 0 prepare = some (.error fault, t)) :
    runWith limit o files readings = some (.failure, fail t fault.message) := by
  simp [runWith, launch, selfReport?, hhelp, hversion, h, afterScripts]

/-- An unattended program ends when its scripts have got through without a failed line. -/
theorem runWith_of_batch (hbatch : o.batch = true)
    (h : runScripts limit o.settings files o.files 0 prepare = some (.ok 0, t)) :
    runWith limit o files readings = some (.success, t) := by
  simp [runWith, launch, selfReport?, hhelp, hversion, h, afterScripts, hbatch]

theorem runWith_of_dialogue {failed : Nat} {answer : Except Fault Unit} {account : Account}
    {u : Session} (hbatch : o.batch = false)
    (h : runScripts limit o.settings files o.files 0 prepare = some (.ok failed, t))
    (hrun : t.run limit o.settings readings = some (answer, account, u)) :
    runWith limit o files readings = some (close answer u) := by
  simp [runWith, launch, selfReport?, hhelp, hversion, h, afterScripts, hbatch, hrun]

end Launch

theorem code_close_eq_one_iff {answer : Except Fault Unit} :
    (close answer s).1.code = 1 ↔ ∃ fault, answer = .error fault := by
  cases answer <;> simp [close, Status.code]

/-- What is printed leaves the standard error empty. -/
theorem errorOutput_printLines (filter : NoteFilter) (rendering : Note → String)
    (lines : List String) :
    filter.errorOutput rendering ((Session.start .empty).printLines lines) = "" := by
  rw [NoteFilter.errorOutput, Session.events_printLines]
  simp only [Session.start, List.nil_append, List.map_map]
  induction lines with
  | nil => rfl
  | cons line lines ih =>
    rw [List.map_cons, String.join_cons, ih]
    rfl

theorem leave_printLines (rendering : Note → String) (o : Options) (lines : List String) :
    leave rendering o .success ((Session.start .empty).printLines lines) =
      ⟨.success, String.join (lines.map fun line => line ++ "\n"), ""⟩ := by
  rw [leave, errorOutput_printLines, Session.output, Session.events_printLines]
  simp [Session.start, Session.outputOf, Function.comp_def]

/-- What the program says when it is asked about itself. -/
def answerLines (o : Options) : List String :=
  if o.help then helpLines else ["keyline " ++ CommandShell.version]

/-- A program that is asked about itself prints the answer and does nothing else. -/
theorem runWith_of_asked (hasked : o.help = true ∨ o.version = true) :
    runWith limit o files readings =
      some (.success, (Session.start .empty).printLines (answerLines o)) := by
  have hreport : selfReport? o = some (answerLines o) := by
    rw [selfReport?, answerLines]
    cases hhelp : o.help with
    | true => rfl
    | false =>
      have hversion : o.version = true := by simpa [hhelp] using hasked
      rw [hversion]
      rfl
  rw [runWith, launch, hreport]

/-- **How the program ends.** If its arguments make no sense it fails, whatever the files and the
readings are. Otherwise, if it was asked for help or its version, it succeeds and says that,
whatever they are. Otherwise the scripts run in the order of the arguments in one session. The first
of them that does not get through ends the program, which fails with that script's fault, whatever
the readings are: the file cannot be read, or scripts stop at a line that fails, as either of two
options says, and a line fails. If all get through and the program runs unattended, no line has
failed and it succeeds, whatever the readings are. Otherwise the dialogue follows, and the program
fails exactly if a reading that failed comes before the end of the input and before any line that
leaves. No fault is worded as a count of lines. -/
theorem outcome_of_run (limit : Nat) (rendering : Note → String) (arguments : List String)
    (files : FileReader) (readings : List Reading) :
    (∀ e, Options.parse arguments = .error e → ∀ files readings,
      run (limit + 2) rendering arguments files readings =
        some ⟨.failure, "", redLine ("Error: " ++ e.message)⟩) ∧
    ∀ o, Options.parse arguments = .ok o →
      (o.help = true ∨ o.version = true → ∀ files readings,
        run (limit + 2) rendering arguments files readings =
          some ⟨.success, String.join ((answerLines o).map fun line => line ++ "\n"), ""⟩) ∧
      (o.help = false → o.version = false →
        o.settings.stopOnError = (o.batch || o.stopOnError) ∧
        (∀ (fault : Fault) (n : Nat), fault.message ≠ toString n ++ " line(s) failed") ∧
        ((∃ before path after results s fault t, o.files = before ++ path :: after ∧
            ScriptsPass (limit + 2) o.settings files before results prepare s ∧
            ScriptFails (limit + 2) o.settings files path s fault t ∧
            ∀ readings, run (limit + 2) rendering arguments files readings =
              some (leave rendering o .failure (fail t fault.message))) ∨
          ∃ results s, ScriptsPass (limit + 2) o.settings files o.files results prepare s ∧
            (o.batch = true → results.countP LineResult.isFailed = 0 ∧
              ∀ readings, run (limit + 2) rendering arguments files readings =
                some (leave rendering o .success s)) ∧
            (o.batch = false → ∃ answer account t,
              s.run (limit + 2) o.settings readings = some (answer, account, t) ∧
              run (limit + 2) rendering arguments files readings =
                some (leave rendering o (close answer t).1 (close answer t).2) ∧
              ((close answer t).1.code = 1 ↔ ∃ before message after,
                readings = before ++ .failed message :: after ∧ ∀ r ∈ before, r.GoesOn)))) := by
  refine ⟨?_, ?_⟩
  · -- the mistake is reported before there is any session
    intro e hparse files readings
    rw [run, hparse]
    simp [fail, Session.output, Session.start, Session.outputOf, NoteFilter.errorOutput,
      NoteFilter.errorOutputOf]
  intro o hparse
  refine ⟨?_, ?_⟩
  · -- an answer about the program itself comes before any file is looked at
    intro hasked files readings
    rw [run_eq_of_parse hparse, runWith_of_asked hasked, Option.map_some, leave_printLines]
  · intro hhelp hversion
    refine ⟨stopOnError_settings o, Fault.message_ne_count, ?_⟩
    -- whether all scripts get through is settled before any reading, and so before the cases below
    obtain ⟨outcome, t, hscripts, hsteady⟩ :=
      exists_runScripts limit brief_prepare o.settings files o.files 0
    cases outcome with
    | error fault =>
      obtain ⟨before, path, after, results, s, hfiles, hbefore, hfails⟩ :=
        runScripts_eq_error_iff.mp hscripts
      refine .inl ⟨before, path, after, results, s, fault, t, hfiles, hbefore, hfails, ?_⟩
      intro readings
      rw [run_eq_of_parse hparse, runWith_of_fails hhelp hversion hscripts]
      rfl
    | ok failed =>
      obtain ⟨results, hpass, rfl⟩ := runScripts_eq_ok_iff.mp hscripts
      refine .inr ⟨results, t, hpass, ?_, ?_⟩
      · intro hbatch
        -- a script that stops at a failing line has none when it gets through
        have hstop : o.settings.stopOnError = true := by
          rw [stopOnError_settings, hbatch, Bool.true_or]
        have hnone : results.countP LineResult.isFailed = 0 :=
          List.countP_eq_zero.mpr fun result hresult => by
            simp [hpass.succeeded hstop result hresult]
        refine ⟨hnone, fun readings => ?_⟩
        rw [hnone] at hscripts
        rw [run_eq_of_parse hparse, runWith_of_batch hhelp hversion hbatch hscripts]
        rfl
      · intro hbatch
        obtain ⟨answer, account, u, hrun, hfails⟩ :=
          Session.exists_run limit (brief_prepare.of_steady hsteady) o.settings readings
        refine ⟨answer, account, u, hrun, ?_, code_close_eq_one_iff.trans hfails⟩
        rw [run_eq_of_parse hparse, runWith_of_dialogue hhelp hversion hbatch hscripts hrun]
        rfl

end Program

end CommandShell
