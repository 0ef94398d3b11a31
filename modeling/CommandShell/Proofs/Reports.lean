import CommandShell.Proofs.FirstFailure
import CommandShell.Proofs.ProgramOutcome

/-!
# Where a failing line is reported

A line of a script that fails is given its place, and there are two ways for its fault to reach the
standard error. A script that goes on reports the fault on the spot, with the place on a line of its
own, and nothing that happens later takes a report back. A script that stops hands the fault on to
the program, which fails with its message. There the place is lost.

Main definitions:

* `Program.FailsAt`: a line of a script is executed and fails.

Main results:

* `Session.prefix_run` and its companions: the record only grows;
* `Program.FailsAt.reported`, `Program.FailsAt.stops`: the two ways of a fault;
* `Program.reported_with_place_iff`: a fault is reported with its place if no script is to stop.
-/

namespace CommandShell

namespace Session

open Request (Leaves)

variable {limit number : Nat} {settings : Settings} {files : FileReader} {line path : String}
  {lines : List String} {stop : Bool} {summary : Summary} {fault : Fault} {s t u : Session}

/-! ## The record only grows -/

/-- The lines of a script take nothing from the record. -/
theorem prefix_executeLines {outcome : Except Fault Summary}
    (h : executeLines limit stop path number lines summary s = some (outcome, t)) :
    s.events <+: t.events := by
  cases outcome with
  | ok summary' =>
    obtain ⟨results, hpasses, -, -⟩ := executeLines_eq_ok_iff.mp h
    exact hpasses.prefix_events
  | error fault =>
    obtain ⟨-, before, line, after, results, inner, v, -, hpasses, -, hline, -⟩ :=
      executeLines_eq_error_iff.mp h
    exact hpasses.prefix_events.trans (prefix_executeLine hline)

/-- A script takes nothing from the record. -/
theorem prefix_executeScript {outcome : Except Fault Summary}
    (h : s.executeScript limit settings files path = some (outcome, t)) :
    s.events <+: t.events := by
  cases hfile : files path with
  | error failure =>
    rw [executeScript_of_unreadable hfile] at h
    obtain ⟨-, rfl⟩ := Prod.mk.inj (Option.some.inj h)
    exact List.prefix_refl _
  | ok text =>
    rw [executeScript_of_readable hfile] at h
    exact (List.prefix_append s.events _).trans (prefix_executeLines h)

/-- The answer to a reading takes nothing from the record. -/
theorem prefix_answer {reading : Reading} (h : s.answer limit reading = some t) :
    s.events <+: t.events := by
  cases reading with
  | line text =>
    obtain ⟨⟨result, u⟩, hexecute, rfl⟩ := Option.map_eq_some_iff.mp h
    exact (prefix_executeLine hexecute).trans (prefix_present u result)
  | interrupted =>
    obtain rfl := Option.some.inj h
    exact List.prefix_append _ _
  | ended | failed =>
    obtain rfl := Option.some.inj h
    exact List.prefix_refl _

/-- Neither do the answers to readings one after the other. -/
theorem prefix_answerAll {readings : List Reading} (h : answerAll limit readings s = some t) :
    s.events <+: t.events := by
  induction readings generalizing s with
  | nil =>
    obtain rfl := Option.some.inj h
    exact List.prefix_refl _
  | cons reading rest ih =>
    obtain ⟨u, hanswer, hrest⟩ := Option.bind_eq_some_iff.mp h
    exact (prefix_answer hanswer).trans (ih hrest)

theorem prefix_printLines (s : Session) (lines : List String) :
    s.events <+: (s.printLines lines).events := by
  rw [events_printLines]
  exact List.prefix_append _ _

theorem prefix_greet (s : Session) (settings : Settings) :
    s.events <+: (s.greet settings).events := by
  rw [greet]
  split
  · exact prefix_printLines s _
  · exact List.prefix_refl _

/-- A dialogue takes nothing from the record. -/
theorem prefix_run {readings : List Reading} {answer : Except Fault Unit} {account : Account}
    (h : s.run limit settings readings = some (answer, account, t)) : s.events <+: t.events := by
  rw [run, converse_eq rfl] at h
  cases hanswers : answerAll limit (Reading.asked readings) (s.greet settings) with
  | none => simp [hanswers] at h
  | some u =>
    have hbefore : s.events <+: u.events :=
      (prefix_greet s settings).trans (prefix_answerAll hanswers)
    rw [hanswers, Option.map_some] at h
    -- the last words come only if there is no fault, and behind all that was recorded
    cases hending : Reading.ending readings with
    | error fault =>
      rw [hending] at h
      obtain ⟨-, -, rfl⟩ := h
      exact hbefore
    | ok _ =>
      rw [hending] at h
      obtain ⟨-, -, rfl⟩ := h
      exact hbefore.trans (prefix_printLines u _)

/-! ## A line that fails in a script -/

/-- In a script a line is executed and fails: the lines before it are gone through, and none of them
fails if the script is to stop there. -/
inductive LineFails (limit : Nat) (settings : Settings) (files : FileReader) (path : String) :
    Session → Nat → String → Fault → Session → Prop where
  | intro {text line : String} {before after : List String} {results : List LineResult}
      {fault : Fault} {s t u : Session} (read : files path = .ok text)
      (split : Text.lines text = before ++ line :: after)
      (passes : Passes limit (scriptFault path) 1 before results (s.note (.runningScript path)) t)
      (succeeded : settings.stopOnError = true →
        ∀ result ∈ results, LineResult.isFailed result = false)
      (failed : t.executeLine limit line = some (.error fault, u)) :
      LineFails limit settings files path s (before.length + 1) line fault u

/-- A script that is to stop ends with the line that fails, and has reported nothing. -/
theorem LineFails.stops (h : LineFails limit settings files path s number line fault u)
    (hstop : settings.stopOnError = true) :
    ScriptFails limit settings files path s (scriptFault path number line fault) u ∧
      s.Quietly u := by
  obtain ⟨hread, hsplit, hpasses, hsucceeded, hfailed⟩ := h
  constructor
  · rw [Nat.add_comm]
    exact .failing hstop hread hsplit hpasses (hsucceeded hstop) hfailed
  · have hreached := hpasses.quietly_of_succeeded (hsucceeded hstop)
    exact (onlyNoted_note s _).quietly.trans
      (hreached.trans (onlyNoted_of_executeLine hfailed).quietly)

/-- A script that is not to stop reports the line that fails, and then goes on. -/
theorem LineFails.reported {outcome : Except Fault Summary}
    (h : LineFails limit settings files path s number line fault u)
    (hstop : settings.stopOnError = false)
    (hscript : s.executeScript limit settings files path = some (outcome, t)) :
    (u.report (scriptFault path number line fault)).events <+: t.events := by
  obtain ⟨hread, hsplit, hpasses, hsucceeded, hfailed⟩ := h
  have hstays : ¬ Leaves line := by
    intro hleaves
    simp [executeLine_of_leaves hleaves] at hfailed
  rw [executeScript_of_readable hread, hsplit, executeLines_of_passes hpasses hsucceeded,
    executeLines_of_goes_on hstays hfailed (by simp [hstop]), Nat.add_comm 1] at hscript
  exact prefix_executeLines hscript

end Session

namespace Program

open Session (LineFails prefix_executeScript prefix_run)

variable {limit failed number : Nat} {o : Options} {settings : Settings} {files : FileReader}
  {arguments paths : List String} {path line : String} {readings : List Reading}
  {results : List LineResult} {outcome : Except Fault Nat} {fault : Fault} {s t u : Session}

/-! ## What comes behind a report -/

/-- Scripts one after the other take nothing from the record. -/
theorem prefix_runScripts
    (h : runScripts limit settings files paths failed s = some (outcome, t)) :
    s.events <+: t.events := by
  -- along the paths, up to a script that does not get through
  induction paths generalizing failed s with
  | nil =>
    obtain ⟨-, rfl⟩ := Prod.mk.inj (Option.some.inj h)
    exact List.prefix_refl _
  | cons path paths ih =>
    rw [runScripts_cons] at h
    split at h
    · simp at h
    · next fault v hscript =>
      obtain ⟨-, rfl⟩ := Prod.mk.inj (Option.some.inj h)
      exact prefix_executeScript hscript
    · next summary v hscript => exact (prefix_executeScript hscript).trans (ih h)

theorem prefix_close (answer : Except Fault Unit) (s : Session) :
    s.events <+: (close answer s).2.events := by
  cases answer with
  | ok _ => exact List.prefix_refl _
  | error fault => exact List.prefix_append _ _

/-- Attended, the program comes to an end behind its scripts, and what they recorded stays. -/
theorem exists_runWith (limit : Nat) (files : FileReader) (readings : List Reading)
    (hhelp : o.help = false) (hversion : o.version = false) (hbatch : o.batch = false) :
    ∃ outcome t status u,
      runScripts (limit + 2) o.settings files o.files 0 prepare = some (outcome, t) ∧
      runWith (limit + 2) o files readings = some (status, u) ∧ t.events <+: u.events := by
  obtain ⟨outcome, t, hscripts, hsteady⟩ :=
    exists_runScripts limit brief_prepare o.settings files o.files 0
  cases outcome with
  | error fault =>
    exact ⟨_, t, .failure, fail t fault.message, hscripts,
      runWith_of_fails hhelp hversion hscripts, List.prefix_append _ _⟩
  | ok failed =>
    obtain ⟨answer, account, v, hrun, -⟩ :=
      Session.exists_run limit (brief_prepare.of_steady hsteady) o.settings readings
    exact ⟨_, t, _, _, hscripts, runWith_of_dialogue hhelp hversion hbatch hscripts hrun,
      (prefix_run hrun).trans (prefix_close answer v)⟩

/-! ## The two ways of a fault -/

/-- A line of one of the scripts is executed and fails: the scripts before that one get through. -/
def FailsAt (limit : Nat) (o : Options) (files : FileReader) (path : String) (number : Nat)
    (line : String) (fault : Fault) : Prop :=
  ∃ before after results s u, o.files = before ++ path :: after ∧
    ScriptsPass limit o.settings files before results prepare s ∧
    LineFails limit o.settings files path s number line fault u

/-- The line that says where a fault arose. -/
def placeLine (path : String) (number : Nat) (line : String) : String :=
  "  " ++ ("at " ++ path ++ ":" ++ toString number ++ ": " ++ ("`" ++ Text.trim line ++ "`")) ++
    "\n"

/-- The fault of a line in a script is reported in two lines, of which the second is the place. -/
theorem reportLines_scriptFault (path : String) (number : Nat) (line : String) (fault : Fault) :
    (Session.scriptFault path number line fault).reportLines =
      [fault.reportLine, placeLine path number line] :=
  Fault.reportLines_located fault _

/-- Nothing is on the standard error before the first script. -/
theorem complaints_prepare : prepare.complaints = [] := rfl

theorem warnings_prepare : prepare.warnings = [] := rfl

/-- Scripts that are to stop report nothing as long as they get through. -/
theorem ScriptsPass.quietly (h : ScriptsPass limit settings files paths results s t)
    (hstop : settings.stopOnError = true) : s.Quietly t := by
  -- along the scripts, each of which leaves a note and goes through lines that do not fail
  induction h with
  | nil s => exact .refl s
  | cons first _ ih =>
    obtain ⟨text, -, hpasses⟩ := first.passes
    have hfirst := hpasses.quietly_of_succeeded (first.succeeded hstop)
    exact ((Session.onlyNoted_note _ _).quietly.trans hfirst).trans ih

/-- The fault of a line is reported as an error, and not as an internal one. -/
theorem FailsAt.reportLine_eq (h : FailsAt limit o files path number line fault) :
    fault.reportLine = redLine ("Error: " ++ fault.message) := by
  obtain ⟨-, -, -, s, u, -, -, ⟨-, -, -, -, hfailed⟩⟩ := h
  obtain ⟨cause, rfl, hcause⟩ := Session.exists_cause_of_executeLine hfailed
  have hlabel : (Fault.of cause).cause.isInternal = false := hcause
  rw [Fault.reportLine, hlabel]
  rfl

/-- A line that fails ends scripts that are to stop, before anything is reported. The commands of
the program write nothing to the standard error, so nothing is there at all. -/
theorem FailsAt.stops (h : FailsAt (limit + 2) o files path number line fault)
    (hstop : o.settings.stopOnError = true) :
    ∃ u, runScripts (limit + 2) o.settings files o.files 0 prepare =
        some (.error (Session.scriptFault path number line fault), u) ∧
      u.complaints = [] ∧ u.warnings = [] := by
  obtain ⟨before, after, results, s, u, hfiles, hbefore, hline⟩ := h
  obtain ⟨hfails, hquiet⟩ := hline.stops hstop
  have hends : runScripts (limit + 2) o.settings files o.files 0 prepare =
      some (.error (Session.scriptFault path number line fault), u) :=
    runScripts_eq_error_iff.mpr ⟨before, path, after, results, s, hfiles, hbefore, hfails⟩
  obtain ⟨outcome, t, hscripts, hsteady⟩ :=
    exists_runScripts limit brief_prepare o.settings files o.files 0
  obtain ⟨-, rfl⟩ := Prod.mk.inj (Option.some.inj (hends.symm.trans hscripts))
  -- what the scripts before it and the lines before it report is nothing
  have hunreported := (hbefore.quietly hstop).trans hquiet
  exact ⟨u, hends, hunreported.complaints_eq.trans complaints_prepare,
    hsteady.warnings_eq.trans warnings_prepare⟩

/-- A line that fails is reported with its place in scripts that are not to stop. -/
theorem FailsAt.reported (h : FailsAt limit o files path number line fault)
    (hstop : o.settings.stopOnError = false)
    (hscripts : runScripts limit o.settings files o.files 0 prepare = some (outcome, t)) :
    [.complained fault.reportLine, .complained (placeLine path number line)] <:+: t.events := by
  obtain ⟨before, after, results, s, u, hfiles, hbefore, hline⟩ := h
  rw [hfiles, runScripts_of_pass hbefore, runScripts_cons] at hscripts
  -- the report comes right behind the line, and whatever follows is recorded behind it
  have hreport : (u.report (Session.scriptFault path number line fault)).events <+: t.events := by
    split at hscripts
    · simp at hscripts
    · next fault' v hscript =>
      obtain ⟨-, rfl⟩ := Prod.mk.inj (Option.some.inj hscripts)
      exact hline.reported hstop hscript
    · next summary v hscript =>
      exact (hline.reported hstop hscript).trans (prefix_runScripts hscripts)
  rw [Session.events_report, reportLines_scriptFault] at hreport
  exact (List.suffix_append _ _).isInfix.trans hreport.isInfix

/-! ## The standard error -/

/-- If no notes are shown, the standard error holds the reports and what commands wrote. -/
theorem errorOutput_nothing (rendering : Note → String) (s : Session) :
    NoteFilter.nothing.errorOutput rendering s = String.join s.errorTexts := by
  rw [NoteFilter.errorOutput, Session.errorTexts]
  induction s.events with
  | nil => rfl
  | cons e events ih =>
    rw [List.map_cons, String.join_cons, ih]
    cases e with
    | complained text | warned text =>
      rw [List.filterMap_cons_some (by rfl), String.join_cons]
      rfl
    | _ =>
      rw [List.filterMap_cons_none (by rfl)]
      simp [NoteFilter.errorOutputOf, NoteFilter.shows]

/-- What is reported in a row is shown in a row. -/
theorem exists_errorOutput_eq {first second : String} (filter : NoteFilter)
    (rendering : Note → String) (h : [.complained first, .complained second] <:+: s.events) :
    ∃ before after, filter.errorOutput rendering s = before ++ first ++ second ++ after := by
  obtain ⟨before, after, hevents⟩ := h
  refine ⟨String.join (before.map (filter.errorOutputOf rendering)),
    String.join (after.map (filter.errorOutputOf rendering)), ?_⟩
  rw [NoteFilter.errorOutput, ← hevents]
  simp [String.join_append, NoteFilter.errorOutputOf, String.append_assoc]

/-- A fault that ends the program is reported without its place. -/
theorem complaints_fail (s : Session) (message : String) :
    (fail s message).complaints = s.complaints ++ [redLine ("Error: " ++ message)] :=
  List.filterMap_append

/-- A fault that ends the program is not written by a command. -/
theorem warnings_fail (s : Session) (message : String) :
    (fail s message).warnings = s.warnings :=
  List.filterMap_append.trans (List.append_nil _)

/-- The first line of the first script fails if no command has its keyword. -/
theorem failsAt_of_unknown {text keyword : String} {rest after words : List String}
    (hfiles : o.files = path :: after) (hread : files path = .ok text)
    (hsplit : Text.lines text = line :: rest)
    (hrequest : Request.ofLine line = .command (keyword :: words))
    (hunknown : prepare.catalog.overloads keyword = []) :
    FailsAt limit o files path 1 line (.of (.commandNotFound keyword)) := by
  let s := prepare.note (.runningScript path)
  have hresolve : s.catalog.resolve (keyword :: words) = .error (.of (.commandNotFound keyword)) :=
    Catalog.resolve_eq_commandNotFound_iff.mpr ⟨rfl, hunknown⟩
  have hfailed : s.executeLine limit line =
      some (.error (.of (.commandNotFound keyword)), s.considered (keyword :: words)) := by
    rw [Session.executeLine, hrequest]
    exact Session.fulfil_command_of_error hresolve
  exact ⟨[], after, [], prepare, _, hfiles, .nil prepare,
    .intro hread hsplit (.nil 1 s) (by simp) hfailed⟩

/-- **A fault is reported with its place if no script is to stop.** When a line of a script is
executed and fails, the program comes to an end, and its record has the message of the fault and
right behind it the place, with the path of the script, the number of the line and the line without
the white space around it, exactly if neither of the two options by which scripts stop was given.
Then both are next to each other on the standard error. If one of the two was given, the program
fails, the message is all that it has reported, and unless notes are shown it is all that is on the
standard error. -/
theorem reported_with_place_iff (limit : Nat) (rendering : Note → String) (readings : List Reading)
    (hparse : Options.parse arguments = .ok o) (hhelp : o.help = false)
    (hversion : o.version = false) (h : FailsAt (limit + 2) o files path number line fault) :
    let report := redLine ("Error: " ++ fault.message)
    ∃ status s,
      run (limit + 2) rendering arguments files readings = some (leave rendering o status s) ∧
      ([.complained report, .complained (placeLine path number line)] <:+: s.events ↔
        o.batch = false ∧ o.stopOnError = false) ∧
      (o.batch = false ∧ o.stopOnError = false → ∃ before after,
        (leave rendering o status s).errorOutput =
          before ++ report ++ placeLine path number line ++ after) ∧
      (o.batch = true ∨ o.stopOnError = true → status = .failure ∧ s.complaints = [report] ∧
        (o.verbose = false → o.traceMatch = false →
          (leave rendering o status s).errorOutput = report)) := by
  intro report
  have hreport : fault.reportLine = report := h.reportLine_eq
  -- both options come down to one setting, and it tells the two ways of a fault apart
  cases hstop : o.settings.stopOnError with
  | false =>
    have hoptions : o.batch = false ∧ o.stopOnError = false := by
      rwa [stopOnError_settings, Bool.or_eq_false_iff] at hstop
    obtain ⟨outcome, t, status, u, hscripts, hrun, hprefix⟩ :=
      exists_runWith limit files readings hhelp hversion hoptions.1
    have hreported : [.complained report, .complained (placeLine path number line)] <:+:
        u.events := by
      rw [← hreport]
      exact (h.reported hstop hscripts).trans hprefix.isInfix
    refine ⟨status, u, ?_, iff_of_true hreported hoptions,
      fun _ => exists_errorOutput_eq _ rendering hreported, ?_⟩
    · rw [run_eq_of_parse hparse, hrun]
      rfl
    · rintro (hbatch | hstops)
      · simp [hoptions.1] at hbatch
      · simp [hoptions.2] at hstops
  | true =>
    have hoptions : ¬ (o.batch = false ∧ o.stopOnError = false) := by
      rw [stopOnError_settings] at hstop
      rintro ⟨hbatch, hstops⟩
      simp [hbatch, hstops] at hstop
    obtain ⟨u, hscripts, hquiet, hunwarned⟩ := h.stops hstop
    let w := fail u fault.message
    have hcomplaints : w.complaints = [report] := by
      rw [complaints_fail, hquiet]
      rfl
    have hreports : w.errorTexts = w.complaints :=
      Session.errorTexts_eq_complaints ((warnings_fail u _).trans hunwarned)
    have hunplaced : ¬ [.complained report, .complained (placeLine path number line)] <:+:
        w.events := by
      -- a report with its place would be two texts, and there is one
      intro hreported
      have htwo : 2 ≤ w.complaints.length := (hreported.filterMap Event.complaint?).length_le
      rw [hcomplaints, List.length_singleton] at htwo
      omega
    refine ⟨.failure, w, ?_, iff_of_false hunplaced hoptions, fun hnone => absurd hnone hoptions,
      fun _ => ⟨rfl, hcomplaints, fun hverbose htrace => ?_⟩⟩
    · rw [run_eq_of_parse hparse, runWith_of_fails hhelp hversion hscripts]
      rfl
    · have hfilter : noteFilter o = .nothing := by simp [noteFilter, hverbose, htrace]
      have herror : (leave rendering o .failure w).errorOutput = String.join w.errorTexts := by
        rw [leave, hfilter]
        exact errorOutput_nothing rendering w
      rw [herror, hreports, hcomplaints, String.join_cons]
      exact String.append_empty

/-- A line with white space around it, in a script that goes on. -/
theorem reported_with_place_iff_indented :
    let files : FileReader := fun _ => .ok "  fly \ngive 1\n"
    let o : Options := { files := ["a.kl"] }
    Options.parse ["a.kl"] = .ok o ∧ o.help = false ∧ o.version = false ∧
    FailsAt 2 o files "a.kl" 1 "  fly " (.of (.commandNotFound "fly")) ∧
    ∃ status s before after,
      run 2 (fun _ => "") ["a.kl"] files [] = some (leave (fun _ => "") o status s) ∧
      (leave (fun _ => "") o status s).errorOutput =
        before ++ "\x1b[31mError: command not found: fly\x1b[0m\n" ++ "  at a.kl:1: `fly`\n" ++
          after := by
  intro files o
  have hparse : Options.parse ["a.kl"] = .ok o := rfl
  have hsplit : Text.lines "  fly \ngive 1\n" = ["  fly ", "give 1"] := by decide +kernel
  have hrequest : Request.ofLine "  fly " = .command ["fly"] := by decide +kernel
  have hunknown : prepare.catalog.overloads "fly" = [] := List.isEmpty_iff.mp (by decide +kernel)
  have hfails : FailsAt 2 o files "a.kl" 1 "  fly " (.of (.commandNotFound "fly")) :=
    failsAt_of_unknown rfl rfl hsplit hrequest hunknown
  have hplace : placeLine "a.kl" 1 "  fly " = "  at a.kl:1: `fly`\n" := by decide +kernel
  obtain ⟨status, s, hrun, -, herror, -⟩ :=
    reported_with_place_iff 0 (fun _ => "") [] hparse rfl rfl hfails
  obtain ⟨before, after, heq⟩ := herror ⟨rfl, rfl⟩
  rw [hplace] at heq
  exact ⟨hparse, rfl, rfl, hfails, status, s, before, after, hrun, heq⟩

/-- The place is lost in a script that runs unattended. -/
theorem place_lost_unattended :
    let files : FileReader := fun _ => .ok "fly\n"
    ∃ o, Options.parse ["-b", "a.kl"] = .ok o ∧
      FailsAt 2 o files "a.kl" 1 "fly" (.of (.commandNotFound "fly")) ∧
      ∃ outcome, run 2 (fun _ => "") ["-b", "a.kl"] files [] = some outcome ∧
        outcome.status = .failure ∧
        outcome.errorOutput = "\x1b[31mError: command not found: fly\x1b[0m\n" ∧
        ¬ "  at a.kl:1: `fly`\n".toList <:+: outcome.errorOutput.toList := by
  intro files
  let o : Options := { files := ["a.kl"], batch := true }
  have hsplit : Text.lines "fly\n" = ["fly"] := by decide +kernel
  have hrequest : Request.ofLine "fly" = .command ["fly"] := by decide +kernel
  have hunknown : prepare.catalog.overloads "fly" = [] := List.isEmpty_iff.mp (by decide +kernel)
  have hfails : FailsAt 2 o files "a.kl" 1 "fly" (.of (.commandNotFound "fly")) :=
    failsAt_of_unknown rfl rfl hsplit hrequest hunknown
  refine ⟨o, rfl, hfails, ?_⟩
  have hrun : (run 2 (fun _ => "") ["-b", "a.kl"] files []).map
        (fun r => (r.status, r.errorOutput)) =
      some (.failure, "\x1b[31mError: command not found: fly\x1b[0m\n") := by decide +kernel
  obtain ⟨outcome, houtcome, heq⟩ := Option.map_eq_some_iff.mp hrun
  obtain ⟨hstatus, herror⟩ := Prod.mk.inj heq
  refine ⟨outcome, houtcome, hstatus, herror, ?_⟩
  rw [herror]
  decide +kernel

end Program

end CommandShell
