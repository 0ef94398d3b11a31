import CommandShell.Proofs.Agreement
import CommandShell.Proofs.Scripts

/-!
# Scripts that stop and scripts that go on

A script that stops at the first line that fails is the beginning of the script that goes on. Up to
that line the two are the same run of the same loop, so there is nothing to compare. The line itself
leaves notes and nothing else, and the script that stops ends there: it hands its fault on, where
the other one reports it and goes on.

Main results:

* `Session.onlyNoted_of_executeLine`: a line that fails leaves notes and nothing else;
* `Session.executeLines_stops`: the first line that fails, in both scripts;
* `Session.script_stops_at_first_failure`: a script that stops is a cut of the one that goes on.
-/

namespace CommandShell

namespace Session

open Request (Leaves staying)

variable {limit number : Nat} {line path : String} {lines : List String} {s t u : Session}
  {inner : Fault} {summary : Summary}

/-! ## Lines that fail -/

/-- A line that fails leaves notes and nothing else. -/
theorem onlyNoted_of_executeLine (h : s.executeLine limit line = some (.error inner, t)) :
    s.OnlyNoted t := by
  rcases executeLine_cases h with ⟨tokens, call, -, -, hcall, -⟩ | ⟨-, hnoted⟩
  · simp [Task.Answer.call?] at hcall
  · exact hnoted

theorem OnlyNoted.deeds_eq (h : s.OnlyNoted t) : t.deeds = s.deeds := by
  obtain ⟨notes, hevents⟩ := h.events_eq
  have hnotes : (notes.map Event.noted).filter Event.isDeed = [] := by simp [Event.isDeed]
  rw [deeds_of_events_eq hevents, hnotes, List.append_nil]

theorem OnlyNoted.output_eq (h : s.OnlyNoted t) : t.output = s.output := by
  rw [Session.output_eq, h.deeds_eq, ← Session.output_eq]

theorem OnlyNoted.errorTexts_eq (h : s.OnlyNoted t) : t.errorTexts = s.errorTexts := by
  obtain ⟨notes, hevents⟩ := h.events_eq
  rw [errorTexts, hevents, List.filterMap_append, Event.filterMap_map_noted fun _ => rfl,
    List.append_nil, errorTexts]

/-! ## The two scripts -/

/-- A script that goes on ends with a summary. -/
theorem exists_summary {outcome : Except Fault Summary} {stop : Bool} (hstop : stop = false)
    (h : executeLines limit stop path number lines summary s = some (outcome, t)) :
    ∃ summary', outcome = .ok summary' := by
  cases outcome with
  | ok summary' => exact ⟨summary', rfl⟩
  | error fault =>
    obtain ⟨hstops, -⟩ := executeLines_eq_error_iff.mp h
    simp [hstop] at hstops

/-- **The first line that fails.** A script that goes on gets to it and then behind it, and one that
stops ends there, whatever the lines behind it are. -/
theorem executeLines_stops
    (h : executeLines limit false path number lines {} s = some (.ok summary, t))
    (hfails : 0 < summary.failed) :
    ∃ before line after executed inner v u, lines = before ++ line :: after ∧
      (∀ l ∈ before, ¬ Leaves l) ∧
      executeLines limit false path number before {} s = some (.ok ⟨executed, 0⟩, v) ∧
      s.Quietly v ∧
      v.executeLine limit line = some (.error inner, u) ∧
      executeLines limit false path (number + before.length + 1) after ⟨executed, 1⟩
        (u.report (scriptFault path (number + before.length) line inner)) =
          some (.ok summary, t) ∧
      ∀ rest, executeLines limit true path number (before ++ line :: rest) {} s =
        some (.error (scriptFault path (number + before.length) line inner), u) := by
  obtain ⟨results, hpasses, -, rfl⟩ := executeLines_eq_ok_iff.mp h
  rw [Summary.after_empty] at hfails
  obtain ⟨before, line, behind, first, inner, v, u, hstaying, hbefore, hall, hstays, hline⟩ :=
    hpasses.exists_first_failure hfails
  -- the lines behind it go on behind the first one that leaves
  obtain ⟨after, hlines⟩ := Request.exists_append_of_staying_eq hstaying
  have hnone : first.countP LineResult.isFailed = 0 :=
    List.countP_eq_zero.mpr fun result hresult => by simp [hall result hresult]
  have hcounts : ({} : Summary).after first = ⟨first.countP LineResult.isDispatched, 0⟩ := by
    rw [Summary.after_empty, hnone]
  have hgoes : false = true → ∀ result ∈ first, LineResult.isFailed result = false := by simp
  refine ⟨before, line, after, first.countP LineResult.isDispatched, inner, v, u, hlines,
    hbefore.not_leaves, ?_, hbefore.quietly_of_succeeded hall, hline, ?_, ?_⟩
  · -- the lines before it, as a script of their own
    have hreached : executeLines limit false path number (before ++ []) {} s =
        executeLines limit false path (number + before.length) [] (({} : Summary).after first) v :=
      executeLines_of_passes hbefore hgoes
    rw [List.append_nil] at hreached
    rw [hreached, hcounts]
    rfl
  · -- the same lines, and then the failing one and what is behind it
    have hbehind : executeLines limit false path (number + before.length) (line :: after)
        ⟨first.countP LineResult.isDispatched, 0⟩ v =
          some (.ok (({} : Summary).after results), t) := by
      rw [← hcounts, ← executeLines_of_passes hbefore hgoes, ← hlines, h]
    rw [executeLines_of_goes_on hstays hline (by simp)] at hbehind
    exact hbehind
  · intro rest
    -- the script that stops goes through the same lines, since none of them fails
    rw [executeLines_of_passes hbefore fun _ => hall]
    exact executeLines_of_stop hline

/-- No line is reached behind which a script stops, so it ends as the script that goes on. -/
theorem executeLines_of_none_failed
    (h : executeLines limit false path number lines {} s = some (.ok summary, t))
    (hnone : summary.failed = 0) :
    executeLines limit true path number lines {} s = some (.ok summary, t) := by
  obtain ⟨results, hpasses, -, rfl⟩ := executeLines_eq_ok_iff.mp h
  rw [Summary.after_empty] at hnone
  refine executeLines_eq_ok_iff.mpr ⟨results, hpasses, fun _ result hresult => ?_, rfl⟩
  have hstands : ¬ LineResult.isFailed result = true :=
    List.countP_eq_zero.mp hnone result hresult
  rwa [Bool.not_eq_true] at hstands

/-- **A script that stops is a cut of the one that goes on.** If the file cannot be read, both say
so and do nothing. Otherwise, if the script that goes on ends and counts no failure, the one that
stops is the same run. If it counts a failure, there is a first line that fails: the lines before it
are gone through, and none of them fails or leaves; the line fails; the script that goes on reports
its fault with its place and goes through the lines behind it. The script that stops ends there with
the same fault, and has reported nothing: all that has gone to the standard error since its
beginning was written by the commands that it called. All that it has done, and the commands that
are known in the end and what they remember, are what they were when the other script reached that
line, and so is the standard error; so its record is a beginning of the record of the other one.
What stands behind the line makes no difference to it. -/
theorem script_stops_at_first_failure (limit : Nat) (s : Session) (settings : Settings)
    (files : FileReader) (path : String) :
    let tolerant : Settings := { settings with stopOnError := false }
    let strict : Settings := { settings with stopOnError := true }
    (∀ failure, files path = .error failure →
      s.executeScript limit tolerant files path =
        some (.error (.of (.unreadable path failure.message)), s) ∧
      s.executeScript limit strict files path =
        some (.error (.of (.unreadable path failure.message)), s)) ∧
    ∀ text outcome t, files path = .ok text →
      s.executeScript limit tolerant files path = some (outcome, t) →
      ∃ summary, outcome = .ok summary ∧
        (summary.failed = 0 → s.executeScript limit strict files path = some (.ok summary, t)) ∧
        (0 < summary.failed → ∃ before line after executed inner v u later, ∃ notes : List Note,
          let fault : Fault :=
            ⟨inner.cause, some ⟨some path, some (before.length + 1), some (Text.trim line)⟩⟩
          Text.lines text = before ++ line :: after ∧ (∀ l ∈ before, ¬ Leaves l) ∧
          executeLines limit false path 1 before {} (s.note (.runningScript path)) =
            some (.ok ⟨executed, 0⟩, v) ∧
          v.executeLine limit line = some (.error inner, u) ∧
          executeLines limit false path (before.length + 2) after ⟨executed, 1⟩ (u.report fault) =
            some (.ok summary, t) ∧
          s.executeScript limit strict files path = some (.error fault, u) ∧
          u.complaints = s.complaints ∧
          (∃ written, u.warnings = s.warnings ++ written ∧
            u.errorTexts = s.errorTexts ++ written) ∧
          u.errorTexts = v.errorTexts ∧ u.deeds = v.deeds ∧ u.output = v.output ∧
          u.catalog = v.catalog ∧ u.memory = v.memory ∧
          u.events = v.events ++ notes.map .noted ∧
          t.events = u.events ++ fault.reportLines.map .complained ++ later ∧
          ∀ files' text', files' path = .ok text' → before ++ [line] <+: Text.lines text' →
            s.executeScript limit strict files' path = some (.error fault, u)) := by
  intro tolerant strict
  refine ⟨?_, ?_⟩
  · intro failure hfile
    exact ⟨executeScript_of_unreadable hfile, executeScript_of_unreadable hfile⟩
  intro text outcome t hfile htolerant
  have hlines : executeLines limit false path 1 (Text.lines text) {}
      (s.note (.runningScript path)) = some (outcome, t) :=
    (executeScript_of_readable hfile).symm.trans htolerant
  have hstrict : ∀ {files' : FileReader} {text' : String}, files' path = .ok text' →
      s.executeScript limit strict files' path =
        executeLines limit true path 1 (Text.lines text') {} (s.note (.runningScript path)) :=
    fun hfile' => executeScript_of_readable hfile'
  obtain ⟨summary, rfl⟩ := exists_summary rfl hlines
  refine ⟨summary, rfl, ?_, ?_⟩
  · intro hnone
    rw [hstrict hfile]
    exact executeLines_of_none_failed hlines hnone
  intro hfails
  obtain ⟨before, line, after, executed, inner, v, u, hsplit, hstay, hreached, hquiet, hline,
    hbehind, hstops⟩ := executeLines_stops hlines hfails
  rw [Nat.add_comm 1 before.length] at hbehind hstops
  have hnoted : v.OnlyNoted u := onlyNoted_of_executeLine hline
  -- nothing is reported up to the line, and the line itself leaves notes only
  have hunreported : s.Quietly u := (onlyNoted_note s _).quietly.trans (hquiet.trans hnoted.quietly)
  obtain ⟨notes, hnotes⟩ := hnoted.events_eq
  -- what is done behind the line is recorded behind its report
  obtain ⟨results, hpasses, -, -⟩ := executeLines_eq_ok_iff.mp hbehind
  obtain ⟨later, hlater⟩ := hpasses.prefix_events
  rw [events_report] at hlater
  refine ⟨before, line, after, executed, inner, v, u, later, notes, hsplit, hstay, hreached, hline,
    hbehind, ?_, hunreported.complaints_eq, hunreported.exists_warnings_eq, hnoted.errorTexts_eq,
    hnoted.deeds_eq, hnoted.output_eq, hnoted.catalog_eq, hnoted.memory_eq, hnotes, hlater.symm, ?_⟩
  · rw [hstrict hfile, hsplit]
    exact hstops after
  · rintro files' text' hfile' ⟨rest, hrest⟩
    rw [hstrict hfile', ← hrest, List.append_assoc]
    exact hstops rest

/-- The second line fails and the third one would do something. -/
example :
    let s := Demo.register (.start .empty)
    let files : FileReader := fun _ => .ok "give 1\n  fly away\ngive 2\nexit\ngive 3\n"
    (s.executeScript 2 {} files "a.kl").map (fun r => (r.1.toOption, r.2.output)) =
      some (some ⟨2, 1⟩, "You receive 1 coin(s).\nYou receive 2 coin(s).\n") ∧
    (s.executeScript 2 { stopOnError := true } files "a.kl").map
      (fun r => (r.1.toOption, r.2.output)) = some (none, "You receive 1 coin(s).\n") := by
  decide +kernel

end Session

end CommandShell
