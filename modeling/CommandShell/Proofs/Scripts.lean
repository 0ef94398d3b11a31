import CommandShell.CommandLine.Program
import CommandShell.Proofs.Passage

/-!
# Scripts and rows of scripts

A script either gets through, when every line before the first one that leaves was executed, or it
ends with a fault. There are two ways to end so: the file cannot be read, or the settings say that a
script stops at the first line that fails, and there is such a line. Scripts that run one after the
other share the session, and a line that leaves one of them does not keep the next one from running.

Main definitions:

* `Session.ScriptPasses`, `Session.ScriptFails`: the two ends of a script;
* `Program.ScriptsPass`: a row of scripts all of which get through.

Main results:

* `Session.executeScript_eq_ok_iff`, `Session.executeScript_eq_error_iff`: a script ends in one of
  the two ways, according to its lines;
* `Program.runScripts_eq_ok_iff`, `Program.runScripts_eq_error_iff`: a row of scripts ends with the
  first one that does not get through.
-/

namespace CommandShell

namespace Session

open Request (staying)

variable {limit : Nat} {settings : Settings} {files : FileReader} {path : String} {s t u : Session}
  {results : List LineResult} {fault : Fault} {summary : Summary}

/-! ## One script -/

/-- A script gets through, with these results of its lines up to the first one that leaves. -/
structure ScriptPasses (limit : Nat) (settings : Settings) (files : FileReader) (path : String)
    (results : List LineResult) (s t : Session) : Prop where
  passes : ∃ text, files path = .ok text ∧
    Passes limit (scriptFault path) 1 (staying (Text.lines text)) results
      (s.note (.runningScript path)) t
  succeeded : settings.stopOnError = true → ∀ result ∈ results, LineResult.isFailed result = false

/-- A script ends with a fault: it cannot be read, or it stops at its first line that fails. -/
inductive ScriptFails (limit : Nat) (settings : Settings) (files : FileReader) (path : String) :
    Session → Fault → Session → Prop where
  | unreadable {failure : ReadFailure} {s : Session} (unread : files path = .error failure) :
      ScriptFails limit settings files path s (.of (.unreadable path failure.message)) s
  | failing {text line : String} {before after : List String} {results : List LineResult}
      {inner : Fault} {s t u : Session} (stops : settings.stopOnError = true)
      (read : files path = .ok text) (split : Text.lines text = before ++ line :: after)
      (passes : Passes limit (scriptFault path) 1 before results (s.note (.runningScript path)) t)
      (succeeded : ∀ result ∈ results, LineResult.isFailed result = false)
      (failed : t.executeLine limit line = some (.error inner, u)) :
      ScriptFails limit settings files path s (scriptFault path (1 + before.length) line inner) u

theorem executeScript_of_unreadable {failure : ReadFailure} (h : files path = .error failure) :
    s.executeScript limit settings files path =
      some (.error (.of (.unreadable path failure.message)), s) := by
  rw [executeScript, h]

/-- A script that can be read is noted, and then its lines are executed from the first on. -/
theorem executeScript_of_readable {text : String} (h : files path = .ok text) :
    s.executeScript limit settings files path =
      executeLines limit settings.stopOnError path 1 (Text.lines text) {}
        (s.note (.runningScript path)) := by
  rw [executeScript, h]

/-- **A script gets through** exactly if its summary says so, which counts its lines. -/
theorem executeScript_eq_ok_iff :
    s.executeScript limit settings files path = some (.ok summary, t) ↔
      ∃ results, ScriptPasses limit settings files path results s t ∧
        summary = ({} : Summary).after results := by
  cases hfile : files path with
  | error failure =>
    rw [executeScript_of_unreadable hfile]
    constructor
    · intro h
      simp at h
    · rintro ⟨results, ⟨⟨text, hread, -⟩, -⟩, -⟩
      simp [hfile] at hread
  | ok text =>
    rw [executeScript_of_readable hfile, executeLines_eq_ok_iff]
    constructor
    · rintro ⟨results, hpasses, hsucceeded, rfl⟩
      exact ⟨results, ⟨⟨text, hfile, hpasses⟩, hsucceeded⟩, rfl⟩
    · rintro ⟨results, ⟨⟨text', hread, hpasses⟩, hsucceeded⟩, rfl⟩
      obtain rfl := Except.ok.inj (hfile.symm.trans hread)
      exact ⟨results, hpasses, hsucceeded, rfl⟩

/-- A script ends with a fault in one of two ways. -/
theorem executeScript_eq_error_iff :
    s.executeScript limit settings files path = some (.error fault, t) ↔
      ScriptFails limit settings files path s fault t := by
  cases hfile : files path with
  | error failure =>
    rw [executeScript_of_unreadable hfile]
    constructor
    · intro h
      obtain ⟨hfault, rfl⟩ := Prod.mk.inj (Option.some.inj h)
      rw [← Except.error.inj hfault]
      exact .unreadable hfile
    · rintro (hunread | ⟨-, hread, -, -, -, -⟩)
      · rw [Except.error.inj (hfile.symm.trans hunread)]
      · simp [hfile] at hread
  | ok text =>
    rw [executeScript_of_readable hfile, executeLines_eq_error_iff]
    constructor
    · rintro ⟨hstop, before, line, after, results, inner, u, hlines, hpasses, hall, hfailed, rfl⟩
      exact .failing hstop hfile hlines hpasses hall hfailed
    · -- the file can be read, so only the second way is left
      rintro (hunread | ⟨hstop, hread, hlines, hpasses, hall, hfailed⟩)
      · simp [hfile] at hunread
      · obtain rfl := Except.ok.inj (hfile.symm.trans hread)
        exact ⟨hstop, _, _, _, _, _, _, hlines, hpasses, hall, hfailed, rfl⟩

end Session

namespace Program

open Session (ScriptPasses ScriptFails executeScript_eq_ok_iff executeScript_eq_error_iff)

variable {limit failed failed' : Nat} {settings : Settings} {files : FileReader}
  {path : String} {paths : List String} {s t u : Session} {results : List LineResult}
  {fault : Fault}

/-! ## A row of scripts -/

/-- Scripts run one after the other in one session, and all of them get through. -/
inductive ScriptsPass (limit : Nat) (settings : Settings) (files : FileReader) :
    List String → List LineResult → Session → Session → Prop where
  | nil (s : Session) : ScriptsPass limit settings files [] [] s s
  | cons {path : String} {paths : List String} {results rest : List LineResult} {s t u : Session}
      (first : ScriptPasses limit settings files path results s t)
      (others : ScriptsPass limit settings files paths rest t u) :
      ScriptsPass limit settings files (path :: paths) (results ++ rest) s u

/-- No line fails in scripts that get through although they stop at a line that fails. -/
theorem ScriptsPass.succeeded (h : ScriptsPass limit settings files paths results s t)
    (hstop : settings.stopOnError = true) :
    ∀ result ∈ results, LineResult.isFailed result = false := by
  induction h with
  | nil => simp
  | cons first _ ih =>
    exact List.forall_mem_append.mpr ⟨first.succeeded hstop, ih⟩

/-- The first script runs, and the others run in the session that it leaves. -/
theorem runScripts_cons (path : String) (paths : List String) (failed : Nat) (s : Session) :
    runScripts limit settings files (path :: paths) failed s =
      match s.executeScript limit settings files path with
      | none => none
      | some (.error fault, t) => some (.error fault, t)
      | some (.ok summary, t) =>
        runScripts limit settings files paths (failed + summary.failed) t :=
  rfl

/-- A row of scripts goes on behind scripts that get through, with the count of their failed
lines. -/
theorem runScripts_of_pass {before : List String}
    (h : ScriptsPass limit settings files before results s t) :
    runScripts limit settings files (before ++ paths) failed s =
      runScripts limit settings files paths (failed + results.countP LineResult.isFailed) t := by
  -- along the scripts, with the failed lines so far
  induction h generalizing failed with
  | nil => rfl
  | cons first _ ih =>
    rw [List.cons_append, runScripts_cons, executeScript_eq_ok_iff.mpr ⟨_, first, rfl⟩]
    dsimp only
    rw [ih, Summary.after_empty, List.countP_append, Nat.add_assoc]

/-- A row of scripts gets through exactly if each of them does, and then their failed lines add up.
-/
theorem runScripts_eq_ok_iff :
    runScripts limit settings files paths failed s = some (.ok failed', t) ↔
      ∃ results, ScriptsPass limit settings files paths results s t ∧
        failed' = failed + results.countP LineResult.isFailed := by
  constructor
  · intro h
    -- along the paths
    induction paths generalizing failed s with
    | nil =>
      simp only [runScripts, Option.some.injEq, Prod.mk.injEq, Except.ok.injEq] at h
      obtain ⟨rfl, rfl⟩ := h
      exact ⟨[], .nil s, rfl⟩
    | cons path paths ih =>
      rw [runScripts_cons] at h
      split at h
      · simp at h
      · simp at h
      · next summary u hscript =>
        -- the count goes on from the failed lines of the first script
        obtain ⟨results, hfirst, rfl⟩ := executeScript_eq_ok_iff.mp hscript
        obtain ⟨rest, hothers, rfl⟩ := ih h
        refine ⟨results ++ rest, .cons hfirst hothers, ?_⟩
        rw [Summary.after_empty, List.countP_append, Nat.add_assoc]
  · rintro ⟨results, hpass, rfl⟩
    rw [← List.append_nil paths, runScripts_of_pass hpass]
    rfl

/-- **A row of scripts ends with the first one that does not get through**; those behind it are not
even read. -/
theorem runScripts_eq_error_iff :
    runScripts limit settings files paths failed s = some (.error fault, u) ↔
      ∃ before path after results t, paths = before ++ path :: after ∧
        ScriptsPass limit settings files before results s t ∧
        ScriptFails limit settings files path t fault u := by
  constructor
  · intro h
    -- along the paths, up to the first script that does not get through
    induction paths generalizing failed s with
    | nil => simp [runScripts] at h
    | cons path paths ih =>
      rw [runScripts_cons] at h
      split at h
      · simp at h
      · next fault' v hscript =>
        -- the first script is the one that does not get through
        obtain ⟨hfault, rfl⟩ := Prod.mk.inj (Option.some.inj h)
        obtain rfl := Except.error.inj hfault
        exact ⟨[], path, paths, [], s, rfl, .nil s, executeScript_eq_error_iff.mp hscript⟩
      · next summary v hscript =>
        obtain ⟨results, hfirst, -⟩ := executeScript_eq_ok_iff.mp hscript
        obtain ⟨before, last, after, rest, t, rfl, hbefore, hlast⟩ := ih h
        exact ⟨path :: before, last, after, results ++ rest, t, rfl, .cons hfirst hbefore, hlast⟩
  · rintro ⟨before, last, after, results, t, rfl, hbefore, hlast⟩
    rw [runScripts_of_pass hbefore, runScripts_cons, executeScript_eq_error_iff.mpr hlast]

end Program

end CommandShell
