import CommandShell.Demo
import CommandShell.Proofs.Passage

/-!
# Dialogues and scripts agree

The same lines do the same whether they are typed or come from a file. A dialogue takes them as they
are, a script cuts them out of a text and may lose a carriage return on the way, but the words are
the same. Each of the two loops keeps a record of its own, so they cannot be compared session by
session; but what a line does depends on the commands and what they remember only, and these stay
equal throughout.

Main results:

* `Alike.exists_executeLine`: a line does the same in sessions that are alike;
* `Passes.exists_passes`: so do lines, whatever place their faults are given, and the records differ
  in the reports only;
* `script_agrees_with_dialogue`: a dialogue and a script do the same.
-/

namespace CommandShell

/-- Whether an event is something that was done: a call, the end of a line dispatched from within a
call, a registration, output, or what a command wrote to the standard error. -/
def Event.isDeed : Event → Bool
  | .noted _ | .complained _ => false
  | _ => true

namespace Session

open Request (Leaves staying behind)

variable {limit number number' : Nat} {line path : String} {lines lines' : List String}
  {s s' t u : Session} {result : LineResult} {results : List LineResult}

/-! ## Deeds -/

/-- All that was done, in order. -/
def deeds (s : Session) : List Event := s.events.filter Event.isDeed

theorem deeds_of_events_eq {new : List Event} (h : t.events = s.events ++ new) :
    t.deeds = s.deeds ++ new.filter Event.isDeed := by
  rw [deeds, h, List.filter_append, deeds]

/-- The standard output is among the deeds. -/
theorem output_eq (s : Session) : s.output = String.join (s.deeds.map outputOf) := by
  unfold output deeds
  -- along the record; what is left out has printed nothing
  induction s.events with
  | nil => rfl
  | cons e events ih =>
    rw [List.map_cons, String.join_cons, ih]
    cases e with
    | noted | complained => simp [Event.isDeed, outputOf]
    | _ => rw [List.filter_cons_of_pos rfl, List.map_cons, String.join_cons]

/-- What is printed to show what became of a line. -/
def deedsOf : LineResult → List Event
  | .ok (.help signatures) => signatures.map fun signature => .printed ("  " ++ signature ++ "\n")
  | _ => []

/-- A report is no deed, so the place of a fault makes no difference. -/
theorem filter_isDeed_shownOf (locate : Fault → Fault) (result : LineResult) :
    (shownOf (result.mapError locate)).filter Event.isDeed = deedsOf result := by
  cases result with
  | error fault =>
    show ((locate fault).reportLines.map Event.complained).filter Event.isDeed = []
    simp [Event.isDeed]
  | ok outcome =>
    cases outcome with
    | help signatures =>
      refine List.filter_eq_self.mpr fun e he => ?_
      obtain ⟨signature, -, rfl⟩ := List.mem_map.mp he
      rfl
    | skipped | left | dispatched => rfl

/-! ## Sessions that are alike -/

/-- The sessions know the same commands, and these remember the same. -/
structure Alike (s t : Session) : Prop where
  catalog_eq : t.catalog = s.catalog
  memory_eq : t.memory = s.memory

theorem Alike.symm (h : s.Alike t) : t.Alike s := ⟨h.catalog_eq.symm, h.memory_eq.symm⟩

theorem alike_note (s : Session) (n : Note) : s.Alike (s.note n) := ⟨rfl, rfl⟩

theorem alike_present (s : Session) (result : LineResult) : s.Alike (s.present result) :=
  ⟨catalog_present s result, memory_present s result⟩

theorem Alike.trans (h : s.Alike t) (h' : t.Alike u) : s.Alike u :=
  ⟨h'.catalog_eq.trans h.catalog_eq, h'.memory_eq.trans h.memory_eq⟩

/-- **A line does the same in sessions that are alike**, and leaves them alike. -/
theorem Alike.exists_executeLine (h : s.Alike s')
    (hexecute : s.executeLine limit line = some (result, t)) :
    ∃ new t', s'.executeLine limit line = some (result, t') ∧ t.Alike t' ∧
      t.events = s.events ++ new ∧ t'.events = s'.events ++ new := by
  -- both sessions are the one in which nothing has happened, with a record before it
  let bare : Session := { s with events := [] }
  have hs : s = bare.since s.events := by simp [bare, since]
  have hs' : s' = bare.since s'.events := by
    simp [bare, since, ← h.catalog_eq, ← h.memory_eq]
  rw [hs, executeLine_since] at hexecute
  obtain ⟨⟨result', b⟩, hbare, heq⟩ := Option.map_eq_some_iff.mp hexecute
  obtain ⟨rfl, rfl⟩ := Prod.mk.inj heq
  refine ⟨b.events, b.since s'.events, ?_, ⟨rfl, rfl⟩, rfl, rfl⟩
  conv => lhs; rw [hs', executeLine_since, hbare]
  rfl

/-- Of a line, only its words matter. -/
theorem executeLine_congr {line' : String} (h : Text.words line' = Text.words line) :
    s.executeLine limit line' = s.executeLine limit line := by
  rw [executeLine, Request.ofLine, h]
  rfl

/-! ## The same blocks -/

/-- What is recorded while lines are gone through: for each line a block of what it does itself, and
behind that what is shown of it, when its fault is given a place. -/
def woven (locate : Nat → String → Fault → Fault) :
    Nat → List String → List LineResult → List (List Event) → List Event
  | number, line :: lines, result :: results, block :: blocks =>
    block ++ shownOf (result.mapError (locate number line)) ++
      woven locate (number + 1) lines results blocks
  | _, _, _, _ => []

/-- The place of a fault makes no difference to what is done, and neither do the lines
themselves. -/
theorem filter_isDeed_woven {blocks : List (List Event)}
    (locate locate' : Nat → String → Fault → Fault) (number number' : Nat)
    (h : lines.length = lines'.length) :
    (woven locate number lines results blocks).filter Event.isDeed =
      (woven locate' number' lines' results blocks).filter Event.isDeed := by
  -- along both rows of lines, which are of the same length
  induction lines generalizing number number' lines' results blocks with
  | nil =>
    obtain rfl := List.length_eq_zero_iff.mp h.symm
    rfl
  | cons line lines ih =>
    obtain ⟨line', lines', rfl⟩ := List.exists_cons_of_length_eq_add_one h.symm
    have hlengths : lines.length = lines'.length := Nat.succ.inj h
    cases results with
    | nil => rfl
    | cons result results =>
      cases blocks with
      | nil => rfl
      | cons block blocks =>
        simp only [woven, List.filter_append, filter_isDeed_shownOf]
        rw [ih (number + 1) (number' + 1) hlengths]

/-- **Lines of the same words do the same in sessions that are alike**, wherever they stand and
whatever place their faults are given. What each of them does itself is recorded alike, and makes no
report. -/
theorem Passes.exists_passes {locate : Nat → String → Fault → Fault}
    (h : Passes limit locate number lines results s t) (halike : s.Alike s')
    (hwords : List.Forall₂ (fun line line' => Text.words line' = Text.words line) lines lines')
    (locate' : Nat → String → Fault → Fault) (number' : Nat) :
    ∃ t', Passes limit locate' number' lines' results s' t' ∧ t.Alike t' ∧
      ∃ blocks : List (List Event), blocks.length = results.length ∧
        (∀ block ∈ blocks, ∀ text, .complained text ∉ block) ∧
        t.events = s.events ++ woven locate number lines results blocks ∧
        t'.events = s'.events ++ woven locate' number' lines' results blocks := by
  -- along the lines: the other session is alike before each line and after it, and so does the same
  induction h generalizing lines' s' number' with
  | nil number s =>
    cases hwords
    exact ⟨s', .nil number' s', halike, [], rfl, by simp, (List.append_nil _).symm,
      (List.append_nil _).symm⟩
  | @cons number line lines result results s t u stays executed _ ih =>
    obtain _ | ⟨hline, hlines⟩ := hwords
    next line' lines' =>
    obtain ⟨new, t', executed', halike', hevents, hevents'⟩ := halike.exists_executeLine executed
    -- the two may be shown different places, but that changes nothing they go by
    have hafter : (t.present (result.mapError (locate number line))).Alike
        (t'.present (result.mapError (locate' number' line'))) :=
      ((alike_present t _).symm.trans halike').trans (alike_present t' _)
    obtain ⟨u', hrest, halike'', blocks, hlength, hquiet, hu, hu'⟩ := ih hafter hlines (number' + 1)
    have stays' : ¬ Leaves line' := by rwa [Leaves, hline]
    -- the block is what the line adds to the record by itself, before anything is shown
    have hblock : ∀ text, .complained text ∉ new := by
      obtain ⟨new', hgrows⟩ := exists_grows_of_executeLine executed
      obtain rfl := List.append_cancel_left (hevents.symm.trans hgrows.events_eq)
      exact hgrows.quiet
    refine ⟨u', .cons stays' ((executeLine_congr hline).trans executed') hrest, halike'',
      new :: blocks, congrArg (· + 1) hlength, List.forall_mem_cons.mpr ⟨hblock, hquiet⟩, ?_, ?_⟩
    · rw [hu, events_present, hevents, woven]
      simp only [List.append_assoc]
    · rw [hu', events_present, hevents', woven]
      simp only [List.append_assoc]

/-! ## The two loops -/

section Loops

variable {console script : Settings} {files : FileReader}

/-- A dialogue on lines goes through those before the first that leaves, and says goodbye. -/
theorem exists_passes_of_run {answer : Except Fault Unit} {account : Account}
    (hbanner : console.banner = false)
    (h : s.run limit console (lines.map .line) = some (answer, account, t)) :
    answer = .ok () ∧ account.unread = (behind lines).map .line ∧
      ∃ u results, t = u.bidFarewell ∧ Passes limit unplaced 1 (staying lines) results s u := by
  rw [run, greet, hbanner, if_neg Bool.false_ne_true] at h
  cases hconverse : converse limit console (lines.map .line) {} s with
  | none => simp [hconverse] at h
  | some r =>
    obtain ⟨answer', account', u⟩ := r
    obtain ⟨rfl, hunread, results, hpasses⟩ := passes_of_converse 1 rfl hconverse
    simp only [hconverse, Option.some.injEq, Prod.mk.injEq] at h
    obtain ⟨rfl, rfl, rfl⟩ := h
    exact ⟨rfl, hunread, u, results, rfl, hpasses⟩

/-- Lines that can be gone through make a dialogue that ends. -/
theorem exists_run_of_passes (hbanner : console.banner = false)
    (h : Passes limit unplaced 1 (staying lines) results s t) :
    ∃ account, s.run limit console (lines.map .line) = some (.ok (), account, t.bidFarewell) := by
  obtain ⟨account, hconverse⟩ := exists_converse_of_passes h
  refine ⟨account, ?_⟩
  rw [run, greet, hbanner, if_neg Bool.false_ne_true, hconverse]

/-- A lost carriage return keeps no line from leaving, and makes none leave. -/
theorem staying_map_chomp (lines : List String) :
    staying (lines.map Text.chomp) = (staying lines).map Text.chomp := by
  have hleaves : (fun line => !decide (Leaves line)) ∘ Text.chomp =
      fun line => !decide (Leaves line) := by
    funext line
    have hline : Leaves (Text.chomp line) ↔ Leaves line := by rw [Leaves, Text.words_chomp, Leaves]
    rw [Function.comp, decide_eq_decide.mpr hline]
  rw [staying, List.takeWhile_map, hleaves, staying]

/-- A script that does not stop comes to what its lines come to. -/
theorem executeScript_eq_some_iff {outcome : Except Fault Summary}
    (hstop : script.stopOnError = false) (hlines : ∀ line ∈ lines, '\n' ∉ line.toList)
    (hfile : files path = .ok (Text.ofLines lines)) :
    s.executeScript limit script files path = some (outcome, t) ↔
      ∃ results, outcome = .ok (({} : Summary).after results) ∧
        Passes limit (scriptFault path) 1 ((staying lines).map Text.chomp) results
          (s.note (.runningScript path)) t := by
  rw [executeScript, hfile, hstop]
  dsimp only
  rw [Text.lines_ofLines hlines]
  cases outcome with
  | error fault => simp [executeLines_eq_error_iff]
  | ok summary =>
    rw [executeLines_eq_ok_iff, staying_map_chomp]
    constructor
    · rintro ⟨results, hpasses, -, rfl⟩
      exact ⟨results, rfl, hpasses⟩
    · rintro ⟨results, hsummary, hpasses⟩
      exact ⟨results, hpasses, by simp, Except.ok.inj hsummary⟩

theorem forall₂_words_chomp (lines : List String) :
    List.Forall₂ (fun line line' => Text.words line' = Text.words line) lines
      (lines.map Text.chomp) := by
  rw [List.forall₂_map_right_iff]
  exact List.forall₂_same.mpr fun line _ => Text.words_chomp line

end Loops

/-! ## The same reports -/

/-- Lines that are changed fail with the same faults in the same places. -/
theorem failures_map (f : String → String) (number : Nat) (lines : List String)
    (results : List LineResult) :
    failures number (lines.map f) results =
      (failures number lines results).map fun failure =>
        { failure with line := f failure.line } := by
  induction results generalizing number lines with
  | nil => cases lines <;> rfl
  | cons result results ih =>
    cases lines with
    | nil => rfl
    | cons line lines =>
      cases result with
      | error fault => rw [List.map_cons, failures, failures, List.map_cons, ih]
      | ok outcome => rw [List.map_cons, failures, failures, ih]

/-- The reports of a script: each of them is the report of a dialogue, followed by the place. -/
theorem Passes.script_complaints_eq
    (h : Passes limit (scriptFault path) number (lines.map Text.chomp) results s t) :
    t.complaints = s.complaints ++ (failures number lines results).flatMap fun f =>
      [f.fault.reportLine,
       "  " ++ (Place.mk (some path) (some f.number) (some (Text.trim f.line))).text ++ "\n"] := by
  rw [h.complaints_eq, failures_map, List.flatMap_map]
  refine congrArg (s.complaints ++ ·) (List.flatMap_congr fun f _ => ?_)
  -- a lost carriage return is white space at the end of the line, and that is not shown
  rw [scriptFault, Text.trim_chomp, Fault.reportLines_located]

/-- The reports of a dialogue are single lines, since there are no places. -/
theorem Passes.dialogue_complaints_eq (h : Passes limit unplaced number lines results s t) :
    t.complaints = s.complaints ++ (failures number lines results).map fun f =>
      f.fault.reportLine := by
  rw [h.complaints_eq, List.map_eq_flatMap]
  refine congrArg (s.complaints ++ ·) (List.flatMap_congr fun f hf => ?_)
  rw [unplaced, Fault.reportLines, h.place_eq_none f hf]
  rfl

theorem deeds_bidFarewell (s : Session) :
    s.bidFarewell.deeds = s.deeds ++ [.printed "\nGoodbye!\n"] := by
  simp [bidFarewell, deeds, Event.isDeed]

/-- The place of a fault in a script shows the line without the white space around it, so a lost
carriage return is not missed. -/
theorem woven_map_chomp (path : String) (number : Nat) (lines : List String)
    (results : List LineResult) (blocks : List (List Event)) :
    woven (scriptFault path) number (lines.map Text.chomp) results blocks =
      woven (scriptFault path) number lines results blocks := by
  have hlocate : ∀ number line,
      scriptFault path number (Text.chomp line) = scriptFault path number line := by
    intro number line
    funext fault
    rw [scriptFault, Text.trim_chomp, scriptFault]
  -- along the lines, of which the record keeps nothing but the places of faults
  induction lines generalizing number results blocks with
  | nil => rfl
  | cons line lines ih =>
    cases results with
    | nil => rfl
    | cons result results =>
      cases blocks with
      | nil => rfl
      | cons block blocks => rw [List.map_cons, woven, woven, hlocate, ih]

/-! ## The agreement -/

/-- What a dialogue goes through, a script goes through as well, and both records are woven of the
same blocks. -/
theorem Passes.exists_script (h : Passes limit unplaced 1 lines results s t) (path : String) :
    ∃ u, Passes limit (scriptFault path) 1 (lines.map Text.chomp) results
        (s.note (.runningScript path)) u ∧ t.Alike u ∧
      ∃ blocks : List (List Event), blocks.length = results.length ∧
        (∀ block ∈ blocks, ∀ text, .complained text ∉ block) ∧
        t.events = s.events ++ woven unplaced 1 lines results blocks ∧
        u.events = s.events ++ .noted (.runningScript path) ::
          woven (scriptFault path) 1 lines results blocks := by
  obtain ⟨u, hpasses, halike, blocks, hlength, hquiet, ht, hu⟩ :=
    h.exists_passes (alike_note s _) (forall₂_words_chomp lines) (scriptFault path) 1
  refine ⟨u, hpasses, halike, blocks, hlength, hquiet, ht, ?_⟩
  rw [hu, woven_map_chomp, note, events_record, List.append_assoc, List.singleton_append]

/-- What a script goes through, a dialogue goes through as well. -/
theorem Passes.exists_dialogue
    (h : Passes limit (scriptFault path) 1 (lines.map Text.chomp) results
      (s.note (.runningScript path)) u) :
    ∃ t, Passes limit unplaced 1 lines results s t := by
  have hwords : List.Forall₂ (fun line line' => Text.words line' = Text.words line)
      (lines.map Text.chomp) lines :=
    (forall₂_words_chomp lines).flip.imp fun _ _ heq => heq.symm
  obtain ⟨t, hpasses, -⟩ := h.exists_passes (alike_note s _).symm hwords unplaced 1
  exact ⟨t, hpasses⟩

/-- **A script does what a dialogue does.** On the same lines, neither comes to an end or both do.
Then both execute the lines before the first one that leaves, and no other; they do the same in the
same order, in the end the same commands are known and remember the same, and both print the same
but for the last words of the dialogue. The reports are the same as well, but each report of a
script is followed by the place. Everything stands in the same order in both records: each line has
a block of what it does itself, in which nothing is reported, and behind it what is shown of the
line. The script counts the lines that ran a command and those that failed in the dialogue. -/
theorem script_agrees_with_dialogue (limit : Nat) (s : Session) {console script : Settings}
    {files : FileReader} {path : String} {lines : List String}
    (hbanner : console.banner = false) (hstop : script.stopOnError = false)
    (hlines : ∀ line ∈ lines, '\n' ∉ line.toList)
    (hfile : files path = .ok (Text.ofLines lines)) :
    (s.run limit console (lines.map .line) = none ∧
      s.executeScript limit script files path = none) ∨
    ∃ account t u results,
      s.run limit console (lines.map .line) = some (.ok (), account, t) ∧
      s.executeScript limit script files path =
        some (.ok ⟨results.countP LineResult.isDispatched, results.countP LineResult.isFailed⟩, u) ∧
      (∃ t', Passes limit unplaced 1 (staying lines) results s t' ∧ t = t'.bidFarewell) ∧
      t.catalog = u.catalog ∧ t.memory = u.memory ∧
      t.deeds = u.deeds ++ [.printed "\nGoodbye!\n"] ∧ t.output = u.output ++ "\nGoodbye!\n" ∧
      t.complaints = s.complaints ++
        (failures 1 (staying lines) results).map (fun f => f.fault.reportLine) ∧
      u.complaints = s.complaints ++ (failures 1 (staying lines) results).flatMap (fun f =>
        [f.fault.reportLine,
         "  " ++ (Place.mk (some path) (some f.number) (some (Text.trim f.line))).text ++ "\n"]) ∧
      (∃ blocks : List (List Event), blocks.length = results.length ∧
        (∀ block ∈ blocks, ∀ text, .complained text ∉ block) ∧
        t.events = s.events ++ woven unplaced 1 (staying lines) results blocks ++
          [.printed "\nGoodbye!\n"] ∧
        u.events = s.events ++ .noted (.runningScript path) ::
          woven (scriptFault path) 1 (staying lines) results blocks) ∧
      account.unread = (behind lines).map .line ∧
      ∀ files', files' path = .ok (Text.ofLines (staying lines)) →
        s.executeScript limit script files' path = s.executeScript limit script files path := by
  cases hrun : s.run limit console (lines.map .line) with
  | none =>
    refine .inl ⟨rfl, ?_⟩
    cases hscript : s.executeScript limit script files path with
    | none => rfl
    | some r =>
      -- a script that comes to its end takes the dialogue with it
      obtain ⟨results, -, hpasses⟩ := (executeScript_eq_some_iff hstop hlines hfile).mp hscript
      obtain ⟨t, hdialogue⟩ := hpasses.exists_dialogue
      obtain ⟨account, hends⟩ := exists_run_of_passes hbanner hdialogue
      simp [hrun] at hends
  | some r =>
    obtain ⟨answer, account, t⟩ := r
    obtain ⟨rfl, hunread, t, results, rfl, hpasses⟩ := exists_passes_of_run hbanner hrun
    obtain ⟨u, hscript, halike, blocks, hlength, hquiet, ht, hu⟩ := hpasses.exists_script path
    -- the records are woven of the same blocks, and only these hold deeds
    have hdeeds : u.deeds = t.deeds := by
      rw [deeds_of_events_eq hu, deeds_of_events_eq ht,
        List.filter_cons_of_neg (by simp [Event.isDeed]),
        filter_isDeed_woven (scriptFault path) unplaced 1 1 rfl]
    have hends := (executeScript_eq_some_iff hstop hlines hfile).mpr ⟨results, rfl, hscript⟩
    have hfarewell : t.bidFarewell.deeds = u.deeds ++ [.printed "\nGoodbye!\n"] := by
      rw [deeds_bidFarewell, hdeeds]
    refine .inr ⟨account, _, u, results, rfl, ?_, ⟨t, hpasses, rfl⟩, ?_, ?_, hfarewell, ?_, ?_, ?_,
      ⟨blocks, hlength, hquiet, ?_, hu⟩, hunread, ?_⟩
    · rw [hends, Summary.after_empty]
    · exact (catalog_printLines t _).trans halike.catalog_eq.symm
    · exact (memory_printLines t _).trans halike.memory_eq.symm
    · rw [output_eq, hfarewell, List.map_append, String.join_append, ← output_eq]
      rfl
    · rw [bidFarewell, (quietly_printLines t _).complaints_eq, hpasses.dialogue_complaints_eq]
    · rw [hscript.script_complaints_eq, (onlyNoted_note s _).quietly.complaints_eq]
    · rw [bidFarewell, events_printLines, ht]
      rfl
    · intro files' hfile'
      have hstaying : ∀ line ∈ staying lines, '\n' ∉ line.toList := fun line hline =>
        hlines line ((List.takeWhile_sublist _).subset hline)
      rw [hends]
      refine (executeScript_eq_some_iff hstop hstaying hfile').mpr ⟨results, rfl, ?_⟩
      rwa [Request.staying_eq_self hpasses.not_leaves]

/-- A typed carriage return, a comment, a line that fails, help, and a line behind the exit. -/
theorem script_agrees_with_dialogue_typed :
    let s := Demo.register (.start .empty)
    let console : Settings := { banner := false }
    let lines := ["give 3\r", "", "  # note", "fly away", "help tp", "\texit ", "give 4"]
    let files : FileReader := fun _ => .ok (Text.ofLines lines)
    console.banner = false ∧ (∀ line ∈ lines, '\n' ∉ line.toList) ∧
    files "a.kl" = .ok (Text.ofLines lines) ∧
    ∃ account t u, s.run 2 console (lines.map .line) = some (.ok (), account, t) ∧
      s.executeScript 2 {} files "a.kl" = some (.ok ⟨1, 1⟩, u) ∧
      t.deeds = u.deeds ++ [.printed "\nGoodbye!\n"] ∧
      u.output = "You receive 3 coin(s).\n  tp home\n  tp <place: str>\n" ∧
      account.unread = [.line "give 4"] := by
  intro s console lines files
  have hbanner : console.banner = false := rfl
  have hstop : ({} : Settings).stopOnError = false := rfl
  have hfile : files "a.kl" = .ok (Text.ofLines lines) := rfl
  have hlines : ∀ line ∈ lines, '\n' ∉ line.toList := by decide
  have hscript : (s.executeScript 2 {} files "a.kl").map (fun r => (r.1.toOption, r.2.output)) =
      some (some ⟨1, 1⟩, "You receive 3 coin(s).\n  tp home\n  tp <place: str>\n") := by
    decide +kernel
  have hbehind : behind lines = ["give 4"] := by decide
  refine ⟨hbanner, hlines, hfile, ?_⟩
  rcases script_agrees_with_dialogue 2 s hbanner hstop hlines hfile with
    ⟨-, hnone⟩ | ⟨account, t, u, results, hrun, hends, -, -, -, hdeeds, -, -, -, -, hunread, -⟩
  · simp [hnone] at hscript
  · simp only [hends, Option.map_some, Option.some.injEq, Prod.mk.injEq, Except.toOption,
      Option.some.injEq] at hscript
    rw [hscript.1] at hends
    exact ⟨account, t, u, hrun, hends, hdeeds, hscript.2, by rw [hunread, hbehind]; rfl⟩

end Session

end CommandShell
