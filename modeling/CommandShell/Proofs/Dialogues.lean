import CommandShell.Demo
import CommandShell.Proofs.Passage

/-!
# What a dialogue asks of its line editor

Whether a dialogue goes on after a reading can be seen from the reading alone, whatever came of it:
only the end of the input, a failure of the line editor and a line that leaves bring it to its end.
So the readings that it asks for can be told beforehand, and they settle all its dealings with the
line editor but one. What it offers for completion depends on the commands that are known, and
these may become more with every line.

Main definitions:

* `Reading.asked`: the readings that a dialogue asks for;
* `Session.answerAll`: the session after some readings were answered.

Main results:

* `Session.respond_eq`: the answer to a reading, and whether there is to be another;
* `Session.converse_eq`: all that a dialogue comes to, in terms of the readings that it asks for;
* `Session.run_accounts_for_readings`: its dealings with the line editor.
-/

namespace CommandShell

/-! ## Readings -/

/-- A dialogue goes on after a reading. -/
def Reading.GoesOn : Reading → Prop
  | .line text => ¬ Request.Leaves text
  | .interrupted => True
  | .ended | .failed _ => False

instance : DecidablePred Reading.GoesOn := by
  intro r
  cases r <;> unfold Reading.GoesOn <;> infer_instance

namespace Reading

/-- Whether there is to be another reading after one, or the fault if it failed. -/
def verdict : Reading → Except Fault Bool
  | .line text => .ok !decide (Request.Leaves text)
  | .interrupted => .ok true
  | .ended => .ok false
  | .failed message => .error (.of (.editor message))

/-- The readings that a dialogue asks for. After the last one the input has ended. -/
def asked : List Reading → List Reading
  | [] => [.ended]
  | r :: rest => if r.GoesOn then r :: asked rest else [r]

/-- What a dialogue ends with. -/
def ending : List Reading → Except Fault Unit
  | [] => .ok ()
  | r :: rest =>
    match r.verdict with
    | .error fault => .error fault
    | .ok false => .ok ()
    | .ok true => ending rest

/-- The text of a reading that is a line. -/
def text? : Reading → Option String
  | .line text => some text
  | _ => none

variable {r : Reading} {rest readings : List Reading} {fault : Fault}

/-- All that a reading can say about the one after it. -/
theorem verdict_cases (r : Reading) :
    (r.GoesOn ∧ r.verdict = .ok true) ∨ (¬ r.GoesOn ∧ r.verdict = .ok false) ∨
    (¬ r.GoesOn ∧ ∃ message, r = .failed message ∧ r.verdict = .error (.of (.editor message))) := by
  cases r with
  | line text =>
    by_cases hleaves : Request.Leaves text
    · have hends : ¬ (line text).GoesOn := fun hstays => hstays hleaves
      exact .inr (.inl ⟨hends, by simp [verdict, hleaves]⟩)
    · exact .inl ⟨hleaves, by simp [verdict, hleaves]⟩
  | interrupted => exact .inl ⟨trivial, rfl⟩
  | ended => exact .inr (.inl ⟨id, rfl⟩)
  | failed message => exact .inr (.inr ⟨id, message, rfl, rfl⟩)

/-- After a reading that goes on, there is to be another. -/
theorem verdict_of_goesOn (h : r.GoesOn) : r.verdict = .ok true := by
  rcases verdict_cases r with ⟨-, hverdict⟩ | ⟨hends, -⟩ | ⟨hends, -⟩
  · exact hverdict
  · exact absurd h hends
  · exact absurd h hends

theorem asked_of_goesOn (h : r.GoesOn) : asked (r :: rest) = r :: asked rest := if_pos h

theorem asked_of_not_goesOn (h : ¬ r.GoesOn) : asked (r :: rest) = [r] := if_neg h

/-- What a dialogue ends with is decided by the reading that ends it. -/
theorem ending_of_goesOn (h : r.GoesOn) : ending (r :: rest) = ending rest := by
  rw [ending, verdict_of_goesOn h]

/-- **The readings that are asked for** are those up to the first after which a dialogue does not go
on. -/
theorem asked_eq_take (readings : List Reading) :
    asked readings = (readings ++ [ended]).take
      ((readings ++ [ended]).findIdx (fun r => !decide (GoesOn r)) + 1) := by
  -- along the readings; where they are over, the end of the input is the one to stop at
  induction readings with
  | nil => rfl
  | cons r rest ih =>
    rw [List.cons_append, List.findIdx_cons, List.take_succ_cons]
    by_cases h : r.GoesOn
    · rw [asked_of_goesOn h, ih]
      simp [h]
    · rw [asked_of_not_goesOn h]
      simp [h]

/-- As many readings are asked for as come up to the first after which a dialogue does not go on. -/
theorem length_asked (readings : List Reading) :
    (asked readings).length =
      (readings ++ [ended]).findIdx (fun r => !decide (GoesOn r)) + 1 := by
  -- the end of the input is a reading to stop at, if there is no other
  have hlt : (readings ++ [ended]).findIdx (fun r => !decide (GoesOn r)) <
      (readings ++ [ended]).length :=
    List.findIdx_lt_length_of_exists ⟨ended, by simp, by decide⟩
  rw [asked_eq_take, List.length_take]
  omega

/-- A dialogue ends with a fault if the reading that ends it failed. -/
theorem ending_eq_error_iff :
    ending readings = .error fault ↔ ∃ message,
      readings.find? (fun r => !decide (GoesOn r)) = some (.failed message) ∧
        fault = .of (.editor message) := by
  induction readings with
  | nil => simp [ending]
  | cons r rest ih =>
    by_cases h : r.GoesOn
    · rw [ending_of_goesOn h, ih, List.find?_cons_of_neg (by simp [h])]
    · rw [List.find?_cons_of_pos (by simp [h]), ending]
      -- this is the reading that ends the dialogue; only one that failed does so with a fault
      cases r with
      | failed message => simp [verdict, eq_comm]
      | line text =>
        have hleaves : Request.Leaves text := Classical.not_not.mp h
        simp [verdict, hleaves]
      | interrupted => exact absurd trivial h
      | ended => simp [verdict]

/-- The reading that ends a dialogue is the last one that is asked for. -/
theorem find?_eq_some_failed_iff {message : String} :
    readings.find? (fun r => !decide (GoesOn r)) = some (.failed message) ↔
      (readings ++ [ended])[(readings ++ [ended]).findIdx fun r => !decide (GoesOn r)]? =
        some (.failed message) := by
  have hended : [ended].find? (fun r => !decide (GoesOn r)) = some ended := by decide
  rw [← List.find?_eq_getElem?_findIdx, List.find?_append, hended]
  cases readings.find? fun r => !decide (GoesOn r) <;> simp

/-- A line is remembered if it has a character that is no white space. -/
theorem remembered?_eq (r : Reading) :
    r.remembered? = r.text?.filter fun text => text.toList.any fun c => !Text.isBlank c := by
  cases r with
  | line text =>
    rw [remembered?, text?, Option.filter_some, Text.isBlankLine, ← List.not_all_eq_any_not]
    cases text.toList.all Text.isBlank <;> rfl
  | interrupted | ended | failed => rfl

/-- What is remembered are the lines with a character that is no white space. -/
theorem filterMap_remembered? (readings : List Reading) :
    readings.filterMap remembered? =
      (readings.filterMap text?).filter fun text => text.toList.any fun c => !Text.isBlank c := by
  rw [List.filter_filterMap]
  exact List.filterMap_congr fun r _ => remembered?_eq r

end Reading

namespace Session

open Request (Leaves)

variable {limit : Nat} {settings : Settings} {reading : Reading} {readings rest : List Reading}
  {account account' : Account} {s t u : Session}

/-! ## Answers -/

/-- The session after a reading was answered. -/
def answer (limit : Nat) (s : Session) : Reading → Option Session
  | .line text => (s.executeLine limit text).map fun r => r.2.present r.1
  | .interrupted => some (s.print "\n")
  | .ended | .failed _ => some s

/-- The session after some readings were answered, one after the other. -/
def answerAll (limit : Nat) : List Reading → Session → Option Session
  | [], s => some s
  | r :: rest, s => (s.answer limit r).bind (answerAll limit rest)

/-- **The answer to a reading** takes its course whether or not there is to be another, and whether
there is to be another can be seen from the reading. -/
theorem respond_eq (limit : Nat) (r : Reading) (s : Session) :
    s.respond limit r = (s.answer limit r).map fun t => (r.verdict, t) := by
  cases r with
  | line text =>
    rw [respond_line, answer, Option.map_map]
    rfl
  | interrupted | ended | failed => rfl

/-! ## The dealings with the line editor -/

/-- The words that are offered for completion at each of some readings. -/
def offers (limit : Nat) : List Reading → Session → List (List String)
  | [], _ => []
  | r :: rest, s => s.completions :: ((s.answer limit r).map (offers limit rest)).getD []

/-- The account of the readings that are asked for. -/
def accountAfter (limit : Nat) (settings : Settings) (readings : List Reading) (account : Account)
    (s : Session) : Account where
  prompts := account.prompts ++ List.replicate (Reading.asked readings).length settings.prompt
  history := account.history ++ (Reading.asked readings).filterMap Reading.remembered?
  offered := account.offered ++ offers limit (Reading.asked readings) s
  unread := readings.drop (Reading.asked readings).length

theorem filterMap_remembered?_cons (r : Reading) (rest : List Reading) :
    (r :: rest).filterMap Reading.remembered? =
      r.remembered?.toList ++ rest.filterMap Reading.remembered? := by
  cases h : r.remembered? with
  | none => rw [List.filterMap_cons_none h]; rfl
  | some text => rw [List.filterMap_cons_some h]; rfl

theorem accountAfter_of_not_goesOn (h : ¬ reading.GoesOn)
    (hanswer : s.answer limit reading = some t) :
    accountAfter limit settings (reading :: rest) account s =
      { accountFor settings s account reading with unread := rest } := by
  rw [accountAfter, Reading.asked_of_not_goesOn h, filterMap_remembered?_cons]
  simp [accountFor, offers, hanswer]

theorem accountAfter_of_goesOn (h : reading.GoesOn) (hanswer : s.answer limit reading = some t) :
    accountAfter limit settings (reading :: rest) account s =
      accountAfter limit settings rest (accountFor settings s account reading) t := by
  rw [accountAfter, Reading.asked_of_goesOn h, filterMap_remembered?_cons]
  simp [accountAfter, accountFor, offers, hanswer, List.replicate_succ]

/-- **All that a dialogue comes to.** It answers the readings that it asks for, and if an answer
does not come to its end, neither does the dialogue. -/
theorem converse_eq (hunread : account.unread = []) :
    converse limit settings readings account s =
      (answerAll limit (Reading.asked readings) s).map fun t =>
        (Reading.ending readings, accountAfter limit settings readings account s, t) := by
  induction readings generalizing account s with
  | nil =>
    -- the end of the input is one more reading, and nothing is unread then
    simp [converse, Reading.asked, answerAll, answer, Reading.ending, accountAfter, accountFor,
      offers, hunread, Reading.remembered?]
  | cons r rest ih =>
    rw [converse, respond_eq]
    -- an answer that does not end is the end of it all; otherwise the reading says whether to go on
    cases hanswer : s.answer limit r with
    | none =>
      by_cases h : r.GoesOn
      · rw [Reading.asked_of_goesOn h, answerAll, hanswer]
        rfl
      · rw [Reading.asked_of_not_goesOn h, answerAll, hanswer]
        rfl
    | some t =>
      rcases Reading.verdict_cases r with
        ⟨h, hverdict⟩ | ⟨h, hverdict⟩ | ⟨h, message, -, hverdict⟩
      · have hunread' : (accountFor settings s account r).unread = [] := hunread
        rw [Reading.asked_of_goesOn h, Reading.ending_of_goesOn h, answerAll, hanswer,
          accountAfter_of_goesOn h hanswer, Option.bind_some, ← ih hunread', Option.map_some,
          hverdict]
      · rw [Reading.asked_of_not_goesOn h, accountAfter_of_not_goesOn h hanswer, answerAll, hanswer,
          Reading.ending, hverdict]
        rfl
      · rw [Reading.asked_of_not_goesOn h, accountAfter_of_not_goesOn h hanswer, answerAll, hanswer,
          Reading.ending, hverdict]
        rfl

/-- What is offered at a reading are the completions of the session after the readings before it
were answered. -/
theorem exists_offers_eq (h : answerAll limit readings s = some u) :
    (offers limit readings s).length = readings.length ∧
    ∀ i < readings.length, ∃ v, answerAll limit (readings.take i) s = some v ∧
      (offers limit readings s)[i]? = some v.completions := by
  -- along the readings, each of which is answered in the session after the others
  induction readings generalizing s with
  | nil => exact ⟨rfl, by simp⟩
  | cons r rest ih =>
    rw [answerAll] at h
    obtain ⟨t, hanswer, hrest⟩ := Option.bind_eq_some_iff.mp h
    obtain ⟨hlength, hoffers⟩ := ih hrest
    have hcons : offers limit (r :: rest) s = s.completions :: offers limit rest t := by
      rw [offers, hanswer]
      rfl
    rw [hcons]
    refine ⟨congrArg (· + 1) hlength, ?_⟩
    intro i hi
    -- the first offer is made before anything is answered, and the others after the first answer
    cases i with
    | zero => exact ⟨s, rfl, rfl⟩
    | succ i =>
      obtain ⟨v, hv, hoffer⟩ := hoffers i (Nat.lt_of_succ_lt_succ hi)
      refine ⟨v, ?_, hoffer⟩
      rw [List.take_succ_cons, answerAll, hanswer]
      exact hv

/-- **The dealings of a dialogue with its line editor.** The last reading that it asks for is the
first one that ended the input, failed or is a line that leaves; the input ends behind the last
reading. If the answers to these readings come to their end, so does the dialogue. For each of them
it shows the prompt of its settings, and offers the keywords that are known after the readings
before it, and then its own words; of the lines among them it has those remembered that have more
than white space; and it leaves the readings behind them alone. It ends with a fault exactly if the
last one failed, and that is the fault. Its last words are the last that it prints, and it says them
exactly if there is no fault. -/
theorem run_accounts_for_readings (limit : Nat) (settings : Settings) (readings : List Reading)
    (s : Session) :
    let reads := readings ++ [Reading.ended]
    let last := reads.findIdx fun r => !decide r.GoesOn
    (answerAll limit (reads.take (last + 1)) (s.greet settings) = none ∧
      s.run limit settings readings = none) ∨
    ∃ u result account t,
      answerAll limit (reads.take (last + 1)) (s.greet settings) = some u ∧
      s.run limit settings readings = some (result, account, t) ∧
      account.prompts = List.replicate (last + 1) settings.prompt ∧
      account.offered.length = last + 1 ∧
      (∀ i ≤ last, ∃ v, answerAll limit (reads.take i) (s.greet settings) = some v ∧
        account.offered[i]? = some (v.catalog.keywords ++ ["help", "exit", "quit"])) ∧
      account.history = ((reads.take (last + 1)).filterMap Reading.text?).filter
        (fun text => text.toList.any fun c => !Text.isBlank c) ∧
      account.unread = readings.drop (last + 1) ∧
      (∀ fault, result = .error fault ↔
        ∃ message, reads[last]? = some (.failed message) ∧ fault = .of (.editor message)) ∧
      (result = .ok () → t.events = u.events ++ [.printed "\nGoodbye!\n"] ∧
        t.output = u.output ++ "\nGoodbye!\n") ∧
      (result ≠ .ok () → t = u) := by
  intro reads last
  have hasked : reads.take (last + 1) = Reading.asked readings :=
    (Reading.asked_eq_take readings).symm
  have hlength : (Reading.asked readings).length = last + 1 := Reading.length_asked readings
  have hconverse : converse limit settings readings {} (s.greet settings) =
      (answerAll limit (Reading.asked readings) (s.greet settings)).map fun u =>
        (Reading.ending readings, accountAfter limit settings readings {} (s.greet settings), u) :=
    converse_eq rfl
  rw [hasked]
  -- the readings are asked for whatever becomes of them, so the cases are those of their answers
  cases hanswers : answerAll limit (Reading.asked readings) (s.greet settings) with
  | none =>
    rw [hanswers, Option.map_none] at hconverse
    exact .inl ⟨rfl, by rw [run, hconverse]⟩
  | some u =>
    rw [hanswers, Option.map_some] at hconverse
    obtain ⟨hoffered, hoffers⟩ := exists_offers_eq hanswers
    have hoffer : ∀ i ≤ last, ∃ v, answerAll limit (reads.take i) (s.greet settings) = some v ∧
        (offers limit (Reading.asked readings) (s.greet settings))[i]? =
          some (v.catalog.keywords ++ ["help", "exit", "quit"]) := by
      intro i hi
      obtain ⟨v, hv, hoffer⟩ := hoffers i (by omega)
      refine ⟨v, ?_, hoffer⟩
      rw [← hasked, List.take_take, Nat.min_eq_left (by omega)] at hv
      exact hv
    have hfault : ∀ fault, Reading.ending readings = .error fault ↔
        ∃ message, reads[last]? = some (.failed message) ∧ fault = .of (.editor message) := by
      intro fault
      simp only [Reading.ending_eq_error_iff, Reading.find?_eq_some_failed_iff]
      rfl
    -- the account began with nothing in it
    have haccount : accountAfter limit settings readings {} (s.greet settings) =
        ⟨List.replicate (last + 1) settings.prompt,
          (Reading.asked readings).filterMap Reading.remembered?,
          offers limit (Reading.asked readings) (s.greet settings), readings.drop (last + 1)⟩ := by
      rw [accountAfter, hlength]
      rfl
    have hrun : ∃ t, s.run limit settings readings = some (Reading.ending readings,
          accountAfter limit settings readings {} (s.greet settings), t) ∧
        (Reading.ending readings = .ok () → t = u.bidFarewell) ∧
        (Reading.ending readings ≠ .ok () → t = u) := by
      rw [run, hconverse]
      cases Reading.ending readings with
      | error fault => exact ⟨u, rfl, nofun, fun _ => rfl⟩
      | ok => exact ⟨u.bidFarewell, rfl, fun _ => rfl, fun h => absurd rfl h⟩
    obtain ⟨t, hrun, hfarewell, hsilent⟩ := hrun
    rw [haccount] at hrun
    refine .inr ⟨u, _, _, t, rfl, hrun, rfl, hoffered.trans hlength, hoffer,
      Reading.filterMap_remembered? _, rfl, hfault, ?_, hsilent⟩
    intro hok
    have hevents : t.events = u.events ++ [.printed "\nGoodbye!\n"] := by
      rw [hfarewell hok, bidFarewell, events_printLines]
      rfl
    refine ⟨hevents, ?_⟩
    rw [output, hevents, List.map_append, String.join_append, ← output]
    rfl

/-- A line that fails, a blank one and an interruption before the line that leaves. -/
example :
    let readings : List Reading :=
      [.line "fly", .line "  ", .interrupted, .line "give 1", .line "exit ", .line "give 2"]
    ((Demo.register (.start .empty)).run 2 { prompt := "> ", banner := false } readings).map
        (fun r => (r.2.1.prompts, r.2.1.history, r.2.1.unread, r.2.2.output)) =
      some (["> ", "> ", "> ", "> ", "> "], ["fly", "give 1", "exit "], [.line "give 2"],
        "\nYou receive 1 coin(s).\n\nGoodbye!\n") := by
  decide +kernel

end Session

end CommandShell
