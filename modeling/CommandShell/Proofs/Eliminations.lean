import CommandShell.Proofs.Progress

/-!
# Notes account for commands

Of every row of words whose keyword is known, a contest takes notes: one before the first round, one
for each command that it drops, and one about how it ended. A command can be dropped at three
places. A parameter may not accept the words at hand; a complete candidate may be asked again
although words are left, because others go on; and words may be left when nobody goes on. Here it is
shown that these places make one account: no command is dropped twice, none vanishes without a note,
and none has a note that fits the words. What a note says of a command is true of the command
matched alone, since the contest changes nothing about how far it comes.

Two invariants carry this through the rounds. A candidate has read the beginning of what its command
reads alone, and has the rest in prospect (`Candidate.Faithful`). And those that have been dropped,
one for each note, are together with those still in the running all commands of the contest
(`Contest.Accounted`).

Main definitions:

* `Command.Eliminated`: what a note may say of a command that has been dropped;
* `Note.Concludes`: which last note belongs to which result.

Main results:

* `Candidate.Faithful.of_next?` / `Candidate.Faithful.of_dropped`: what is in prospect is read, and
  whoever is dropped does not fit;
* `Contest.Accounted.of_round`: a round keeps the account;
* `Catalog.notes_account_for_overloads`: the notes of any row of words.
-/

namespace CommandShell

/-! ## What notes say -/

/-- What a note may say of a command that has been dropped: the position that it comes to when it is
matched alone, or, if all its parameters are matched, how many words it leaves over. -/
inductive Command.Eliminated (tokens : List String) (c : Command) : Note → Prop where
  | rejected : Eliminated tokens c (.rejected c.signature (c.trial tokens).position)
  | leftOver {n : Nat} (matched : (c.trial tokens).values.length = c.arity)
      (left : (c.trial tokens).position + n = tokens.length) :
      Eliminated tokens c (.leftOver c.signature n)

/-- Which last note belongs to which result: it has the command that is called, the furthest
position, or the number of signatures that are listed. -/
inductive Note.Concludes (keyword : String) : Except Fault Invocation → Note → Prop where
  | resolved (call : Invocation) :
      Concludes keyword (.ok call) (.resolved call.command.signature)
  | noneSurvived (furthest : Nat) :
      Concludes keyword (.error (.of (.noViableOverload keyword furthest)))
        (.noneSurvived keyword furthest)
  | ambiguous (signatures : List String) :
      Concludes keyword (.error (.of (.ambiguousCommand keyword signatures)))
        (.ambiguous keyword signatures.length)

theorem Command.Eliminated.level_eq {tokens : List String} {c : Command} {note : Note}
    (h : c.Eliminated tokens note) : note.level = .trace := by
  cases h <;> rfl

theorem map_level_of_eliminated {tokens : List String} {losers : List Command} {notes : List Note}
    (h : List.Forall₂ (Command.Eliminated tokens) losers notes) :
    notes.map Note.level = List.replicate notes.length .trace := by
  induction h with
  | nil => rfl
  | cons hnote _ ih => rw [List.map_cons, hnote.level_eq, ih, List.length_cons, List.replicate_succ]

theorem Note.Concludes.level_eq {keyword : String} {result : Except Fault Invocation} {note : Note}
    (h : note.Concludes keyword result) : note.level = .debug := by
  cases h <;> rfl

/-! ## Candidates -/

namespace Candidate

/-- What a candidate has read and what it has in prospect make up the trial of its command. -/
def Faithful (tokens : List String) (c : Candidate) : Prop :=
  c.command.trial tokens = ⟨c.values ++ (c.prospect tokens).values, c.goal tokens⟩

variable {tokens : List String} {c d : Candidate}

/-- Before its first argument a candidate has its whole trial in prospect. -/
theorem faithful_start (tokens : List String) (command : Command) :
    (start tokens command).Faithful tokens := rfl

theorem command_of_next? (hd : c.next? = some d) : d.command = c.command := by
  rcases eq_or_matched_of_step (step_eq_of_next? hd) with ⟨-, rfl⟩ | ⟨-, hsame, -⟩
  · rfl
  · exact hsame

/-- **A step keeps a candidate faithful**: the value that is read was in prospect. -/
theorem Faithful.of_next? (hfaithful : c.Faithful tokens) (h : c.OnTrack tokens)
    (hd : c.next? = some d) : d.Faithful tokens := by
  rcases next?_eq_some_cases h hd with ⟨-, -, rfl⟩ | ⟨p, ps, v, q, hmore, hcons, hread, rfl⟩
  · exact hfaithful
  · have hprospect := prospect_after hmore hcons hread
    have hgoal : c.goal tokens = (c.after tokens hmore v q).goal tokens := by
      rw [goal, hprospect]
    show c.command.trial tokens =
      ⟨(c.values ++ [v]) ++ ((c.after tokens hmore v q).prospect tokens).values, _⟩
    rw [hfaithful, hgoal, hprospect, List.append_assoc, List.singleton_append]

/-- A faithful candidate comes as far as its command alone. -/
theorem Faithful.position_eq (h : c.Faithful tokens) :
    (c.command.trial tokens).position = c.goal tokens := by
  rw [h]

/-- A candidate that is dropped in a round does not fit, and its command alone comes no further. -/
theorem Faithful.of_dropped (hfaithful : c.Faithful tokens) (h : c.Sound tokens)
    (hdropped : c.next? = none) :
    ¬ c.command.Fits tokens ∧ c.command.Eliminated tokens c.rejection := by
  have hgoal := goal_next? h.onTrack
  rw [hdropped] at hgoal
  refine ⟨?_, ?_⟩
  · rintro ⟨hvalues, hposition⟩
    -- there are two ways to be dropped in a round, and each of them shows what is missing
    rcases next?_eq_none_cases h.onTrack hdropped with ⟨-, hleft⟩ | ⟨p, ps, hcons, hstuck⟩
    · -- words are left
      rw [hfaithful.position_eq, hgoal] at hposition
      exact hleft hposition
    · -- the parameter at hand has no value
      have hlt := (List.getElem?_eq_some_iff.mp (param_of_remaining_eq_cons hcons)).1
      rw [hfaithful, prospect_of_stuck hcons hstuck, List.append_nil, h.length_values] at hvalues
      exact Nat.ne_of_lt hlt hvalues
  · rw [rejection, ← hgoal, ← hfaithful.position_eq]
    exact .rejected

/-- A complete candidate fits exactly if no word is left, and otherwise it is told how many are. -/
theorem Faithful.of_isComplete (hfaithful : c.Faithful tokens) (h : c.Sound tokens)
    (hcomplete : c.isComplete = true) :
    (c.command.Fits tokens ↔ c.isExhausted = true) ∧
      c.command.Eliminated tokens c.surplus := by
  have hnil := isComplete_iff.mp hcomplete
  have hprospect : c.prospect tokens = ⟨[], c.cursor.position⟩ := prospect_of_complete hnil
  have hposition : (c.command.trial tokens).position = c.cursor.position := by
    rw [hfaithful.position_eq, goal, hprospect]
  have hvalues : (c.command.trial tokens).values.length = c.command.arity := by
    rw [hfaithful, hprospect, List.append_nil]
    exact (h.forall₂_of_isComplete hcomplete).length_eq
  refine ⟨?_, ?_⟩
  · -- all parameters are matched, so to fit is to leave no word
    rw [isExhausted_iff h.onTrack, ← hposition]
    exact ⟨fun hfits => hfits.2, fun hend => ⟨hvalues, hend⟩⟩
  · obtain ⟨n, hsurplus, hleft⟩ := h.exists_surplus_eq
    rw [hsurplus]
    exact .leftOver hvalues (hposition ▸ hleft)

end Candidate

/-! ## Rounds -/

namespace Contest

variable {tokens : List String} {commands : List Command} {contest : Contest}

/-- Every command of a contest is either still in the running or has been dropped with one note, and
those that have been dropped do not fit. -/
structure Accounted (tokens : List String) (commands dropped : List Command) (contest : Contest) :
    Prop where
  faithful : ∀ c ∈ contest.candidates, c.Faithful tokens
  perm : (dropped ++ contest.candidates.map Candidate.command).Perm commands
  notes : List.Forall₂ (Command.Eliminated tokens) dropped contest.notes
  not_fits : ∀ c ∈ dropped, ¬ c.Fits tokens

/-- Before the first round nobody has been dropped. -/
theorem accounted_start (tokens : List String) (commands : List Command) :
    Accounted tokens commands [] (Contest.start tokens commands) where
  faithful := by
    intro c hc
    obtain ⟨command, -, rfl⟩ := List.mem_map.mp hc
    exact Candidate.faithful_start tokens command
  perm := by
    show ((start tokens commands).candidates.map Candidate.command).Perm commands
    rw [map_command_start]
  notes := .nil
  not_fits := by simp

/-- In a round, every candidate is dropped or stays, under the same command. -/
theorem map_command_round_perm (cs : List Candidate) :
    ((cs.filter fun c => c.next?.isNone).map Candidate.command ++
      (cs.filterMap Candidate.next?).map Candidate.command).Perm (cs.map Candidate.command) := by
  -- the candidate at hand joins the one row or the other
  induction cs with
  | nil => exact .nil
  | cons c cs ih =>
    cases hnext : c.next? with
    | none =>
      rw [List.filter_cons_of_pos (by rw [hnext]; rfl), List.filterMap_cons_none hnext]
      exact ih.cons c.command
    | some d =>
      rw [List.filter_cons_of_neg (by rw [hnext]; exact Bool.noConfusion),
        List.filterMap_cons_some hnext, List.map_cons, List.map_cons,
        Candidate.command_of_next? hnext]
      exact List.perm_middle.trans (ih.cons c.command)

/-- **A round keeps the account.** -/
theorem Accounted.of_round {dropped : List Command} {next : Contest}
    (h : Accounted tokens commands dropped contest)
    (hsound : ∀ c ∈ contest.candidates, c.Sound tokens)
    (htrack : contest.OnTrack tokens) (hround : contest.round = .ok next) :
    ∃ more, Accounted tokens commands (dropped ++ more) next := by
  obtain rfl := eq_of_round hround
  have hdropped : ∀ c ∈ contest.candidates.filter fun c => c.next?.isNone,
      ¬ c.command.Fits tokens ∧ c.command.Eliminated tokens c.rejection := by
    intro c hc
    obtain ⟨hmem, hnone⟩ := List.mem_filter.mp hc
    exact (h.faithful c hmem).of_dropped (hsound c hmem) (Option.isNone_iff_eq_none.mp hnone)
  refine ⟨(contest.candidates.filter fun c => c.next?.isNone).map Candidate.command, ?_, ?_, ?_, ?_⟩
  · -- who stays has read what was in prospect
    intro d hd
    obtain ⟨c, hc, hnext⟩ := List.mem_filterMap.mp hd
    exact (h.faithful c hc).of_next? (htrack.candidates c hc) hnext
  · -- nobody is lost between those that are dropped and those that stay
    rw [List.append_assoc]
    exact ((map_command_round_perm contest.candidates).append_left dropped).trans h.perm
  · -- the notes of the round are those about the candidates that it drops
    refine List.rel_append h.notes ?_
    rw [List.forall₂_map_left_iff, List.forall₂_map_right_iff, List.forall₂_same]
    exact fun c hc => (hdropped c hc).2
  · intro c hc
    rcases List.mem_append.mp hc with hold | hnew
    · exact h.not_fits c hold
    · obtain ⟨d, hd, rfl⟩ := List.mem_map.mp hnew
      exact (hdropped d hd).1

/-- Every contest that the loop goes through has its account. -/
theorem Reachable.exists_accounted {keyword : String} {words : List String}
    (h : Reachable (keyword :: words) commands contest) :
    ∃ dropped, Accounted (keyword :: words) commands dropped contest := by
  -- along the rounds, each of which adds those that it drops
  induction h with
  | start => exact ⟨[], accounted_start _ commands⟩
  | round reachable _ made ih =>
    obtain ⟨dropped, haccounted⟩ := ih
    obtain ⟨more, hnext⟩ := haccounted.of_round reachable.sound reachable.onTrack made
    exact ⟨dropped ++ more, hnext⟩

/-! ## The end -/

/-- When all candidates are complete, those that have words left are dropped as well, and then
exactly the commands that do not fit have been dropped. -/
theorem Accounted.of_isComplete {dropped : List Command}
    (h : Accounted tokens commands dropped contest)
    (hsound : ∀ c ∈ contest.candidates, c.Sound tokens)
    (hcomplete : contest.candidates.all Candidate.isComplete = true) :
    ∃ losers, losers.Perm (commands.filter fun c => ¬ c.Fits tokens) ∧
      List.Forall₂ (Command.Eliminated tokens) losers (contest.notes ++ contest.surpluses) := by
  have hends : ∀ c ∈ contest.candidates, (c.command.Fits tokens ↔ c.isExhausted = true) ∧
      c.command.Eliminated tokens c.surplus := by
    intro c hc
    exact (h.faithful c hc).of_isComplete (hsound c hc) (List.all_eq_true.mp hcomplete c hc)
  -- those that are dropped last come behind those that were dropped in the rounds
  set late := contest.candidates.filter fun c => !c.isExhausted with hlate
  set losers := dropped ++ late.map Candidate.command with hlosers
  have hnot : ∀ c ∈ losers, ¬ c.Fits tokens := by
    intro c hc
    rcases List.mem_append.mp hc with hold | hnew
    · exact h.not_fits c hold
    · obtain ⟨d, hd, rfl⟩ := List.mem_map.mp hnew
      obtain ⟨hmem, hleft⟩ := List.mem_filter.mp hd
      rw [(hends d hmem).1]
      simpa using hleft
  have hfits : ∀ c ∈ contest.finalists.map Candidate.command, c.Fits tokens := by
    intro c hc
    obtain ⟨d, hd, rfl⟩ := List.mem_map.mp hc
    obtain ⟨hmem, hexhausted⟩ := List.mem_filter.mp hd
    exact (hends d hmem).1.mpr hexhausted
  have hperm : (losers ++ contest.finalists.map Candidate.command).Perm commands := by
    have hsplit : (late ++ contest.finalists).Perm contest.candidates :=
      List.perm_append_comm.trans (List.filter_append_perm _ _)
    rw [hlosers, List.append_assoc, ← List.map_append]
    exact ((hsplit.map Candidate.command).append_left dropped).trans h.perm
  refine ⟨losers, ?_, ?_⟩
  · -- of the losers all are left when those that fit are taken out, and of the finalists none
    have hfilter := hperm.filter fun c => ¬ c.Fits tokens
    rw [List.filter_append, List.filter_eq_self.mpr fun c hc => decide_eq_true (hnot c hc),
      List.filter_eq_nil_iff.mpr fun c hc => by simpa using hfits c hc, List.append_nil] at hfilter
    exact hfilter
  · refine List.rel_append h.notes ?_
    rw [surpluses, List.forall₂_map_left_iff, List.forall₂_map_right_iff, List.forall₂_same]
    exact fun c hc => (hends c (List.mem_filter.mp hc).1).2

/-- The finalists are judged with one note, and it says what the result is. -/
theorem exists_closing_decideAmong (keyword : String) (furthest : Nat) (cs : List Candidate) :
    ∃ closing, (decideAmong keyword furthest cs).notes = [closing] ∧
      closing.Concludes keyword (decideAmong keyword furthest cs).result := by
  -- whoever wins, alone or among others, is named in the note
  have haward : ∀ winner : Candidate, ∃ closing, (award winner).notes = [closing] ∧
      closing.Concludes keyword (award winner).result :=
    fun winner => ⟨_, rfl, .resolved winner.invocation⟩
  rw [decideAmong.eq_def]
  split
  · exact ⟨_, rfl, .noneSurvived furthest⟩
  · exact haward _
  · split
    · exact haward _
    · exact ⟨_, rfl, .ambiguous _⟩

end Contest

namespace Catalog

/-- If the keyword is known, its commands are tried. -/
theorem judge_cons {catalog : Catalog} {keyword : String} {words : List String}
    (h : catalog.overloads keyword ≠ []) :
    catalog.judge (keyword :: words) =
      judgeAmong keyword (keyword :: words) (catalog.overloads keyword) := by
  rw [judge]
  split
  · next hnil => exact absurd hnil h
  · rfl

/-- **The notes account for every command once.** If commands have the keyword, the notes on some
words begin with one about how many words are tried against how many commands. Then comes one for
each command that does not fit the words, as often as it was registered, and none for a command that
fits them. It has the signature of the command, and the position that the command comes to when it
is matched alone or how many words it leaves over. The last one says what the result is, with the
same command, the same furthest position or as many signatures. The first and the last are of the
level for debugging, and all others of the level for tracing. -/
theorem notes_account_for_overloads (catalog : Catalog) (keyword : String) (words : List String)
    (h : catalog.overloads keyword ≠ []) :
    let tokens := keyword :: words
    ∃ eliminations closing,
      (catalog.judge tokens).notes =
        .matching keyword tokens.length (catalog.overloads keyword).length ::
          eliminations ++ [closing] ∧
      (∃ losers, losers.Perm ((catalog.overloads keyword).filter fun c => ¬ c.Fits tokens) ∧
        List.Forall₂ (Command.Eliminated tokens) losers eliminations) ∧
      closing.Concludes keyword (catalog.resolve tokens) ∧
      (catalog.judge tokens).notes.map Note.level =
        .debug :: List.replicate eliminations.length .trace ++ [.debug] := by
  intro tokens
  obtain ⟨final, hsettle, -⟩ :=
    Contest.settle_spec (Contest.onTrack_start keyword words (catalog.overloads keyword))
  obtain ⟨hreachable, hcomplete⟩ := Contest.Reachable.start.of_settle hsettle
  obtain ⟨dropped, haccounted⟩ := hreachable.exists_accounted
  obtain ⟨losers, hlosers, heliminated⟩ :=
    haccounted.of_isComplete hreachable.sound hcomplete
  obtain ⟨closing, hclosing, hconcludes⟩ :=
    Contest.exists_closing_decideAmong keyword final.furthest final.finalists
  -- the verdict is that of the contest after its last round
  have hjudge : catalog.judge tokens =
      ⟨.matching keyword tokens.length (catalog.overloads keyword).length ::
        (final.verdict keyword).notes, (final.verdict keyword).result⟩ := by
    rw [judge_cons h, judgeAmong, hsettle]
  have hnotes : (catalog.judge tokens).notes =
      .matching keyword tokens.length (catalog.overloads keyword).length ::
        (final.notes ++ final.surpluses) ++ [closing] := by
    rw [hjudge, Contest.verdict, hclosing]
    rfl
  refine ⟨final.notes ++ final.surpluses, closing, hnotes, ⟨losers, hlosers, heliminated⟩, ?_, ?_⟩
  · rw [resolve, hjudge]
    exact hconcludes
  · rw [hnotes, List.map_append, List.map_cons, map_level_of_eliminated heliminated,
      List.map_singleton, hconcludes.level_eq]
    rfl

/-- Three commands that are dropped at three places: one by its parameter, one because others go on,
and one because a word is left. -/
def trips : Catalog :=
  ⟨[.silent "go" [.scalar (.switch "to"), .scalar (.str "place")],
    .silent "go" [.scalar (.str "place"), .scalar (.int "times")],
    .silent "go" [.scalar (.str "place")]]⟩

/-- All three are accounted for. -/
theorem notes_account_for_trips :
    trips.overloads "go" ≠ [] ∧
    ∃ eliminations closing,
      (trips.judge ["go", "to", "town", "now"]).notes =
        .matching "go" 4 (trips.overloads "go").length :: eliminations ++ [closing] ∧
      (∃ losers, losers.Perm ((trips.overloads "go").filter
          fun c => ¬ c.Fits ["go", "to", "town", "now"]) ∧
        List.Forall₂ (Command.Eliminated ["go", "to", "town", "now"]) losers eliminations) ∧
      closing.Concludes "go" (trips.resolve ["go", "to", "town", "now"]) ∧
      (trips.judge ["go", "to", "town", "now"]).notes.map Note.level =
        .debug :: List.replicate eliminations.length .trace ++ [.debug] := by
  have hne : trips.overloads "go" ≠ [] := List.cons_ne_nil _ _
  exact ⟨hne, notes_account_for_overloads trips "go" ["to", "town", "now"] hne⟩

example : (trips.judge ["go", "to", "town", "now"]).notes =
    [.matching "go" 4 3, .rejected "go <place: str> <times: int>" 2, .rejected "go <place: str>" 2,
      .leftOver "go to <place: str>" 1, .noneSurvived "go" 3] := by decide +kernel

end Catalog

end CommandShell
