import CommandShell.Proofs.Ranking
import CommandShell.Proofs.Trial
import CommandShell.Resolution.Verdict
import Mathlib.Order.Nat

/-!
# Contests and single trials

In a contest all commands of a keyword advance together, one parameter in each round. Complete
candidates wait for the others, and candidates are dropped at three places: when a parameter does
not accept the words at hand, when a complete candidate is asked again although words are left, and
when words are left in the end. Here this is traced back to commands that are matched alone.

Two things about a candidate do not change while the contest goes on: the call it ends in when it is
left alone (`Candidate.outcome?`), which is none if it does not fit, and the position it comes to
(`Candidate.goal`). A round keeps the outcomes of all candidates, so those that are dropped had
none, and it keeps the furthest position that any of them comes to. After the last round the
outcomes are the finalists.

Main results:

* `Candidate.step_cases`, `Candidate.next?_eq_some_cases`, `Candidate.next?_eq_none_cases`: all that
  a step can do, and what it means to stay and to be dropped;
* `Candidate.outcome?_bind_next?`: a step keeps the outcome;
* `Contest.outcomes_of_round` / `Contest.horizon_of_round`: so does a round, and it keeps the
  furthest position that the candidates come to;
* `Contest.settle_spec`: a contest has a result, with the outcomes it began with;
* `Catalog.resolve_cons`: the call for some words is elected among the commands that fit alone.
-/

namespace CommandShell

/-! ## Candidates -/

namespace Candidate

/-- The parameters that are still to be matched. -/
def remaining (c : Candidate) : List Param := c.command.params.drop c.matched

/-- What becomes of a candidate that is left alone. -/
def prospect (tokens : List String) (c : Candidate) : Trial :=
  Trial.run tokens c.remaining c.cursor.position

/-- The position that a candidate comes to when it is left alone. -/
def goal (tokens : List String) (c : Candidate) : Nat := (c.prospect tokens).position

/-- The call that a candidate ends in when it is left alone, if it takes all words. -/
def outcome? (tokens : List String) (c : Candidate) : Option Invocation :=
  if (c.prospect tokens).values.length = c.remaining.length ∧ c.goal tokens = tokens.length then
    some ⟨c.command, c.values ++ (c.prospect tokens).values⟩
  else none

/-- What holds of every candidate in a contest over some words. -/
structure OnTrack (tokens : List String) (c : Candidate) : Prop where
  cursor_eq : c.cursor = Cursor.ofTokens tokens c.cursor.position
  position_le : c.cursor.position ≤ tokens.length

variable {tokens : List String} {c d : Candidate}

theorem isExhausted_iff (h : c.OnTrack tokens) :
    c.isExhausted = true ↔ c.cursor.position = tokens.length := by
  have hrest : c.cursor.rest = tokens.drop c.cursor.position := congrArg Cursor.rest h.cursor_eq
  have hle := h.position_le
  rw [isExhausted, hrest, List.isEmpty_iff, List.drop_eq_nil_iff]
  omega

/-- A candidate is complete if no parameter is left to be matched. -/
theorem isComplete_iff : c.isComplete = true ↔ c.remaining = [] := by
  -- the count of matched parameters is the number that is dropped from the row
  rw [← getElem?_params_eq_none_iff, List.getElem?_eq_none_iff, remaining, List.drop_eq_nil_iff]

/-- The parameter at hand is the first of those that are left. -/
theorem exists_param_of_matched_lt (hmore : c.matched < c.command.arity) :
    ∃ p, c.command.params[c.matched]? = some p ∧
      c.remaining = p :: c.command.params.drop (c.matched + 1) :=
  ⟨_, List.getElem?_eq_getElem hmore, List.drop_eq_getElem_cons hmore⟩

/-! ### One step -/

/-- The candidate after an argument of some value that ends at a position. -/
def after (tokens : List String) (c : Candidate) (hmore : c.matched < c.command.arity) (v : Value)
    (q : Nat) : Candidate :=
  c.take hmore v (.ofTokens tokens q)

/-- The candidate after one more argument, if it stays in the contest. -/
def next? (c : Candidate) : Option Candidate :=
  match c.step with
  | .ok outcome => outcome
  | .error _ => none

/-- All that a step can do: a complete candidate stays as it is if no word is left; another takes
the argument at hand or is dropped. There is no fault. -/
theorem step_cases (h : c.OnTrack tokens) :
    (c.remaining = [] ∧
      c.step = .ok (if c.cursor.position = tokens.length then some c else none)) ∨
    (∃ p ps, c.remaining = p :: ps ∧ p.accepts tokens c.cursor.position = false ∧
      c.step = .ok none) ∨
    (∃ p ps v q, ∃ hmore : c.matched < c.command.arity, c.remaining = p :: ps ∧
      p.readAt tokens c.cursor.position = .ok (v, q) ∧
      c.step = .ok (some (c.after tokens hmore v q))) := by
  cases hcomplete : c.isComplete with
  | true =>
    refine .inl ⟨isComplete_iff.mp hcomplete, ?_⟩
    simp only [step_of_isComplete hcomplete, isExhausted_iff h]
  | false =>
    right
    have hmore := matched_lt_of_not_isComplete hcomplete
    obtain ⟨p, hparam, hremaining⟩ := exists_param_of_matched_lt hmore
    -- whether the parameter accepts the words at hand can be asked of the cursor or of its position
    have haccepts : (p.reach? c.cursor).isSome = p.accepts tokens c.cursor.position := by
      rw [Param.accepts, ← h.cursor_eq]
    rw [step_of_param hmore hparam, haccepts]
    cases hreads : p.accepts tokens c.cursor.position with
    | false => exact .inl ⟨p, _, hremaining, hreads, rfl⟩
    | true =>
      obtain ⟨v, q, hread⟩ := Param.accepts_iff_readAt.mp hreads
      have hcursor : p.read c.cursor = .ok (v, .ofTokens tokens q) := by
        rw [h.cursor_eq]
        exact Param.read_ofTokens hread
      refine .inr ⟨p, _, v, q, hmore, hremaining, hread, ?_⟩
      rw [hcursor]
      rfl

/-- A step of any candidate is without fault, since a parameter that accepts the words at hand also
reads them. -/
theorem step_eq_next? (c : Candidate) : c.step = .ok c.next? := by
  have hstep : ∃ outcome, c.step = .ok outcome := by
    cases hcomplete : c.isComplete with
    | true => exact ⟨_, step_of_isComplete hcomplete⟩
    | false =>
      have hmore := matched_lt_of_not_isComplete hcomplete
      obtain ⟨p, hparam, -⟩ := exists_param_of_matched_lt hmore
      rw [step_of_param hmore hparam]
      split
      · next haccepts =>
        -- no track is needed here: what is accepted at a place is read at it
        obtain ⟨d, hd⟩ := Option.isSome_iff_exists.mp haccepts
        obtain ⟨v, hv⟩ := Param.read_of_reach?_eq_some hd
        rw [hv]
        exact ⟨_, rfl⟩
      · exact ⟨_, rfl⟩
  obtain ⟨outcome, hc⟩ := hstep
  rw [next?, hc]

/-- A complete candidate stays in the running, as it is, only if no word is left. -/
theorem next?_of_isComplete (h : c.isComplete = true) :
    c.next? = if c.isExhausted then some c else none := by
  rw [next?, step_of_isComplete h]

/-- What is known of a step that a candidate has taken is known of what it has become. -/
theorem step_eq_of_next? (hd : c.next? = some d) : c.step = .ok (some d) := by
  rw [step_eq_next?, hd]

/-- All that a candidate can become that stays in the contest: it waits, as it is, or it has read
one more argument. -/
theorem next?_eq_some_cases (h : c.OnTrack tokens) (hd : c.next? = some d) :
    (c.remaining = [] ∧ c.cursor.position = tokens.length ∧ d = c) ∨
    ∃ p ps v q, ∃ hmore : c.matched < c.command.arity, c.remaining = p :: ps ∧
      p.readAt tokens c.cursor.position = .ok (v, q) ∧ d = c.after tokens hmore v q := by
  -- of the three things that a step can do, two leave a candidate in the contest
  have hstep := step_eq_of_next? hd
  rcases step_cases h with ⟨hnil, hc⟩ | ⟨p, ps, -, -, hc⟩ |
      ⟨p, ps, v, q, hmore, hcons, hread, hc⟩ <;> rw [hc] at hstep
  · by_cases hend : c.cursor.position = tokens.length
    · rw [if_pos hend] at hstep
      exact .inl ⟨hnil, hend, (Option.some.inj (Except.ok.inj hstep)).symm⟩
    · simp [hend] at hstep
  · simp at hstep
  · exact .inr ⟨p, ps, v, q, hmore, hcons, hread, (Option.some.inj (Except.ok.inj hstep)).symm⟩

/-- A candidate is dropped because words are left that no parameter will take, or because the
parameter at hand does not take them. -/
theorem next?_eq_none_cases (h : c.OnTrack tokens) (hnone : c.next? = none) :
    (c.remaining = [] ∧ c.cursor.position ≠ tokens.length) ∨
    ∃ p ps, c.remaining = p :: ps ∧ p.accepts tokens c.cursor.position = false := by
  have hstep := step_eq_next? c
  rw [hnone] at hstep
  rcases step_cases h with ⟨hnil, hc⟩ | ⟨p, ps, hcons, hstuck, -⟩ | ⟨p, ps, v, q, _, -, -, hc⟩
  · rw [hc] at hstep
    refine .inl ⟨hnil, fun hend => ?_⟩
    simp [hend] at hstep
  · exact .inr ⟨p, ps, hcons, hstuck⟩
  · simp [hc] at hstep

/-! ### What a step keeps -/

/-- A candidate that stays keeps to the words: it stands where its last argument ended. -/
theorem OnTrack.of_next? (h : c.OnTrack tokens) (hd : c.next? = some d) : d.OnTrack tokens := by
  rcases next?_eq_some_cases h hd with ⟨-, -, rfl⟩ | ⟨p, ps, v, q, hmore, -, hread, rfl⟩
  · exact h
  · exact ⟨rfl, (Param.readAt_bounds hread).2⟩

theorem prospect_of_complete (h : c.remaining = []) :
    c.prospect tokens = ⟨[], c.cursor.position⟩ := by
  rw [prospect, h, Trial.run_nil]

theorem prospect_of_stuck {p : Param} {ps : List Param} (hcons : c.remaining = p :: ps)
    (hstuck : p.accepts tokens c.cursor.position = false) :
    c.prospect tokens = ⟨[], c.cursor.position⟩ := by
  rw [prospect, hcons, Trial.run_cons_of_not_accepts ps hstuck]

/-- An argument takes its parameter off those that are left. -/
theorem remaining_after {p : Param} {ps : List Param} (hmore : c.matched < c.command.arity)
    (hcons : c.remaining = p :: ps) (v : Value) (q : Nat) :
    (c.after tokens hmore v q).remaining = ps := by
  show c.command.params.drop (c.matched + 1) = ps
  rw [← List.tail_drop]
  exact congrArg List.tail hcons

/-- The argument at hand is the first of those in prospect. -/
theorem prospect_after {p : Param} {ps : List Param} {v : Value} {q : Nat}
    (hmore : c.matched < c.command.arity) (hcons : c.remaining = p :: ps)
    (hread : p.readAt tokens c.cursor.position = .ok (v, q)) :
    c.prospect tokens =
      ⟨v :: ((c.after tokens hmore v q).prospect tokens).values,
        (c.after tokens hmore v q).goal tokens⟩ := by
  have hafter : (c.after tokens hmore v q).prospect tokens = Trial.run tokens ps q := by
    rw [prospect, remaining_after hmore hcons]
    rfl
  rw [goal, hafter, prospect, hcons, Trial.run_cons_of_readAt ps hread]

/-- A step does not change how far a candidate comes. If it is dropped, it has come as far already.
-/
theorem goal_next? (h : c.OnTrack tokens) :
    match c.next? with
    | some d => d.goal tokens = c.goal tokens
    | none => c.goal tokens = c.cursor.position := by
  rcases step_cases h with ⟨hnil, hc⟩ | ⟨p, ps, hcons, hstuck, hc⟩ |
      ⟨p, ps, v, q, hmore, hcons, hread, hc⟩ <;> rw [next?, hc]
  · by_cases hend : c.cursor.position = tokens.length
    · rw [if_pos hend]
    · -- a complete candidate has come as far as it goes
      rw [if_neg hend]
      show c.goal tokens = _
      rw [goal, prospect_of_complete hnil]
  · show c.goal tokens = _
    rw [goal, prospect_of_stuck hcons hstuck]
  · show _ = c.goal tokens
    -- an argument is part of what was in prospect, and the goal is where that ends
    rw [goal.eq_1 tokens c, prospect_after hmore hcons hread]

/-- **A step keeps the outcome.** A candidate that is dropped had none. -/
theorem outcome?_bind_next? (h : c.OnTrack tokens) :
    c.next?.bind (outcome? tokens) = c.outcome? tokens := by
  rcases step_cases h with ⟨hnil, hc⟩ | ⟨p, ps, hcons, hstuck, hc⟩ |
      ⟨p, ps, v, q, hmore, hcons, hread, hc⟩ <;> rw [next?, hc]
  · by_cases hend : c.cursor.position = tokens.length
    · rw [if_pos hend]
      rfl
    · -- words are left that no parameter will take
      have hgoal : c.goal tokens ≠ tokens.length := by
        rwa [goal, prospect_of_complete hnil]
      rw [if_neg hend, outcome?, if_neg fun hout => hgoal hout.2]
      rfl
  · -- the parameter at hand will never be matched
    have hvalues : (c.prospect tokens).values.length ≠ c.remaining.length := by
      rw [prospect_of_stuck hcons hstuck, hcons]
      exact Nat.noConfusion
    rw [outcome?, if_neg fun hout => hvalues hout.1]
    rfl
  · -- the argument moves from what is in prospect to what has been read
    show (c.after tokens hmore v q).outcome? tokens = c.outcome? tokens
    have hprospect := prospect_after hmore hcons hread
    have hgoal : c.goal tokens = (c.after tokens hmore v q).goal tokens := by
      rw [goal, hprospect]
    have hvalues : (c.after tokens hmore v q).values = c.values ++ [v] := rfl
    simp only [outcome?, remaining_after hmore hcons, hgoal, hprospect, hcons, List.length_cons,
      Nat.succ_inj, hvalues, List.append_assoc, List.singleton_append]
    rfl

end Candidate

/-! ## Rounds -/

/-- The maximum of a list is bounded by whatever bounds its members. -/
theorem foldl_max_le_iff {α : Type} {f : α → Nat} {l : List α} {a b : Nat} :
    l.foldl (fun m x => max m (f x)) a ≤ b ↔ a ≤ b ∧ ∀ x ∈ l, f x ≤ b := by
  induction l generalizing a with
  | nil => simp
  | cons x l ih =>
    rw [List.foldl_cons, ih, List.forall_mem_cons, Nat.max_le, and_assoc]

namespace Contest

variable {tokens : List String} {contest : Contest}

/-- What holds of every contest between rounds. -/
structure OnTrack (tokens : List String) (contest : Contest) : Prop where
  candidates : ∀ c ∈ contest.candidates, c.OnTrack tokens
  furthest : ∀ c ∈ contest.candidates, c.cursor.position ≤ contest.furthest

/-- The calls that the candidates end in when each is left alone. -/
def outcomes (tokens : List String) (contest : Contest) : List Invocation :=
  contest.candidates.filterMap (Candidate.outcome? tokens)

/-- The furthest position that has been reached or will be when each candidate is left alone. -/
def horizon (tokens : List String) (contest : Contest) : Nat :=
  contest.candidates.foldl (fun p c => max p (c.goal tokens)) contest.furthest

/-- The candidates after a round are those that their own steps keep, in the same order, and the
notes are of the others. -/
theorem advance_eq (cs : List Candidate) :
    advance cs = .ok (cs.filterMap Candidate.next?,
      (cs.filter fun c => c.next?.isNone).map Candidate.rejection) := by
  induction cs with
  | nil => rfl
  | cons c cs ih =>
    rw [advance, Candidate.step_eq_next? c, ih]
    cases hnext : c.next? <;> simp [hnext]

/-- A round has a result, whatever the candidates are. -/
theorem round_eq (contest : Contest) :
    contest.round = .ok ⟨contest.candidates.filterMap Candidate.next?,
      furthestOf contest.furthest (contest.candidates.filterMap Candidate.next?),
      contest.notes ++
        (contest.candidates.filter fun c => c.next?.isNone).map Candidate.rejection⟩ := by
  rw [round, advance_eq]

/-- The same, as a description of the contest after a round. -/
theorem eq_of_round {next : Contest} (h : contest.round = .ok next) :
    next = ⟨contest.candidates.filterMap Candidate.next?,
      furthestOf contest.furthest (contest.candidates.filterMap Candidate.next?),
      contest.notes ++
        (contest.candidates.filter fun c => c.next?.isNone).map Candidate.rejection⟩ :=
  Except.ok.inj (h.symm.trans (round_eq contest))

theorem furthestOf_le_iff {position b : Nat} {cs : List Candidate} :
    furthestOf position cs ≤ b ↔ position ≤ b ∧ ∀ c ∈ cs, c.cursor.position ≤ b :=
  foldl_max_le_iff

/-- The horizon is the least bound of the goals. -/
theorem horizon_le_iff {b : Nat} :
    contest.horizon tokens ≤ b ↔
      contest.furthest ≤ b ∧ ∀ c ∈ contest.candidates, c.goal tokens ≤ b :=
  foldl_max_le_iff

/-- A round keeps the candidates on track, and takes note of the positions that they come to. -/
theorem OnTrack.of_round {next : Contest} (h : contest.OnTrack tokens)
    (hround : contest.round = .ok next) : next.OnTrack tokens := by
  obtain rfl := eq_of_round hround
  refine ⟨?_, ?_⟩
  · intro d hd
    obtain ⟨c, hc, hnext⟩ := List.mem_filterMap.mp hd
    exact (h.candidates c hc).of_next? hnext
  · exact (furthestOf_le_iff.mp (Nat.le_refl _)).2

/-- A round keeps the outcomes, for each candidate keeps its own. -/
theorem outcomes_of_round {next : Contest} (h : contest.OnTrack tokens)
    (hround : contest.round = .ok next) : next.outcomes tokens = contest.outcomes tokens := by
  obtain rfl := eq_of_round hround
  show (contest.candidates.filterMap Candidate.next?).filterMap _ = _
  rw [List.filterMap_filterMap]
  apply List.filterMap_congr
  intro c hc
  exact Candidate.outcome?_bind_next? (h.candidates c hc)

/-- A round keeps the horizon. -/
theorem horizon_of_round {next : Contest} (h : contest.OnTrack tokens)
    (hround : contest.round = .ok next) : next.horizon tokens = contest.horizon tokens := by
  obtain rfl := eq_of_round hround
  -- both are the least bound of what the candidates come to
  refine eq_of_forall_ge_iff fun b => ?_
  rw [horizon_le_iff, horizon_le_iff, furthestOf_le_iff]
  constructor
  · rintro ⟨⟨hb, -⟩, hgoals⟩
    refine ⟨hb, ?_⟩
    intro c hc
    have hkeep := Candidate.goal_next? (h.candidates c hc)
    cases hnext : c.next? with
    | none =>
      -- what a dropped candidate has reached is recorded already
      rw [hnext] at hkeep
      rw [hkeep]
      exact Nat.le_trans (h.furthest c hc) hb
    | some d =>
      rw [hnext] at hkeep
      rw [← hkeep]
      exact hgoals d (List.mem_filterMap.mpr ⟨c, hc, hnext⟩)
  · rintro ⟨hb, hgoals⟩
    -- what a candidate has reached is no further than what it will reach
    have hgoal : ∀ d ∈ contest.candidates.filterMap Candidate.next?, d.goal tokens ≤ b := by
      intro d hd
      obtain ⟨c, hc, hnext⟩ := List.mem_filterMap.mp hd
      have hkeep := Candidate.goal_next? (h.candidates c hc)
      rw [hnext] at hkeep
      rw [hkeep]
      exact hgoals c hc
    refine ⟨⟨hb, ?_⟩, hgoal⟩
    intro d hd
    exact Nat.le_trans (Trial.le_position_run _ _ _) (hgoal d hd)

/-- **A contest is settled with the outcomes it began with.** It has a result, in which every
candidate is complete, with the same outcomes and the same horizon. -/
theorem settle_spec (h : contest.OnTrack tokens) :
    ∃ final, contest.settle = .ok final ∧ final.OnTrack tokens ∧
      final.candidates.all Candidate.isComplete = true ∧
      final.outcomes tokens = contest.outcomes tokens ∧
      final.horizon tokens = contest.horizon tokens := by
  -- every round keeps the invariant, the outcomes and the horizon
  fun_induction settle contest with
  | case1 contest hall => exact ⟨contest, rfl, h, hall, rfl, rfl⟩
  | case2 contest hall fault hround =>
    rw [round_eq] at hround
    simp at hround
  | case3 contest hall next hround ih =>
    obtain ⟨final, hsettle, hfinal, hcomplete, hout, hhor⟩ := ih (h.of_round hround)
    exact ⟨final, hsettle, hfinal, hcomplete, hout.trans (outcomes_of_round h hround),
      hhor.trans (horizon_of_round h hround)⟩

/-! ## After the last round -/

/-- The outcome of a complete candidate is its call, unless words are left. -/
theorem outcome?_of_isComplete {c : Candidate} (h : c.OnTrack tokens)
    (hcomplete : c.isComplete = true) :
    c.outcome? tokens = if c.isExhausted then some c.invocation else none := by
  have hnil := Candidate.isComplete_iff.mp hcomplete
  have hcond : ((c.prospect tokens).values.length = c.remaining.length ∧
      c.goal tokens = tokens.length) ↔ c.isExhausted = true := by
    rw [Candidate.isExhausted_iff h, Candidate.goal, Candidate.prospect_of_complete hnil, hnil]
    simp
  simp only [Candidate.outcome?, hcond]
  rw [Candidate.prospect_of_complete hnil, List.append_nil]
  rfl

/-- When all candidates are complete, the outcomes are the calls of the finalists. -/
theorem outcomes_of_complete (h : contest.OnTrack tokens)
    (hcomplete : contest.candidates.all Candidate.isComplete = true) :
    contest.outcomes tokens = contest.finalists.map Candidate.invocation := by
  have hall := List.all_eq_true.mp hcomplete
  have hcongr : contest.candidates.filterMap (Candidate.outcome? tokens) =
      contest.candidates.filterMap
        fun c => if c.isExhausted then some c.invocation else none := by
    apply List.filterMap_congr
    intro c hc
    exact outcome?_of_isComplete (h.candidates c hc) (hall c hc)
  -- both are filters of the same list: here by a word that is left, there by an outcome
  rw [outcomes, hcongr, finalists, ← List.filterMap_eq_map, ← List.filterMap_eq_filter,
    List.filterMap_filterMap]
  apply List.filterMap_congr
  intro c _
  cases hex : c.isExhausted <;> simp [Option.guard, hex]

/-- When all candidates are complete, nobody will come further than somebody has. -/
theorem horizon_of_complete (h : contest.OnTrack tokens)
    (hcomplete : contest.candidates.all Candidate.isComplete = true) :
    contest.horizon tokens = contest.furthest := by
  have hall := List.all_eq_true.mp hcomplete
  refine Nat.le_antisymm (horizon_le_iff.mpr ⟨Nat.le_refl _, ?_⟩)
    (horizon_le_iff.mp (Nat.le_refl _)).1
  intro c hc
  have hnil := Candidate.isComplete_iff.mp (hall c hc)
  rw [Candidate.goal, Candidate.prospect_of_complete hnil]
  exact h.furthest c hc

end Contest

/-! ## The call that is elected -/

/-- The call of a command that fits some words. -/
def Command.call? (tokens : List String) (c : Command) : Option Invocation :=
  if c.Fits tokens then some ⟨c, (c.trial tokens).values⟩ else none

/-- Whether the command of a call goes before that of another. -/
def Invocation.beats (a b : Invocation) : Bool :=
  Ranking.outranks a.command.params b.command.params

/-- The call elected among those that fit: the one that goes before all others. -/
def Invocation.elect (keyword : String) (furthest : Nat) : List Invocation → Except Fault Invocation
  | [] => .error (.of (.noViableOverload keyword furthest))
  | calls =>
    match Ranking.leader? Invocation.beats calls with
    | some call => .ok call
    | none =>
      .error (.of (.ambiguousCommand keyword
        ((Ranking.contenders Invocation.beats calls).map fun call => call.command.signature)))

/-- The finalists are judged by their calls alone. -/
theorem Contest.result_decideAmong (keyword : String) (furthest : Nat) (cs : List Candidate) :
    (decideAmong keyword furthest cs).result =
      Invocation.elect keyword furthest (cs.map Candidate.invocation) := by
  have hbeats : ∀ c d : Candidate,
      Invocation.beats c.invocation d.invocation = Contest.beats c d := fun _ _ => rfl
  -- no finalist, a single one, or several, who are compared by the parameters of their commands
  cases cs with
  | nil => rfl
  | cons c cs =>
    cases cs with
    | nil => rfl
    | cons d ds =>
      rw [decideAmong, List.map_cons, Invocation.elect, ← List.map_cons,
        Ranking.leader?_map hbeats, Ranking.contenders_map hbeats]
      · cases Ranking.leader? Contest.beats (c :: d :: ds) with
        | some winner => rfl
        | none =>
          simp only [Option.map_none, List.map_map]
          rfl
      · simp
      · simp
      · simp

namespace Catalog

/-- The calls of the commands of a keyword that fit some words, in the order of registration. -/
def fitting (catalog : Catalog) (keyword : String) (tokens : List String) : List Invocation :=
  (catalog.overloads keyword).filterMap (Command.call? tokens)

/-- The furthest position that any command of a keyword comes to when it is matched alone. -/
def progress (catalog : Catalog) (keyword : String) (tokens : List String) : Nat :=
  (catalog.overloads keyword).foldl (fun p c => max p (c.trial tokens).position) 1

end Catalog

namespace Contest

variable (keyword : String) (words : List String) (commands : List Command)

theorem map_command_start (tokens : List String) :
    (start tokens commands).candidates.map Candidate.command = commands := by
  show (commands.map (Candidate.start tokens)).map Candidate.command = commands
  rw [List.map_map]
  exact List.map_id commands

/-- In the beginning every candidate stands behind the keyword. -/
theorem onTrack_start : (start (keyword :: words) commands).OnTrack (keyword :: words) := by
  refine ⟨?_, ?_⟩
  · intro c hc
    obtain ⟨command, -, rfl⟩ := List.mem_map.mp hc
    exact ⟨rfl, Nat.succ_le_succ (Nat.zero_le _)⟩
  · intro c hc
    obtain ⟨command, -, rfl⟩ := List.mem_map.mp hc
    exact Nat.le_refl 1

theorem outcomes_start (tokens : List String) :
    (start tokens commands).outcomes tokens = commands.filterMap (Command.call? tokens) := by
  rw [outcomes, start, List.filterMap_map]
  rfl

/-- In the beginning the horizon is the furthest that any command comes to alone. -/
theorem horizon_start (tokens : List String) :
    (start tokens commands).horizon tokens =
      commands.foldl (fun p c => max p (c.trial tokens).position) 1 := by
  rw [horizon, start, List.foldl_map]
  rfl

end Contest

/-- **The call for some words is elected among the commands that fit alone.** The contest adds
nothing to it, and in particular it has no fault of its own. -/
theorem Catalog.resolve_cons (catalog : Catalog) (keyword : String) (words : List String) :
    catalog.resolve (keyword :: words) =
      if catalog.overloads keyword = [] then .error (.of (.commandNotFound keyword))
      else Invocation.elect keyword (catalog.progress keyword (keyword :: words))
        (catalog.fitting keyword (keyword :: words)) := by
  rw [resolve, judge, fitting, progress]
  cases catalog.overloads keyword with
  | nil => rfl
  | cons command commands =>
    -- from the last contest back to the first, through what the rounds have kept
    obtain ⟨final, hsettle, hfinal, hcomplete, hout, hhor⟩ :=
      Contest.settle_spec (Contest.onTrack_start keyword words (command :: commands))
    rw [if_neg (List.cons_ne_nil _ _), ← Contest.outcomes_start, ← Contest.horizon_start, ← hout,
      ← hhor, Contest.outcomes_of_complete hfinal hcomplete,
      Contest.horizon_of_complete hfinal hcomplete, ← Contest.result_decideAmong]
    simp only [judgeAmong, hsettle]
    rfl

end CommandShell
