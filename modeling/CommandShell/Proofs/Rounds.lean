import CommandShell.Proofs.Conformance

/-!
# A contest ends

A contest goes on for as long as some candidate is incomplete. In each round incomplete candidates
get one parameter further or drop out, and complete ones stay as they are or drop out, so the number
of rounds is bounded by the longest row of parameters among the commands. How long a row of words is
does not matter, and neither does how many words an argument takes.

Whether a candidate is complete is asked by comparing two numbers for equality, the parameters that
it has matched and those of its command. A count that had once passed the last parameter would never
again be equal to it, and the loop would not end. `Candidate.matched_le` excludes such a count: a
candidate is made without any parameter matched, and a parameter is only ever counted that is there.

The bound comes from what single candidates do: in a round a candidate depends on no other one, and
so a contest after some rounds is made up of what the same number of steps make of each candidate
(`ComesTo.candidates_eq`). The sum over all candidates, by which the loop is defined, would give a
bound as well, but a larger one.

Main definitions:

* `Candidate.afterRounds?`: what some rounds make of a candidate;
* `Contest.ComesTo`: from one contest to another in a number of rounds;
* `Command.largestArity`: the longest row of parameters.

Main results:

* `Candidate.afterRounds?_of_isComplete`, `Candidate.matched_of_afterRounds?`: what some rounds make
  of a candidate;
* `Contest.ComesTo.candidates_eq`: what they make of a contest;
* `Contest.ComesTo.le_of_pending_le`: how many rounds there can be;
* `Contest.reachable_iff`: the contests that the loop goes through, with that bound;
* `Contest.ends_within_largest_arity`: all of it for any contest.
-/

namespace CommandShell

/-- The number of parameters of the command that has most of them. -/
def Command.largestArity (commands : List Command) : Nat :=
  commands.foldl (fun n c => max n c.arity) 0

theorem Command.arity_le_largestArity {commands : List Command} {c : Command}
    (h : c ∈ commands) : c.arity ≤ largestArity commands :=
  (foldl_max_le_iff.mp (Nat.le_refl _)).2 c h

/-! ## Candidates -/

namespace Candidate

variable {c d : Candidate} {rounds : Nat}

/-- The candidate after some rounds, if it is still in the running. -/
def afterRounds? : Nat → Candidate → Option Candidate
  | 0, c => some c
  | rounds + 1, c => c.next?.bind (afterRounds? rounds)

/-- **A complete candidate is carried through any number of rounds unchanged**, or it drops out in
the first of them. -/
theorem afterRounds?_of_isComplete (h : c.isComplete = true) (rounds : Nat) :
    c.afterRounds? rounds = if rounds = 0 ∨ c.isExhausted = true then some c else none := by
  -- a candidate that stays once has no word left, and so it stays every time
  induction rounds with
  | zero => rfl
  | succ rounds ih =>
    rw [afterRounds?, next?_of_isComplete h]
    cases hexhausted : c.isExhausted with
    | true =>
      rw [hexhausted] at ih
      simpa using ih
    | false => simp

/-- **Each round matches one parameter**, up to the last one. -/
theorem matched_of_afterRounds? (hd : c.afterRounds? rounds = some d) :
    d.command = c.command ∧ d.matched = min (c.matched + rounds) c.command.arity := by
  induction rounds generalizing c with
  | zero =>
    obtain rfl := Option.some.inj hd
    -- without a round nothing is added, and the count has not passed the last parameter
    have hle := c.matched_le
    exact ⟨rfl, by omega⟩
  | succ rounds ih =>
    obtain ⟨e, hnext, honward⟩ := Option.bind_eq_some_iff.mp hd
    obtain ⟨hsame, hall⟩ := ih honward
    rcases eq_or_matched_of_step (step_eq_of_next? hnext) with
      ⟨hcomplete, rfl⟩ | ⟨hincomplete, hcommand, hmatched⟩
    · -- nothing is left to be matched, now and later
      have heq := isComplete_iff_matched_eq.mp hcomplete
      exact ⟨hsame, by omega⟩
    · -- one more parameter is matched in this round, and there is still room for it
      have hmore := matched_lt_of_not_isComplete hincomplete
      rw [hcommand] at hsame hall
      exact ⟨hsame, by omega⟩

end Candidate

/-! ## Contests -/

namespace Contest

variable {tokens : List String} {commands : List Command} {contest next later : Contest}
  {rounds : Nat}

/-- The loop comes from one contest to another in some rounds. It makes a round only if some
candidate is incomplete. -/
inductive ComesTo : Contest → Nat → Contest → Prop where
  | stay (contest : Contest) : ComesTo contest 0 contest
  | round {contest next later : Contest} {rounds : Nat}
      (unsettled : contest.candidates.all Candidate.isComplete = false)
      (made : contest.round = .ok next) (onward : ComesTo next rounds later) :
      ComesTo contest (rounds + 1) later

/-- **The candidates after some rounds** are what is left of those at the beginning, each on its
own. -/
theorem ComesTo.candidates_eq (h : ComesTo contest rounds later) :
    later.candidates = contest.candidates.filterMap (Candidate.afterRounds? rounds) := by
  -- along the rounds, of which each is a step of every candidate on its own
  induction h with
  | stay contest => exact List.filterMap_some.symm
  | @round contest _ _ _ _ made _ ih =>
    obtain rfl := eq_of_round made
    rw [ih, List.filterMap_filterMap]
    rfl

/-- **There are no more rounds than parameters** that any candidate has still to match. -/
theorem ComesTo.le_of_pending_le {bound : Nat} (h : ComesTo contest rounds later)
    (hbound : ∀ c ∈ contest.candidates, c.pending ≤ bound) : rounds ≤ bound := by
  -- each round is taken off the bound, as every candidate that stays has less to match
  induction h generalizing bound with
  | stay => exact Nat.zero_le bound
  | @round contest next later rounds unsettled made _ ih =>
    obtain ⟨c, hc, hincomplete⟩ := List.all_eq_false.mp unsettled
    have hpos := Candidate.pending_pos_of_not_isComplete (Bool.eq_false_iff.mpr hincomplete)
    have hle := hbound c hc
    have hnext : ∀ d ∈ next.candidates, d.pending ≤ bound - 1 := by
      intro d hd
      obtain ⟨e, he, hstep⟩ := next?_of_mem_round made hd
      have hpending := Candidate.pending_of_step (Candidate.step_eq_of_next? hstep)
      have hbefore := hbound e he
      omega
    have honward := ih hnext
    omega

/-- There are no more rounds than parameters of the command that has most of them. -/
theorem ComesTo.le_largestArity (h : ComesTo contest rounds later) :
    rounds ≤ Command.largestArity (contest.candidates.map Candidate.command) := by
  refine h.le_of_pending_le fun c hc => ?_
  have hmem : c.command ∈ contest.candidates.map Candidate.command := List.mem_map_of_mem hc
  have hle := Command.arity_le_largestArity hmem
  unfold Candidate.pending
  omega

/-- The loop comes to a contest in which all candidates are complete. -/
theorem exists_comesTo_settle (contest : Contest) :
    ∃ rounds final, ComesTo contest rounds final ∧
      final.candidates.all Candidate.isComplete = true ∧ contest.settle = .ok final := by
  -- along the rounds of the loop, which the parameters that are left to match bound
  fun_induction settle contest with
  | case1 contest hall => exact ⟨0, contest, .stay contest, hall, rfl⟩
  | case2 contest _ fault hround =>
    rw [round_eq] at hround
    simp at hround
  | case3 contest hall next hround ih =>
    obtain ⟨rounds, final, hcomes, hcomplete, hsettle⟩ := ih
    exact ⟨rounds + 1, final, .round (Bool.eq_false_iff.mpr hall) hround hcomes, hcomplete, hsettle⟩

/-- After some rounds of a contest each candidate has matched as many parameters, or all it has. -/
theorem ComesTo.matched_eq (h : ComesTo (start tokens commands) rounds contest) {c : Candidate}
    (hc : c ∈ contest.candidates) :
    c.command ∈ commands ∧ c.matched = min rounds c.command.arity := by
  rw [h.candidates_eq] at hc
  obtain ⟨first, hfirst, hsteps⟩ := List.mem_filterMap.mp hc
  obtain ⟨command, hcommand, rfl⟩ := List.mem_map.mp hfirst
  obtain ⟨hsame, hmatched⟩ := Candidate.matched_of_afterRounds? hsteps
  refine ⟨?_, ?_⟩
  · rw [hsame]
    exact hcommand
  · rw [hmatched, hsame]
    show min (0 + rounds) _ = _
    rw [Nat.zero_add]

/-- A contest between some commands has no more rounds than the largest arity among these. -/
theorem ComesTo.le_largestArity_of_start (h : ComesTo (start tokens commands) rounds contest) :
    rounds ≤ Command.largestArity commands := by
  rw [← map_command_start commands tokens]
  exact h.le_largestArity

/-- One more round. -/
theorem ComesTo.concat (h : ComesTo contest rounds later)
    (unsettled : later.candidates.all Candidate.isComplete = false)
    (made : later.round = .ok next) : ComesTo contest (rounds + 1) next := by
  induction h with
  | stay contest => exact .round unsettled made (.stay next)
  | round first second _ ih => exact .round first second (ih unsettled made)

/-- From a contest that the loop goes through it comes to others that it goes through. -/
theorem ComesTo.reachable (h : ComesTo contest rounds later)
    (hfirst : Reachable tokens commands contest) : Reachable tokens commands later := by
  induction h with
  | stay => exact hfirst
  | round unsettled made _ ih => exact ih (hfirst.round unsettled made)

/-- **The contests that the loop goes through** are those that it comes to within the largest
arity. -/
theorem reachable_iff :
    Reachable tokens commands contest ↔
      ∃ rounds ≤ Command.largestArity commands, ComesTo (start tokens commands) rounds contest := by
  constructor
  · intro h
    -- the bound holds of the whole way from the beginning, and so it is not carried along
    induction h with
    | start => exact ⟨0, Nat.zero_le _, .stay _⟩
    | round _ unsettled made ih =>
      obtain ⟨rounds, -, hcomes⟩ := ih
      have hnext := hcomes.concat unsettled made
      exact ⟨rounds + 1, hnext.le_largestArity_of_start, hnext⟩
  · rintro ⟨rounds, -, hcomes⟩
    exact hcomes.reachable .start

/-- **A contest ends within the largest arity.** From any contest the loop comes to one in which all
candidates are complete, and it cannot make more rounds than the largest arity among the commands.
On the way every candidate is what the same number of rounds makes of it alone; a complete one is
the same as before for as long as it stays. If some candidate is incomplete, there is a next round,
and it leaves fewer parameters to be matched over all candidates. So all that a contest between some
commands ever goes through, it comes to within the largest arity of these; and after some rounds
every candidate has matched as many parameters as there were rounds, or all parameters of its
command. -/
theorem ends_within_largest_arity :
    (∀ contest : Contest,
      (∃ rounds final, ComesTo contest rounds final ∧
        final.candidates.all Candidate.isComplete = true ∧ contest.settle = .ok final) ∧
      (∀ rounds later, ComesTo contest rounds later →
        rounds ≤ Command.largestArity (contest.candidates.map Candidate.command) ∧
        later.candidates = contest.candidates.filterMap (Candidate.afterRounds? rounds)) ∧
      (∀ c ∈ contest.candidates, c.isComplete = true → ∀ rounds,
        c.afterRounds? rounds = if rounds = 0 ∨ c.isExhausted = true then some c else none) ∧
      (contest.candidates.all Candidate.isComplete = false →
        ∃ next, contest.round = .ok next ∧ next.pending < contest.pending)) ∧
    (∀ (tokens : List String) (commands : List Command) (contest : Contest),
      (Reachable tokens commands contest ↔
        ∃ rounds ≤ Command.largestArity commands,
          ComesTo (start tokens commands) rounds contest) ∧
      ∀ rounds, ComesTo (start tokens commands) rounds contest →
        rounds ≤ Command.largestArity commands ∧
        ∀ c ∈ contest.candidates,
          c.command ∈ commands ∧ c.matched = min rounds c.command.arity) := by
  refine ⟨?_, ?_⟩
  · intro contest
    refine ⟨contest.exists_comesTo_settle, ?_, ?_, ?_⟩
    · intro rounds later hcomes
      exact ⟨hcomes.le_largestArity, hcomes.candidates_eq⟩
    · intro c _ hcomplete rounds
      exact Candidate.afterRounds?_of_isComplete hcomplete rounds
    · intro hincomplete
      have hround := round_eq contest
      exact ⟨_, hround, pending_of_round_lt hround hincomplete⟩
  · intro tokens commands contest
    refine ⟨reachable_iff, ?_⟩
    intro rounds hcomes
    exact ⟨hcomes.le_largestArity_of_start, fun c hc => hcomes.matched_eq hc⟩

end Contest

end CommandShell
