import CommandShell.Resolution.Candidate

/-!
# Contests

All commands of a keyword are tried against the words of a line side by side. The contest goes in
rounds: in each round every candidate takes one step, and those that cannot are dropped with a note.
Rounds go on for as long as some candidate has arguments to read; candidates that have read all of
theirs are asked again in every round whether they may stay.

A round with an incomplete candidate leaves fewer parameters to be matched over all candidates
(`pending_of_round_lt`), and so every contest comes to an end.
-/

namespace CommandShell

/-- The state of a contest between rounds. -/
structure Contest where
  candidates : List Candidate
  /-- The furthest position that any candidate has reached. -/
  furthest : Nat
  /-- The notes about the candidates that were dropped, in order. -/
  notes : List Note

namespace Contest

/-- The contest of some commands before the first round, when each has taken the keyword. -/
def start (tokens : List String) (commands : List Command) : Contest :=
  ⟨commands.map (Candidate.start tokens), 1, []⟩

/-- One step of every candidate: those that stay, and notes about the others. -/
def advance : List Candidate → Except Fault (List Candidate × List Note)
  | [] => .ok ([], [])
  | c :: cs =>
    match c.step with
    | .error fault => .error fault
    | .ok outcome =>
      match advance cs with
      | .error fault => .error fault
      | .ok (survivors, notes) =>
        match outcome with
        | some next => .ok (next :: survivors, notes)
        | none => .ok (survivors, c.rejection :: notes)

/-- The furthest position of some candidates, or the one given if that is further. -/
def furthestOf (position : Nat) (candidates : List Candidate) : Nat :=
  candidates.foldl (fun p c => max p c.cursor.position) position

/-- One round of a contest. -/
def round (contest : Contest) : Except Fault Contest :=
  match advance contest.candidates with
  | .error fault => .error fault
  | .ok (survivors, notes) =>
    .ok ⟨survivors, furthestOf contest.furthest survivors, contest.notes ++ notes⟩

/-- How many parameters are still to be matched by some candidates. -/
def pendingOf : List Candidate → Nat
  | [] => 0
  | c :: cs => c.pending + pendingOf cs

/-- How many parameters are still to be matched in a contest. -/
def pending (contest : Contest) : Nat := pendingOf contest.candidates

/-! ## The end of a contest -/

/-- A step of all candidates adds no parameter to those that are left. -/
theorem pendingOf_advance_le {cs survivors : List Candidate} {notes : List Note}
    (h : advance cs = .ok (survivors, notes)) : pendingOf survivors ≤ pendingOf cs := by
  fun_induction advance cs generalizing survivors notes with
  | case1 => cases h; simp
  | case2 => simp at h
  | case3 => simp at h
  | case4 c cs survivors' notes' hrest next hstep ih =>
    cases h
    have hle := ih hrest
    have hstep' := Candidate.pending_of_step hstep
    simp only [pendingOf]
    omega
  | case5 c cs survivors' notes' hrest hstep ih =>
    cases h
    have hle := ih hrest
    simp only [pendingOf]
    omega

/-- If some candidate is incomplete, a step of all of them leaves fewer parameters. -/
theorem pendingOf_advance_lt {cs survivors : List Candidate} {notes : List Note}
    (h : advance cs = .ok (survivors, notes)) (hany : cs.all Candidate.isComplete = false) :
    pendingOf survivors < pendingOf cs := by
  -- along the candidates: one that is incomplete has fewer to match after its step, or is dropped,
  -- and the others have no more than before
  fun_induction advance cs generalizing survivors notes with
  | case1 => simp at hany
  | case2 => simp at h
  | case3 => simp at h
  | case4 c cs survivors' notes' hrest next hstep ih =>
    cases h
    have hle := pendingOf_advance_le hrest
    have hnext := Candidate.pending_of_step hstep
    simp only [pendingOf]
    cases hc : c.isComplete with
    | true =>
      -- this one is complete, so the incomplete one is among the others
      have hlt := ih hrest (by simpa [hc] using hany)
      omega
    | false =>
      have hpos := Candidate.pending_pos_of_not_isComplete hc
      omega
  | case5 c cs survivors' notes' hrest hstep ih =>
    cases h
    have hle := pendingOf_advance_le hrest
    simp only [pendingOf]
    cases hc : c.isComplete with
    | true =>
      have hlt := ih hrest (by simpa [hc] using hany)
      omega
    | false =>
      -- a candidate that is dropped takes its parameters with it, and it has some
      have hpos := Candidate.pending_pos_of_not_isComplete hc
      omega

/-- A round in which some candidate is incomplete leaves fewer parameters to be matched. -/
theorem pending_of_round_lt {contest next : Contest} (h : contest.round = .ok next)
    (hany : contest.candidates.all Candidate.isComplete = false) :
    next.pending < contest.pending := by
  unfold round at h
  split at h
  · simp at h
  · next hadvance =>
    cases h
    exact pendingOf_advance_lt hadvance hany

/-- The contest after the last round, when every candidate that is left is complete. -/
def settle (contest : Contest) : Except Fault Contest :=
  if contest.candidates.all Candidate.isComplete then .ok contest
  else
    match _ : contest.round with
    | .error fault => .error fault
    | .ok next => settle next
termination_by contest.pending
decreasing_by
  exact pending_of_round_lt ‹_› (Bool.eq_false_iff.mpr ‹_›)

end Contest

end CommandShell
