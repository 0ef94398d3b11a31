import CommandShell.Command
import CommandShell.Param.Reading
import CommandShell.Note

/-!
# Candidates

A command that is being tried against the words of a line. A candidate reads one argument at a time,
and as soon as a parameter does not take the words at hand, it is out of the running. One that has
read all its arguments can only wait, and only if no word is left.

A candidate carries the fact that it has not matched more parameters than it has (`matched_le`). It
counts up, and it is complete when its count is the number of its parameters; one that had missed
this number would never be complete.
-/

namespace CommandShell

/-- How far a command has come with the words of a line. -/
structure Candidate where
  command : Command
  /-- How many parameters have been matched. -/
  matched : Nat
  /-- The place after the words that they took. -/
  cursor : Cursor
  /-- The values of their arguments, in order. -/
  values : List Value
  /-- No more parameters are matched than there are. -/
  matched_le : matched ≤ command.arity

namespace Candidate

/-- A command before its first argument. The first word is the keyword. -/
def start (tokens : List String) (command : Command) : Candidate :=
  ⟨command, 0, .ofTokens tokens 1, [], Nat.zero_le _⟩

/-- Whether every parameter has been matched. -/
def isComplete (c : Candidate) : Bool := c.matched == c.command.arity

/-- Whether every word has been taken. -/
def isExhausted (c : Candidate) : Bool := c.cursor.rest.isEmpty

/-- How many parameters are still to be matched. -/
def pending (c : Candidate) : Nat := c.command.arity - c.matched

/-- The candidate after an argument for its next parameter, which ends where the cursor stands. -/
def take (c : Candidate) (hmore : c.matched < c.command.arity) (value : Value) (cursor : Cursor) :
    Candidate :=
  ⟨c.command, c.matched + 1, cursor, c.values ++ [value], hmore⟩

/-- The candidate after one more argument, or nothing if it is out of the running. -/
def step (c : Candidate) : Except Fault (Option Candidate) :=
  match hparam : c.command.params[c.matched]? with
  | none => .ok (if c.isExhausted then some c else none)
  | some param =>
    if (param.reach? c.cursor).isSome then
      match param.read c.cursor with
      | .error fault => .error fault
      | .ok (value, next) =>
        -- there is a parameter at hand, so the count stays within bounds
        .ok (some (c.take (List.getElem?_eq_some_iff.mp hparam).1 value next))
    else .ok none

/-- Why a candidate was dropped when it could not take its next step. -/
def rejection (c : Candidate) : Note := .rejected c.command.signature c.cursor.position

/-- Why a complete candidate was dropped in the end. -/
def surplus (c : Candidate) : Note := .leftOver c.command.signature c.cursor.rest.length

/-- The call that a complete candidate stands for. -/
def invocation (c : Candidate) : Invocation := ⟨c.command, c.values⟩

/-! ### Counting up to the end -/

/-- A candidate is complete exactly if it has matched as many parameters as there are. -/
theorem isComplete_iff_matched_eq {c : Candidate} :
    c.isComplete = true ↔ c.matched = c.command.arity := beq_iff_eq

/-- An incomplete candidate has a parameter to match. That it cannot have counted past the last one
is what makes this so. -/
theorem matched_lt_of_not_isComplete {c : Candidate} (h : c.isComplete = false) :
    c.matched < c.command.arity := by
  have hne : c.matched ≠ c.command.arity := by
    intro heq
    simp [isComplete_iff_matched_eq.mpr heq] at h
  exact Nat.lt_of_le_of_ne c.matched_le hne

/-- An incomplete candidate has parameters to match. -/
theorem pending_pos_of_not_isComplete {c : Candidate} (h : c.isComplete = false) : 0 < c.pending :=
  Nat.sub_pos_of_lt (matched_lt_of_not_isComplete h)

/-- There is no parameter at hand exactly if the candidate is complete. -/
theorem getElem?_params_eq_none_iff {c : Candidate} :
    c.command.params[c.matched]? = none ↔ c.isComplete = true := by
  have hle := c.matched_le
  rw [List.getElem?_eq_none_iff, isComplete_iff_matched_eq]
  unfold Command.arity at hle ⊢
  omega

/-- A complete candidate can only wait, and only if no word is left. -/
theorem step_of_isComplete {c : Candidate} (h : c.isComplete = true) :
    c.step = .ok (if c.isExhausted then some c else none) := by
  have hnone := getElem?_params_eq_none_iff.mpr h
  -- the definition keeps the equation of its match, so the cases are split and not rewritten
  unfold step
  split
  · rfl
  · next param hparam => simp [hnone] at hparam

/-- An incomplete candidate takes the argument for the parameter at hand, or is dropped. -/
theorem step_of_param {c : Candidate} {param : Param} (hmore : c.matched < c.command.arity)
    (h : c.command.params[c.matched]? = some param) :
    c.step = if (param.reach? c.cursor).isSome then
        (param.read c.cursor).map fun read => some (c.take hmore read.1 read.2)
      else .ok none := by
  unfold step
  split
  · next hnone => simp [h] at hnone
  · next param' hparam =>
    obtain rfl := Option.some.inj (hparam.symm.trans h)
    cases param'.read c.cursor <;> rfl

/-- A candidate that stays in the running is the same as before if it is complete, and otherwise it
has matched one more parameter. -/
theorem eq_or_matched_of_step {c d : Candidate} (h : c.step = .ok (some d)) :
    (c.isComplete = true ∧ d = c) ∨
      (c.isComplete = false ∧ d.command = c.command ∧ d.matched = c.matched + 1) := by
  cases hcomplete : c.isComplete with
  | true =>
    rw [step_of_isComplete hcomplete] at h
    split at h
    · exact .inl ⟨rfl, (Option.some.inj (Except.ok.inj h)).symm⟩
    · simp at h
  | false =>
    right
    have hmore := matched_lt_of_not_isComplete hcomplete
    -- it has read the argument for the parameter at hand, or it would not have stayed
    rw [step_of_param hmore (List.getElem?_eq_getElem hmore)] at h
    split at h
    · cases hread : c.command.params[c.matched].read c.cursor with
      | error fault => simp [hread, Except.map] at h
      | ok read =>
        rw [hread] at h
        obtain rfl := Option.some.inj (Except.ok.inj h)
        exact ⟨rfl, rfl, rfl⟩
    · simp at h

/-- A step takes one off the parameters that are still to be matched, if there are any. -/
theorem pending_of_step {c d : Candidate} (h : c.step = .ok (some d)) :
    d.pending = c.pending - 1 := by
  unfold pending
  rcases eq_or_matched_of_step h with ⟨hcomplete, rfl⟩ | ⟨-, hcommand, hmatched⟩
  · have hall := isComplete_iff_matched_eq.mp hcomplete
    omega
  · rw [hcommand, hmatched]
    omega

end Candidate

end CommandShell
