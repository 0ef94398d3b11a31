import CommandShell.Proofs.Conformance
import CommandShell.Proofs.RegistrationOrder
import Mathlib.Order.Bounds.Basic

/-!
# How far some words were matched

When commands have the keyword and none of them fits the words, the fault says how many words were
matched. The number is kept in the course of the contest: it goes up whenever a candidate that stays
has come further than any before. Candidates are dropped in different rounds and for different
reasons, and some have matched all their parameters by then. None of this shows in the number: it is
the greatest position that any command of the keyword comes to when it is matched alone.

What carries the proof is the horizon of a contest, the furthest position that has been reached or
will be when each candidate is left alone. No round changes it.

Main results:

* `Trial.position_run_le`: a trial stays within the words;
* `Catalog.isGreatest_progress`: the progress of a keyword is the greatest of its commands;
* `Contest.Reachable.horizon_eq`: every contest on the way has the same horizon;
* `Catalog.consumed_is_furthest`: what the fault reports.
-/

namespace CommandShell

/-! ## Single trials -/

/-- A trial that begins within the words stays within them. -/
theorem Trial.position_run_le {tokens : List String} {position : Nat} (ps : List Param)
    (h : position ≤ tokens.length) : (Trial.run tokens ps position).position ≤ tokens.length := by
  -- along the parameters, none of which reads beyond the last word
  induction ps generalizing position with
  | nil => exact h
  | cons p ps ih =>
    cases haccepts : p.accepts tokens position with
    | false =>
      rw [Trial.run_cons_of_not_accepts ps haccepts]
      exact h
    | true =>
      obtain ⟨v, next, hread⟩ := Param.accepts_iff_readAt.mp haccepts
      have hnext : next ≤ tokens.length := (Param.readAt_bounds hread).2
      rw [Trial.run_cons_of_readAt ps hread]
      exact ih hnext

namespace Command

variable (c : Command) {tokens : List String}

theorem one_le_position_trial (tokens : List String) : 1 ≤ (c.trial tokens).position :=
  Trial.le_position_run tokens c.params 1

/-- A trial stays within the words. -/
theorem position_trial_le (hne : tokens ≠ []) : (c.trial tokens).position ≤ tokens.length :=
  Trial.position_run_le c.params (List.length_pos_iff.mpr hne)

/-- A command that does not fit although all its parameters are matched leaves words over. -/
theorem position_trial_lt (hne : tokens ≠ []) (hnot : ¬ c.Fits tokens)
    (hmatched : (c.trial tokens).values.length = c.arity) :
    (c.trial tokens).position < tokens.length := by
  have hle := c.position_trial_le hne
  have hend : (c.trial tokens).position ≠ tokens.length := fun h => hnot ⟨hmatched, h⟩
  omega

end Command

/-! ## The progress of a keyword -/

/-- A maximum is the number that it began with, or that of a member. -/
theorem foldl_max_eq_or_exists {α : Type} {f : α → Nat} (l : List α) (a : Nat) :
    l.foldl (fun m x => max m (f x)) a = a ∨ ∃ x ∈ l, f x = l.foldl (fun m x => max m (f x)) a := by
  -- along the list, with the maximum so far
  induction l generalizing a with
  | nil => exact .inl rfl
  | cons x l ih =>
    rw [List.foldl_cons]
    rcases ih (max a (f x)) with hmax | ⟨y, hy, heq⟩
    · rw [hmax]
      rcases Nat.le_total (f x) a with hle | hle
      · exact .inl (Nat.max_eq_left hle)
      · exact .inr ⟨x, List.mem_cons_self, (Nat.max_eq_right hle).symm⟩
    · exact .inr ⟨y, List.mem_cons_of_mem x hy, heq⟩

namespace Catalog

variable {catalog : Catalog} {keyword : String} {tokens : List String}

theorem progress_le_iff {b : Nat} :
    catalog.progress keyword tokens ≤ b ↔
      1 ≤ b ∧ ∀ c ∈ catalog.overloads keyword, (c.trial tokens).position ≤ b :=
  foldl_max_le_iff

theorem position_le_progress {c : Command} (hc : c ∈ catalog.overloads keyword) :
    (c.trial tokens).position ≤ catalog.progress keyword tokens :=
  (progress_le_iff.mp (Nat.le_refl _)).2 c hc

/-- **The progress of a keyword is the greatest of its commands.** -/
theorem isGreatest_progress (hne : catalog.overloads keyword ≠ []) :
    IsGreatest {n | ∃ c ∈ catalog.overloads keyword, (c.trial tokens).position = n}
      (catalog.progress keyword tokens) := by
  refine ⟨?_, ?_⟩
  · show ∃ c ∈ catalog.overloads keyword, _
    rcases foldl_max_eq_or_exists (f := fun c : Command => (c.trial tokens).position)
      (catalog.overloads keyword) 1 with hone | hexists
    · -- if nobody has come further than the keyword, everybody has come as far as that
      obtain ⟨c, hc⟩ := List.exists_mem_of_ne_nil _ hne
      have hle : (c.trial tokens).position ≤ 1 := hone ▸ position_le_progress hc
      have hge := c.one_le_position_trial tokens
      exact ⟨c, hc, (Nat.le_antisymm hle hge).trans hone.symm⟩
    · exact hexists
  · rintro n ⟨c, hc, rfl⟩
    exact position_le_progress hc

/-- The progress is the only number that is the greatest of those that the commands come to. -/
theorem progress_eq_iff {n : Nat} (hne : catalog.overloads keyword ≠ []) :
    catalog.progress keyword tokens = n ↔
      IsGreatest {n | ∃ c ∈ catalog.overloads keyword, (c.trial tokens).position = n} n :=
  ⟨fun h => h ▸ isGreatest_progress hne, fun h => (isGreatest_progress hne).unique h⟩

theorem overloads_singleton {c : Command} (h : c.keyword = keyword) :
    (Catalog.mk [c]).overloads keyword = [c] := by
  simp [overloads, h]

/-- Registered alone, a command that does not fit is told how far it comes itself. -/
theorem resolve_singleton {c : Command} (hhead : tokens.head? = some c.keyword)
    (hnot : ¬ c.Fits tokens) :
    (Catalog.mk [c]).resolve tokens =
      .error (.of (.noViableOverload c.keyword (c.trial tokens).position)) := by
  have hone : (Catalog.mk [c]).overloads c.keyword = [c] := overloads_singleton rfl
  refine resolve_eq_noViableOverload_iff.mpr ⟨hhead, ?_, ?_, ?_⟩
  · rw [hone]
    exact List.cons_ne_nil c []
  · rw [suitable_eq_nil_iff, hone]
    intro d hd
    rwa [List.mem_singleton.mp hd]
  · rw [progress, hone]
    exact Nat.max_eq_right (c.one_le_position_trial tokens)

/-- The fault of no viable command counts the greatest number that any command comes to. -/
theorem resolve_eq_noViableOverload_iff_isGreatest {consumed : Nat} :
    catalog.resolve tokens = .error (.of (.noViableOverload keyword consumed)) ↔
      tokens.head? = some keyword ∧ (∀ c ∈ catalog.overloads keyword, ¬ c.Fits tokens) ∧
        IsGreatest {n | ∃ c ∈ catalog.overloads keyword, (c.trial tokens).position = n}
          consumed := by
  rw [resolve_eq_noViableOverload_iff, suitable_eq_nil_iff]
  constructor
  · rintro ⟨hhead, hne, hnot, hprogress⟩
    exact ⟨hhead, hnot, (progress_eq_iff hne).mp hprogress⟩
  · rintro ⟨hhead, hnot, hgreatest⟩
    -- what is greatest is the position of some command
    obtain ⟨c, hc, -⟩ := hgreatest.1
    have hne := List.ne_nil_of_mem hc
    exact ⟨hhead, hne, hnot, (progress_eq_iff hne).mpr hgreatest⟩

end Catalog

/-! ## The contest -/

namespace Contest

variable {commands : List Command} {contest : Contest} {keyword : String} {words : List String}

/-- Every contest that the loop goes through is on track. -/
theorem Reachable.onTrack (h : Reachable (keyword :: words) commands contest) :
    contest.OnTrack (keyword :: words) := by
  induction h with
  | start => exact onTrack_start keyword words commands
  | round _ _ made ih => exact ih.of_round made

/-- **Every contest on the way has the same horizon**, whoever has been dropped by then. -/
theorem Reachable.horizon_eq (h : Reachable (keyword :: words) commands contest) :
    contest.horizon (keyword :: words) =
      commands.foldl (fun p c => max p (c.trial (keyword :: words)).position) 1 := by
  -- along the rounds, none of which changes the horizon
  induction h with
  | start => exact horizon_start commands (keyword :: words)
  | round reachable _ made ih => rw [horizon_of_round reachable.onTrack made, ih]

end Contest

namespace Catalog

/-- **The fault reports the furthest progress.** When no command of the keyword fits, and only then,
the fault has the greatest position that any of them comes to when it is matched alone. The position
lies behind the keyword and within the words. A command that has matched all its parameters counts
with the place where words are left over. It does not matter when and why candidates are dropped:
in every contest on the way the number is the furthest position that has been reached or will be,
and each command adds to it what would be reported if it were registered alone. -/
theorem consumed_is_furthest (catalog : Catalog) (keyword : String) (tokens : List String) :
    (∀ consumed, catalog.resolve tokens = .error (.of (.noViableOverload keyword consumed)) ↔
      tokens.head? = some keyword ∧ (∀ c ∈ catalog.overloads keyword, ¬ c.Fits tokens) ∧
        IsGreatest {n | ∃ c ∈ catalog.overloads keyword, (c.trial tokens).position = n}
          consumed) ∧
    (∀ consumed, catalog.resolve tokens = .error (.of (.noViableOverload keyword consumed)) →
      1 ≤ consumed ∧ consumed ≤ tokens.length ∧
      (∀ c ∈ catalog.overloads keyword, (c.trial tokens).values.length = c.arity →
        (c.trial tokens).position < tokens.length ∧ (c.trial tokens).position ≤ consumed) ∧
      (∀ contest, Contest.Reachable tokens (catalog.overloads keyword) contest →
        contest.horizon tokens = consumed) ∧
      ∀ c ∈ catalog.overloads keyword, (Catalog.mk [c]).resolve tokens =
        .error (.of (.noViableOverload keyword (c.trial tokens).position))) := by
  refine ⟨fun _ => resolve_eq_noViableOverload_iff_isGreatest, ?_⟩
  intro consumed h
  obtain ⟨hhead, hnot, hgreatest⟩ := resolve_eq_noViableOverload_iff_isGreatest.mp h
  obtain ⟨words, rfl⟩ := List.head?_eq_some_iff.mp hhead
  have hne : keyword :: words ≠ [] := List.cons_ne_nil keyword words
  -- the number that is reported is that of some command, which bounds it from both sides
  obtain ⟨furthest, hmem, hfurthest⟩ := hgreatest.1
  refine ⟨?_, ?_, ?_, ?_, ?_⟩
  · rw [← hfurthest]
    exact furthest.one_le_position_trial _
  · rw [← hfurthest]
    exact furthest.position_trial_le hne
  · intro c hc hmatched
    exact ⟨c.position_trial_lt hne (hnot c hc) hmatched, hgreatest.2 ⟨c, hc, rfl⟩⟩
  · intro contest hreachable
    rw [hreachable.horizon_eq]
    exact (progress_eq_iff (List.ne_nil_of_mem hmem)).mpr hgreatest
  · intro c hc
    obtain rfl : c.keyword = keyword := eq_of_beq (List.mem_filter.mp hc).2
    exact resolve_singleton hhead (hnot c hc)

/-- A command that has matched all its parameters and leaves a word over can have come furthest. -/
example :
    let trips : Catalog := ⟨[.silent "go" [.scalar (.switch "to"), .scalar (.str "place")],
      .silent "go" [.scalar (.str "place"), .scalar (.int "times")]]⟩
    (trips.overloads "go").map (fun c => (c.trial ["go", "to", "town", "now"]).position) = [3, 2] ∧
    trips.progress "go" ["go", "to", "town", "now"] = 3 := by decide

end Catalog

end CommandShell
