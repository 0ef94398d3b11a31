import CommandShell.Param.Basic

/-!
# Ranking of signatures

When the same words fit several commands, their parameters decide which of them goes before which.
Two rows of parameters are compared at the first place where they are unlike, by the priority of the
parameters there; if there is no such place, neither goes before the other.

Main definitions:

* `Ranking.compareParams`: the comparison;
* `Ranking.leader?`: the one that goes before all others;
* `Ranking.contenders`: those that no other goes before.
-/

namespace CommandShell.Ranking

/-- Compares rows of parameters by the first place where they are unlike. -/
def compareParams (ps qs : List Param) : Ordering :=
  match (ps.zip qs).find? fun pq => !pq.1.alike pq.2 with
  | none => .eq
  | some (p, q) => compare p.priority q.priority

/-- Whether one row of parameters goes before another. -/
def outranks (ps qs : List Param) : Bool := compareParams ps qs == .gt

variable {α : Type}

/-- The first of `rest` that beats every other one, where `seen` are those before them. -/
def leaderAfter? (beats : α → α → Bool) (seen : List α) : List α → Option α
  | [] => none
  | a :: rest =>
    if (seen ++ rest).all (beats a) then some a else leaderAfter? beats (seen ++ [a]) rest

/-- The member of a list that beats every other one, if there is such a member. -/
def leader? (beats : α → α → Bool) (as : List α) : Option α := leaderAfter? beats [] as

/-- The members of a list that none beats. Were each one beaten, nothing would be gained by leaving
any out, and all of them are taken. -/
def contenders (beats : α → α → Bool) (as : List α) : List α :=
  let unbeaten := as.filter fun a => !as.any fun b => beats b a
  if unbeaten.isEmpty then as else unbeaten

/-! ## Laws -/

theorem leaderAfter?_eq_some {beats : α → α → Bool} {seen as : List α} {a : α}
    (h : leaderAfter? beats seen as = some a) :
    ∃ front back, as = front ++ a :: back ∧ ∀ b ∈ seen ++ front ++ back, beats a b = true := by
  induction as generalizing seen with
  | nil => simp [leaderAfter?] at h
  | cons c rest ih =>
    unfold leaderAfter? at h
    split at h
    · next hall =>
      obtain rfl := Option.some.inj h
      exact ⟨[], rest, rfl, fun b hb => List.all_eq_true.mp hall b (by simpa using hb)⟩
    · obtain ⟨front, back, rfl, hb⟩ := ih h
      exact ⟨c :: front, back, rfl, by simpa using hb⟩

/-- A leader is a member that beats all other members. -/
theorem leader?_eq_some {beats : α → α → Bool} {as : List α} {a : α}
    (h : leader? beats as = some a) :
    ∃ front back, as = front ++ a :: back ∧ ∀ b ∈ front ++ back, beats a b = true := by
  simpa using leaderAfter?_eq_some h

end CommandShell.Ranking
