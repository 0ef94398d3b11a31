import CommandShell.Proofs.Precedence
import CommandShell.Proofs.Twins

/-!
# What an ambiguity names

When several commands fit some words and none of them goes before all others, the fault names those
that no other goes before. That there are any, and that there are at least two of them, is no matter
of course: if commands could go before each other in a circle, each might be beaten by another one,
and then all would be named. Going before is transitive, so every command is either named or beaten
by one that is. And a single command that is not beaten would beat all others, and be called.

Commands with the same kinds of parameters are beaten by the same commands and do not beat each
other. None of them is ever called, and a fault names all of them or none.

Main results:

* `Ranking.exists_mem_unbeaten`: what is beaten is beaten by a member that is not;
* `Ranking.contenders_eq_unbeaten`: the contenders of a list are its unbeaten members;
* `Ranking.two_le_length_unbeaten`: without a leader there are at least two of them;
* `Catalog.ambiguity_names_foremost`: what a fault of ambiguity names.
-/

namespace CommandShell

namespace Ranking

/-! ## Members that none beats -/

section Unbeaten

variable {α : Type} {beats : α → α → Bool} {as : List α} {a : α}

/-- Who beats a member beats all those that the member beats. -/
def Transitive (beats : α → α → Bool) : Prop :=
  ∀ a b c, beats a b = true → beats b c = true → beats a c = true

theorem Asymmetric.irrefl (hasymm : Asymmetric beats) (a : α) : beats a a = false := by
  cases h : beats a a with
  | false => rfl
  | true => exact h.symm.trans (hasymm a a h)

/-- Going up from anywhere, one comes to something that no member of a list beats. -/
theorem exists_above (hasymm : Asymmetric beats) (htrans : Transitive beats) (as : List α) (a : α) :
    ∃ m, (m = a ∨ m ∈ as ∧ beats m a = true) ∧ ∀ b ∈ as, beats b m = false := by
  -- induction on the list, for every place to begin at: it may have to be begun again
  induction as generalizing a with
  | nil => exact ⟨a, .inl rfl, fun b hb => absurd hb List.not_mem_nil⟩
  | cons c as ih =>
    obtain ⟨m, hm, hall⟩ := ih a
    -- what none of the others beats is the answer, unless the new member beats it
    have hmem : m = a ∨ m ∈ c :: as ∧ beats m a = true :=
      hm.imp_right fun h => ⟨List.mem_cons_of_mem c h.1, h.2⟩
    cases hcm : beats c m with
    | false => exact ⟨m, hmem, List.forall_mem_cons.mpr ⟨hcm, hall⟩⟩
    | true =>
      -- the new member beats what was found, so one begins again at the new member
      have hca : beats c a = true := by
        rcases hmem with rfl | ⟨-, hma⟩
        · exact hcm
        · exact htrans c m a hcm hma
      obtain ⟨m', hm', hall'⟩ := ih c
      rcases hm' with rfl | ⟨hmem', hm'c⟩
      · exact ⟨m', .inr ⟨List.mem_cons_self, hca⟩,
          List.forall_mem_cons.mpr ⟨hasymm.irrefl m', hall'⟩⟩
      · exact ⟨m', .inr ⟨List.mem_cons_of_mem c hmem', htrans m' c a hm'c hca⟩,
          List.forall_mem_cons.mpr ⟨hasymm m' c hm'c, hall'⟩⟩

variable (hasymm : Asymmetric beats) (htrans : Transitive beats)
include hasymm htrans

/-- **What is beaten is beaten by a member that is not.** -/
theorem exists_mem_unbeaten (ha : a ∈ as) :
    a ∈ unbeaten beats as ∨ ∃ m ∈ unbeaten beats as, beats m a = true := by
  obtain ⟨m, rfl | ⟨hmem, hbeats⟩, hall⟩ := exists_above hasymm htrans as a
  · exact .inl (mem_unbeaten_iff.mpr ⟨ha, hall⟩)
  · exact .inr ⟨m, mem_unbeaten_iff.mpr ⟨hmem, hall⟩, hbeats⟩

theorem unbeaten_ne_nil (hne : as ≠ []) : unbeaten beats as ≠ [] := by
  obtain ⟨a, ha⟩ := List.exists_mem_of_ne_nil as hne
  rcases exists_mem_unbeaten hasymm htrans ha with hmem | ⟨m, hmem, -⟩
  · exact List.ne_nil_of_mem hmem
  · exact List.ne_nil_of_mem hmem

/-- There is always somebody left to name, so it never comes to naming all. -/
theorem contenders_eq_unbeaten : contenders beats as = unbeaten beats as := by
  rw [contenders_eq_ite]
  split
  · next hempty =>
    rw [List.isEmpty_iff] at hempty
    by_cases hne : as = []
    · rw [hempty, hne]
    · exact absurd hempty (unbeaten_ne_nil hasymm htrans hne)
  · rfl

/-- A single unbeaten member beats all others. -/
theorem leads_of_unbeaten_eq_singleton (h : unbeaten beats as = [a]) : Leads beats as a := by
  obtain ⟨front, back, hsplit, hfront, -, hback⟩ := List.filter_eq_cons_iff.mp h
  refine ⟨front, back, hsplit, ?_⟩
  intro b hb
  have hmem : b ∈ as := by
    rw [hsplit]
    exact List.perm_middle.mem_iff.mpr (List.mem_cons_of_mem a hb)
  -- any other member is beaten, and so it is beaten by the only one that is not
  have hbeaten : b ∉ unbeaten beats as := by
    intro hun
    have hpass := (List.mem_filter.mp hun).2
    rcases List.mem_append.mp hb with hb | hb
    · exact hfront b hb hpass
    · exact List.filter_eq_nil_iff.mp hback b hb hpass
  rcases exists_mem_unbeaten hasymm htrans hmem with hun | ⟨m, hm, hbeats⟩
  · exact absurd hun hbeaten
  · rw [h, List.mem_singleton] at hm
    rwa [hm] at hbeats

/-- Where nobody leads, at least two members are not beaten. -/
theorem two_le_length_unbeaten (hne : as ≠ []) (hnone : ¬ ∃ a, Leads beats as a) :
    2 ≤ (unbeaten beats as).length := by
  have hpos := unbeaten_ne_nil hasymm htrans hne
  match hun : unbeaten beats as with
  | [] => exact absurd hun hpos
  | [a] => exact absurd ⟨a, leads_of_unbeaten_eq_singleton hasymm htrans hun⟩ hnone
  | _ :: _ :: _ => simp

end Unbeaten

/-- Rows of which neither goes before the other compare equal. -/
theorem compareParams_eq_eq {ps qs : List Param} (h : compareParams ps qs ≠ .gt)
    (h' : compareParams qs ps ≠ .gt) : compareParams ps qs = .eq := by
  rw [← compareParams_swap] at h'
  cases hc : compareParams ps qs with
  | eq => rfl
  | gt => exact absurd hc h
  | lt => exact absurd (by rw [hc]; rfl) h'

end Ranking

/-! ## Commands that fit -/

theorem Command.asymmetric_beats : Ranking.Asymmetric Command.beats := fun c d =>
  Ranking.asymmetric_outranks c.params d.params

theorem Command.transitive_beats : Ranking.Transitive Command.beats := by
  intro c d e hcd hde
  rw [Command.beats_iff] at hcd hde ⊢
  exact Ranking.compareParams_trans hcd hde

theorem Contest.asymmetric_beats : Ranking.Asymmetric Contest.beats := fun c d =>
  Command.asymmetric_beats c.command d.command

theorem Contest.transitive_beats : Ranking.Transitive Contest.beats := fun c d e =>
  Command.transitive_beats c.command d.command e.command

namespace Command

variable {c d e : Command}

/-- Commands are twins exactly if their rows of parameters are alike. -/
theorem alike_params_iff : Ranking.Alike c.params d.params ↔ c.kinds = d.kinds :=
  Ranking.alike_iff_map_eq fun _ _ => beq_iff_eq

/-- A command compares in the same way with commands of the same kinds of parameters. -/
theorem compareParams_eq_of_kinds_eq (h : c.kinds = d.kinds) (e : Command) :
    Ranking.compareParams e.params c.params = Ranking.compareParams e.params d.params := by
  -- a comparison depends on the kinds of the parameters only
  have hself : Ranking.Alike e.params e.params := alike_params_iff.mpr rfl
  have hcd : Ranking.Alike c.params d.params := alike_params_iff.mpr h
  exact (Ranking.compareParams_congr hself hcd).symm

end Command

namespace Catalog

variable {catalog : Catalog} {keyword : String} {tokens : List String} {c d : Command}

/-- The commands that fit some words and that no command that fits goes before, in the order of
registration. -/
def foremost (catalog : Catalog) (keyword : String) (tokens : List String) : List Command :=
  (catalog.suitable keyword tokens).filter fun c =>
    ∀ d ∈ catalog.suitable keyword tokens, Ranking.compareParams d.params c.params ≠ .gt

theorem mem_foremost_iff :
    c ∈ catalog.foremost keyword tokens ↔ c ∈ catalog.suitable keyword tokens ∧
      ∀ d ∈ catalog.suitable keyword tokens, Ranking.compareParams d.params c.params ≠ .gt := by
  rw [foremost, List.mem_filter, decide_eq_true_eq]

/-- The foremost commands are those that no command that fits beats. -/
theorem foremost_eq_unbeaten :
    catalog.foremost keyword tokens =
      Ranking.unbeaten Command.beats (catalog.suitable keyword tokens) := by
  apply List.filter_congr
  intro c _
  rw [Bool.eq_iff_iff, decide_eq_true_eq, Bool.not_eq_true', List.any_eq_false]
  simp only [Command.beats_iff, ne_eq]

/-- The contenders among the commands that fit are the foremost ones. -/
theorem contenders_eq_foremost :
    Ranking.contenders Command.beats (catalog.suitable keyword tokens) =
      catalog.foremost keyword tokens := by
  rw [foremost_eq_unbeaten]
  exact Ranking.contenders_eq_unbeaten Command.asymmetric_beats Command.transitive_beats

/-- Two foremost commands compare equal. -/
theorem compareParams_of_mem_foremost (hc : c ∈ catalog.foremost keyword tokens)
    (hd : d ∈ catalog.foremost keyword tokens) :
    Ranking.compareParams c.params d.params = .eq := by
  obtain ⟨hcmem, hc⟩ := mem_foremost_iff.mp hc
  obtain ⟨hdmem, hd⟩ := mem_foremost_iff.mp hd
  exact Ranking.compareParams_eq_eq (hd c hcmem) (hc d hdmem)

/-- Every other command that fits comes after one of the foremost. -/
theorem exists_foremost_of_not_mem (hc : c ∈ catalog.suitable keyword tokens)
    (hnot : c ∉ catalog.foremost keyword tokens) :
    ∃ d ∈ catalog.foremost keyword tokens, Ranking.compareParams d.params c.params = .gt := by
  rw [foremost_eq_unbeaten] at hnot ⊢
  have habove := Ranking.exists_mem_unbeaten Command.asymmetric_beats Command.transitive_beats hc
  obtain ⟨d, hd, hbeats⟩ := habove.resolve_left hnot
  exact ⟨d, hd, Command.beats_iff.mp hbeats⟩

/-! ### Twins -/

/-- Whoever leads goes before every other command that fits, and so it has no twin among them. -/
theorem kinds_ne_of_leads (hpair : [c, d].Sublist (catalog.suitable keyword tokens))
    (hkinds : c.kinds = d.kinds) {l : Command}
    (hleads : Ranking.Leads Command.beats (catalog.suitable keyword tokens) l) :
    l.kinds ≠ c.kinds := by
  intro heq
  obtain ⟨rest, hperm, hbeats⟩ := Ranking.leads_iff_perm.mp hleads
  -- of the twins, one is not the leader itself
  obtain ⟨e, he, hekinds⟩ : ∃ e ∈ rest, decide (e.kinds = c.kinds) = true :=
    Ranking.exists_mem_of_pair_sublist hpair (decide_eq_true rfl) (decide_eq_true hkinds.symm) hperm
  have hgt : Ranking.compareParams l.params e.params = .gt := Command.beats_iff.mp (hbeats e he)
  have halike : Ranking.Alike l.params e.params :=
    Command.alike_params_iff.mpr (heq.trans (of_decide_eq_true hekinds).symm)
  rw [Ranking.compareParams_of_alike halike] at hgt
  cases hgt

/-- Of two twins that fit, both are among the foremost commands or neither is. -/
theorem foremost_of_kinds_eq (hpair : [c, d].Sublist (catalog.suitable keyword tokens))
    (hkinds : c.kinds = d.kinds) :
    [c, d].Sublist (catalog.foremost keyword tokens) ∨
      c ∉ catalog.foremost keyword tokens ∧ d ∉ catalog.foremost keyword tokens := by
  have hc := hpair.subset List.mem_cons_self
  have hd := hpair.subset (List.mem_cons_of_mem c List.mem_cons_self)
  have hiff : c ∈ catalog.foremost keyword tokens ↔ d ∈ catalog.foremost keyword tokens := by
    simp only [mem_foremost_iff, hc, hd, true_and, Command.compareParams_eq_of_kinds_eq hkinds]
  by_cases hmem : c ∈ catalog.foremost keyword tokens
  · left
    -- both pass the filter that makes the foremost commands out of those that fit
    refine List.sublist_filter_iff.mpr ⟨[c, d], hpair, (List.filter_eq_self.mpr ?_).symm⟩
    have hall : ∀ e ∈ [c, d], e ∈ catalog.foremost keyword tokens := by
      intro e he
      rcases List.mem_cons.mp he with rfl | he
      · exact hmem
      · rw [List.mem_singleton.mp he]
        exact hiff.mp hmem
    intro e he
    rw [decide_eq_true_eq]
    exact (mem_foremost_iff.mp (hall e he)).2
  · exact .inr ⟨hmem, fun hd => hmem (hiff.mpr hd)⟩

/-- **An ambiguity names the foremost commands.** The fault has the signatures of exactly those
commands that fit and that no command that fits goes before, in the order of registration. There are
at least two of them, they compare equal with each other, and every other command that fits is
beaten by one of them. Whatever candidates are left in a contest, one of them is not beaten, so it
never comes to naming all for want of any. Of two commands that fit and have parameters of the same
kinds, neither is called, and both are named or neither is. -/
theorem ambiguity_names_foremost (catalog : Catalog) (tokens : List String) :
    (∀ keyword signatures,
      catalog.resolve tokens = .error (.of (.ambiguousCommand keyword signatures)) →
        tokens.head? = some keyword ∧
        signatures = (catalog.foremost keyword tokens).map Command.signature ∧
        2 ≤ signatures.length ∧
        (∀ c ∈ catalog.foremost keyword tokens, ∀ d ∈ catalog.foremost keyword tokens,
          Ranking.compareParams c.params d.params = .eq) ∧
        (∀ c ∈ catalog.suitable keyword tokens, c ∉ catalog.foremost keyword tokens →
          ∃ d ∈ catalog.foremost keyword tokens,
            Ranking.compareParams d.params c.params = .gt)) ∧
    (∀ candidates : List Candidate, candidates ≠ [] →
      Ranking.unbeaten Contest.beats candidates ≠ [] ∧
      Ranking.contenders Contest.beats candidates =
        Ranking.unbeaten Contest.beats candidates) ∧
    (∀ keyword c d, tokens.head? = some keyword →
      [c, d].Sublist (catalog.suitable keyword tokens) → c.kinds = d.kinds →
        (∀ call, catalog.resolve tokens = .ok call → call.command ≠ c ∧ call.command ≠ d) ∧
        ([c, d].Sublist (catalog.foremost keyword tokens) ∨
          c ∉ catalog.foremost keyword tokens ∧ d ∉ catalog.foremost keyword tokens)) := by
  refine ⟨?_, ?_, ?_⟩
  · intro keyword signatures h
    obtain ⟨hhead, htwo, hnone, hsignatures⟩ := resolve_eq_ambiguousCommand_iff.mp h
    rw [contenders_eq_foremost] at hsignatures
    have hne : catalog.suitable keyword tokens ≠ [] := List.ne_nil_of_length_pos (by omega)
    -- one command alone would have led
    have hlength := Ranking.two_le_length_unbeaten Command.asymmetric_beats
      Command.transitive_beats hne hnone
    rw [← foremost_eq_unbeaten] at hlength
    refine ⟨hhead, hsignatures.symm, ?_, fun c hc d hd => compareParams_of_mem_foremost hc hd,
      fun c hc hnot => exists_foremost_of_not_mem hc hnot⟩
    rwa [← hsignatures, List.length_map]
  · intro candidates hne
    exact ⟨Ranking.unbeaten_ne_nil Contest.asymmetric_beats Contest.transitive_beats hne,
      Ranking.contenders_eq_unbeaten Contest.asymmetric_beats Contest.transitive_beats⟩
  · intro keyword c d hhead hpair hkinds
    refine ⟨?_, foremost_of_kinds_eq hpair hkinds⟩
    intro call hcall
    obtain ⟨k, hk, hleads, -⟩ := resolve_eq_ok_iff.mp hcall
    obtain rfl : keyword = k := Option.some.inj (hhead.symm.trans hk)
    -- a call is of the command that leads, and that has no twin among those that fit
    have hne := kinds_ne_of_leads hpair hkinds hleads
    refine ⟨?_, ?_⟩
    · rintro rfl
      exact hne rfl
    · rintro rfl
      exact hne hkinds.symm

/-- Arrays of different elements are not alike and still on a par, so both are named; a row of texts
that also fits comes after them. -/
example :
    let words : Catalog := ⟨[.silent "m" [.array "end" (.scalar (.int "n"))],
      .silent "m" [.scalar (.str "s"), .scalar (.str "t")],
      .silent "m" [.array "end" (.scalar (.float "x"))]]⟩
    (words.suitable "m" ["m", "1", "end"]).length = 3 ∧
    (words.foremost "m" ["m", "1", "end"]).map Command.signature =
      ["m <n: int>... end", "m <x: float>... end"] := by decide

end Catalog

end CommandShell
