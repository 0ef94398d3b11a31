import CommandShell.Proofs.Progress

/-!
# One more command

A command is registered, and the words that were understood before are typed again. The new command
takes part in every round of the contest, in the last look at who has words left over and in the
election, and still it can do no more than step in for itself: either it is called, or the command
is called that was called before, or nobody is, because the two are on a par. It never makes way for
a third command, because whoever goes before all others went before all others without it.

A command that does not fit the words changes nothing but the number of words that were matched when
nobody fits, and a command with another keyword changes nothing at all.

Main results:

* `Ranking.leads_concat_iff`: who leads when one more member joins;
* `Catalog.resolve_register_eq_ok_iff`: which call is found when one more command fits;
* `Catalog.register_never_redirects`: all that becomes of some words.
-/

namespace CommandShell

/-! ## One more member -/

/-- With one more member, either the old leader goes before it as well, or it goes before everyone.
-/
theorem Ranking.leads_concat_iff {α : Type} {beats : α → α → Bool} {as : List α} {a d : α} :
    Leads beats (as ++ [d]) a ↔
      (Leads beats as a ∧ beats a d = true) ∨ (a = d ∧ ∀ b ∈ as, beats d b = true) := by
  constructor
  · rintro ⟨front, back, hsplit, hbeats⟩
    -- the leader is either the new member or stands before it
    rcases List.eq_nil_or_concat back with rfl | ⟨back, e, rfl⟩
    · obtain ⟨rfl, hlast⟩ := List.append_inj' hsplit rfl
      obtain rfl : d = a := List.singleton_inj.mp hlast
      refine .inr ⟨rfl, fun b hb => hbeats b ?_⟩
      rwa [List.append_nil]
    · rw [List.concat_eq_append, ← List.cons_append, ← List.append_assoc] at hsplit
      obtain ⟨rfl, hlast⟩ := List.append_inj' hsplit rfl
      obtain rfl : d = e := List.singleton_inj.mp hlast
      refine .inl ⟨⟨front, back, rfl, fun b hb => hbeats b ?_⟩, hbeats d (by simp)⟩
      rw [List.concat_eq_append, ← List.append_assoc]
      exact List.mem_append_left [d] hb
  · rintro (⟨⟨front, back, rfl, hbeats⟩, hd⟩ | ⟨rfl, hbeats⟩)
    · refine ⟨front, back ++ [d], by rw [List.append_assoc, List.cons_append], ?_⟩
      intro b hb
      rw [← List.append_assoc, List.mem_append, List.mem_singleton] at hb
      rcases hb with hb | rfl
      · exact hbeats b hb
      · exact hd
    · refine ⟨as, [], rfl, ?_⟩
      intro b hb
      rw [List.append_nil] at hb
      exact hbeats b hb

namespace Catalog

variable {catalog : Catalog} {d : Command} {keyword : String} {tokens words : List String}

/-! ## What the registration changes -/

/-- A new command stands at the end of the commands of its keyword. -/
theorem overloads_register_of_eq (h : d.keyword = keyword) :
    (catalog.register d).overloads keyword = catalog.overloads keyword ++ [d] := by
  rw [overloads_register, h, beq_self_eq_true, if_pos rfl]

theorem overloads_register_of_ne (h : d.keyword ≠ keyword) :
    (catalog.register d).overloads keyword = catalog.overloads keyword := by
  rw [overloads_register, beq_eq_false_iff_ne.mpr h, if_neg Bool.false_ne_true, List.append_nil]

theorem overloads_register_ne_nil (h : d.keyword = keyword) :
    (catalog.register d).overloads keyword ≠ [] := by
  rw [overloads_register_of_eq h]
  exact List.append_ne_nil_of_right_ne_nil _ (List.cons_ne_nil d [])

theorem suitable_register_of_fits (h : d.keyword = keyword) (hfits : d.Fits tokens) :
    (catalog.register d).suitable keyword tokens = catalog.suitable keyword tokens ++ [d] := by
  have hlast : [d].filter (fun c => decide (c.Fits tokens)) = [d] := by simp [hfits]
  rw [suitable, overloads_register_of_eq h, List.filter_append, hlast]
  rfl

theorem suitable_register_of_not_fits (h : d.keyword = keyword) (hnot : ¬ d.Fits tokens) :
    (catalog.register d).suitable keyword tokens = catalog.suitable keyword tokens := by
  have hlast : [d].filter (fun c => decide (c.Fits tokens)) = [] := by simp [hnot]
  rw [suitable, overloads_register_of_eq h, List.filter_append, hlast, List.append_nil]
  rfl

/-- What the contest has read at most, it reads at most with the new command, or that reads more. -/
theorem progress_register (h : d.keyword = keyword) :
    (catalog.register d).progress keyword tokens =
      max (catalog.progress keyword tokens) (d.trial tokens).position := by
  rw [progress, overloads_register_of_eq h, List.foldl_append]
  rfl

/-- Words are judged by the commands of the first word alone. -/
theorem resolve_register_of_ne (h : d.keyword ≠ keyword) :
    (catalog.register d).resolve (keyword :: words) = catalog.resolve (keyword :: words) := by
  rw [resolve, resolve, judge, judge, overloads_register_of_ne h]

/-! ## A command that does not fit -/

section NotFits

variable (h : d.keyword = keyword) (hnot : ¬ d.Fits (keyword :: words))
include h hnot

/-- A call stays the same when a command joins that does not fit. -/
theorem resolve_register_of_ok {call : Invocation}
    (hcall : catalog.resolve (keyword :: words) = .ok call) :
    (catalog.register d).resolve (keyword :: words) = .ok call := by
  obtain ⟨k, hhead, hleads⟩ := resolve_eq_ok_iff.mp hcall
  obtain rfl : keyword = k := Option.some.inj hhead
  rw [← suitable_register_of_not_fits h hnot] at hleads
  exact resolve_eq_ok_iff.mpr ⟨keyword, hhead, hleads⟩

/-- An ambiguity stays the same when a command joins that does not fit. -/
theorem resolve_register_of_ambiguousCommand {k : String} {signatures : List String}
    (hfault : catalog.resolve (keyword :: words) =
      .error (.of (.ambiguousCommand k signatures))) :
    (catalog.register d).resolve (keyword :: words) =
      .error (.of (.ambiguousCommand k signatures)) := by
  obtain ⟨hhead, hrest⟩ := resolve_eq_ambiguousCommand_iff.mp hfault
  obtain rfl : keyword = k := Option.some.inj hhead
  rw [← suitable_register_of_not_fits h hnot] at hrest
  exact resolve_eq_ambiguousCommand_iff.mpr ⟨hhead, hrest⟩

/-- If nobody fits, and the new command does not either, the words are still refused, and the count
is the greater of the two. -/
theorem resolve_register_of_noViableOverload {k : String} {consumed : Nat}
    (hfault : catalog.resolve (keyword :: words) =
      .error (.of (.noViableOverload k consumed))) :
    (catalog.register d).resolve (keyword :: words) =
      .error (.of (.noViableOverload k (max consumed (d.trial (keyword :: words)).position))) := by
  obtain ⟨hhead, -, hnone, rfl⟩ := resolve_eq_noViableOverload_iff.mp hfault
  obtain rfl : keyword = k := Option.some.inj hhead
  rw [← suitable_register_of_not_fits h hnot] at hnone
  exact resolve_eq_noViableOverload_iff.mpr
    ⟨hhead, overloads_register_ne_nil h, hnone, progress_register h⟩

/-- If nobody had the keyword, the words are refused on the grounds of the new command. -/
theorem resolve_register_of_commandNotFound {k : String}
    (hfault : catalog.resolve (keyword :: words) = .error (.of (.commandNotFound k))) :
    (catalog.register d).resolve (keyword :: words) =
      .error (.of (.noViableOverload k (d.trial (keyword :: words)).position)) := by
  obtain ⟨hhead, hnil⟩ := resolve_eq_commandNotFound_iff.mp hfault
  obtain rfl : keyword = k := Option.some.inj hhead
  have hnone : (catalog.register d).suitable keyword (keyword :: words) = [] := by
    rw [suitable_register_of_not_fits h hnot, suitable, hnil, List.filter_nil]
  -- the new command is the only one, and it has come at least behind the keyword
  have hprogress : (catalog.register d).progress keyword (keyword :: words) =
      (d.trial (keyword :: words)).position := by
    rw [progress_register h, progress, hnil]
    exact Nat.max_eq_right (d.one_le_position_trial _)
  exact resolve_eq_noViableOverload_iff.mpr
    ⟨hhead, overloads_register_ne_nil h, hnone, hprogress⟩

end NotFits

/-! ## A command that fits -/

section Fits

variable (h : d.keyword = keyword) (hfits : d.Fits (keyword :: words))
include h hfits

/-- **The call that is found when one more command fits.** It is the call that was found before, if
its command goes before the new one, or the call of the new command, if that goes before all others
that fit. -/
theorem resolve_register_eq_ok_iff {call : Invocation} :
    (catalog.register d).resolve (keyword :: words) = .ok call ↔
      (catalog.resolve (keyword :: words) = .ok call ∧
        Ranking.compareParams call.command.params d.params = .gt) ∨
      (call = ⟨d, (d.trial (keyword :: words)).values⟩ ∧
        ∀ c ∈ catalog.suitable keyword (keyword :: words),
          Ranking.compareParams d.params c.params = .gt) := by
  have hsuitable : (catalog.register d).suitable keyword (keyword :: words) =
      catalog.suitable keyword (keyword :: words) ++ [d] := suitable_register_of_fits h hfits
  simp only [resolve_eq_ok_iff, List.head?_cons, Option.some.injEq, exists_eq_left', hsuitable,
    Ranking.leads_concat_iff, Command.beats_iff]
  -- the new member of the list is the new command, so the two ways to lead are the two calls
  constructor
  · rintro ⟨⟨hleads, hbeats⟩ | ⟨rfl, hbeats⟩, hargs⟩
    · exact .inl ⟨⟨hleads, hargs⟩, hbeats⟩
    · refine .inr ⟨?_, hbeats⟩
      rw [← hargs]
  · rintro (⟨⟨hleads, hargs⟩, hbeats⟩ | ⟨rfl, hbeats⟩)
    · exact ⟨.inl ⟨hleads, hbeats⟩, hargs⟩
    · exact ⟨.inr ⟨rfl, hbeats⟩, rfl⟩

/-- Once a command fits, words can only be refused as ambiguous. -/
theorem exists_ambiguousCommand_of_resolve_register {fault : Fault}
    (hfault : (catalog.register d).resolve (keyword :: words) = .error fault) :
    ∃ signatures, fault = .of (.ambiguousCommand keyword signatures) := by
  -- of the four faults, the other three would mean that no command fits
  rcases eq_of_resolve_eq_error hfault with rfl | ⟨k, rfl⟩ | ⟨k, consumed, rfl⟩ |
      ⟨k, signatures, rfl⟩
  · have hnil := resolve_eq_emptyInput_iff.mp hfault
    exact absurd hnil (List.cons_ne_nil keyword words)
  · obtain ⟨hhead, hnil⟩ := resolve_eq_commandNotFound_iff.mp hfault
    obtain rfl : keyword = k := Option.some.inj hhead
    exact absurd hnil (overloads_register_ne_nil h)
  · obtain ⟨hhead, -, hnone, -⟩ := resolve_eq_noViableOverload_iff.mp hfault
    obtain rfl : keyword = k := Option.some.inj hhead
    rw [suitable_register_of_fits h hfits] at hnone
    exact absurd hnone (List.append_ne_nil_of_right_ne_nil _ (List.cons_ne_nil d []))
  · obtain ⟨hhead, -⟩ := resolve_eq_ambiguousCommand_iff.mp hfault
    obtain rfl : keyword = k := Option.some.inj hhead
    exact ⟨signatures, rfl⟩

/-- Where nobody fitted before, a new command that fits is called. -/
theorem resolve_register_of_suitable_eq_nil
    (hnone : catalog.suitable keyword (keyword :: words) = []) :
    (catalog.register d).resolve (keyword :: words) =
      .ok ⟨d, (d.trial (keyword :: words)).values⟩ := by
  refine (resolve_register_eq_ok_iff h hfits).mpr (.inr ⟨rfl, ?_⟩)
  intro c hc
  rw [hnone] at hc
  exact absurd hc List.not_mem_nil

end Fits

/-- Words that were refused for want of a command fitted none. -/
theorem suitable_eq_nil_of_resolve {k : String}
    (h : catalog.resolve (keyword :: words) = .error (.of (.commandNotFound k)) ∨
      ∃ consumed, catalog.resolve (keyword :: words) =
        .error (.of (.noViableOverload k consumed))) :
    catalog.suitable keyword (keyword :: words) = [] := by
  rcases h with h | ⟨consumed, h⟩
  · obtain ⟨hhead, hnil⟩ := resolve_eq_commandNotFound_iff.mp h
    obtain rfl : keyword = k := Option.some.inj hhead
    rw [suitable, hnil, List.filter_nil]
  · obtain ⟨hhead, -, hnone, -⟩ := resolve_eq_noViableOverload_iff.mp h
    obtain rfl : keyword = k := Option.some.inj hhead
    exact hnone

/-- **One more command never redirects words to another old command.** With another keyword it
changes nothing. If it has the keyword and does not fit, a call and an ambiguity stay as they are;
if nobody fits, what is reported is the furthest that they or the new command come, and its own
progress if it is the only one. If it fits, only two calls can be found: the one that was found
before, if its command goes before the new one, and the call of the new command, if that goes before
all others that fit. Otherwise the words are ambiguous. Where nobody fitted before, the new command
is called. -/
theorem register_never_redirects (catalog : Catalog) (d : Command) (keyword : String)
    (words : List String) :
    (d.keyword ≠ keyword →
      (catalog.register d).resolve (keyword :: words) = catalog.resolve (keyword :: words)) ∧
    (d.keyword = keyword → ¬ d.Fits (keyword :: words) →
      (∀ call, catalog.resolve (keyword :: words) = .ok call →
        (catalog.register d).resolve (keyword :: words) = .ok call) ∧
      (∀ k signatures,
        catalog.resolve (keyword :: words) = .error (.of (.ambiguousCommand k signatures)) →
          (catalog.register d).resolve (keyword :: words) =
            .error (.of (.ambiguousCommand k signatures))) ∧
      (∀ k consumed,
        catalog.resolve (keyword :: words) = .error (.of (.noViableOverload k consumed)) →
          (catalog.register d).resolve (keyword :: words) = .error (.of (.noViableOverload k
            (max consumed (d.trial (keyword :: words)).position)))) ∧
      (∀ k, catalog.resolve (keyword :: words) = .error (.of (.commandNotFound k)) →
        (catalog.register d).resolve (keyword :: words) =
          .error (.of (.noViableOverload k (d.trial (keyword :: words)).position)))) ∧
    (d.keyword = keyword → d.Fits (keyword :: words) →
      (∀ call, (catalog.register d).resolve (keyword :: words) = .ok call ↔
        (catalog.resolve (keyword :: words) = .ok call ∧
          Ranking.compareParams call.command.params d.params = .gt) ∨
        (call = ⟨d, (d.trial (keyword :: words)).values⟩ ∧
          ∀ c ∈ catalog.suitable keyword (keyword :: words),
            Ranking.compareParams d.params c.params = .gt)) ∧
      (∀ fault, (catalog.register d).resolve (keyword :: words) = .error fault →
        ∃ signatures, fault = .of (.ambiguousCommand keyword signatures)) ∧
      (∀ k, (catalog.resolve (keyword :: words) = .error (.of (.commandNotFound k)) ∨
          ∃ consumed, catalog.resolve (keyword :: words) =
            .error (.of (.noViableOverload k consumed))) →
        (catalog.register d).resolve (keyword :: words) =
          .ok ⟨d, (d.trial (keyword :: words)).values⟩)) := by
  refine ⟨resolve_register_of_ne, ?_, ?_⟩
  · intro h hnot
    exact ⟨fun _ => resolve_register_of_ok h hnot,
      fun _ _ => resolve_register_of_ambiguousCommand h hnot,
      fun _ _ => resolve_register_of_noViableOverload h hnot,
      fun _ => resolve_register_of_commandNotFound h hnot⟩
  · intro h hfits
    refine ⟨fun _ => resolve_register_eq_ok_iff h hfits,
      fun _ => exists_ambiguousCommand_of_resolve_register h hfits, ?_⟩
    intro k hnone
    exact resolve_register_of_suitable_eq_nil h hfits (suitable_eq_nil_of_resolve hnone)

end Catalog

end CommandShell
