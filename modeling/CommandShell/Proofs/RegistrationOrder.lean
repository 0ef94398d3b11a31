import CommandShell.Proofs.Resolution

/-!
# The order of registration

A catalog is a list, and the scan for a leader goes through a list, but the place of a command in it
never decides a call. Only the report of an ambiguity shows it, which lists the signatures in the
order of registration.

Main results:

* `Catalog.suitable_perm` / `Catalog.progress_perm`: what the commands of a keyword come to alone
  depends on the order only as a list of them does;
* `Catalog.resolve_perm`: catalogs with the same commands give the same results.
-/

namespace CommandShell

/-- A command that does nothing when it is called. -/
def Command.silent (keyword : String) (params : List Param) : Command where
  keyword := keyword
  params := params
  action := fun _ => []

namespace Catalog

variable {catalog catalog' : Catalog}

/-- Catalogs with the same commands have the same commands of a keyword. -/
theorem overloads_perm (h : catalog.commands.Perm catalog'.commands) (keyword : String) :
    (catalog.overloads keyword).Perm (catalog'.overloads keyword) :=
  h.filter _

theorem suitable_perm (h : catalog.commands.Perm catalog'.commands) (keyword : String)
    (tokens : List String) :
    (catalog.suitable keyword tokens).Perm (catalog'.suitable keyword tokens) :=
  (overloads_perm h keyword).filter _

theorem progress_perm (h : catalog.commands.Perm catalog'.commands) (keyword : String)
    (tokens : List String) :
    catalog.progress keyword tokens = catalog'.progress keyword tokens := by
  -- a bound of what all commands come to is a bound in any order
  refine eq_of_forall_ge_iff fun b => ?_
  rw [progress, progress, foldl_max_le_iff, foldl_max_le_iff]
  simp only [(overloads_perm h keyword).mem_iff]

/-- An ambiguity lists signatures in the order of registration. -/
theorem signatures_sublist_usage {keyword : String} {tokens signatures : List String}
    (h : catalog.resolve tokens = .error (.of (.ambiguousCommand keyword signatures))) :
    signatures.Sublist (catalog.usage keyword) := by
  -- the contenders are listed as they stand among the commands of the keyword
  obtain ⟨-, -, -, rfl⟩ := resolve_eq_ambiguousCommand_iff.mp h
  have hcontenders := Ranking.contenders_sublist Command.beats (catalog.suitable keyword tokens)
  exact (hcontenders.trans List.filter_sublist).map Command.signature

/-- **The order of registration never decides a call.** If a catalog has the same commands in
another order, the same words give the same call or the same fault. An ambiguity lists the same
signatures as often, each list in the order of its own catalog. -/
theorem resolve_perm (h : catalog.commands.Perm catalog'.commands) (tokens : List String) :
    (∀ call, catalog.resolve tokens = .ok call → catalog'.resolve tokens = .ok call) ∧
    (∀ fault, catalog.resolve tokens = .error fault →
      (∀ keyword signatures, fault ≠ .of (.ambiguousCommand keyword signatures)) →
        catalog'.resolve tokens = .error fault) ∧
    (∀ keyword signatures,
      catalog.resolve tokens = .error (.of (.ambiguousCommand keyword signatures)) →
        ∃ signatures',
          catalog'.resolve tokens = .error (.of (.ambiguousCommand keyword signatures')) ∧
          signatures.Perm signatures' ∧ signatures.Sublist (catalog.usage keyword) ∧
          signatures'.Sublist (catalog'.usage keyword)) := by
  refine ⟨?_, ?_, ?_⟩
  · intro call hcall
    obtain ⟨keyword, hhead, hleads, hargs⟩ := resolve_eq_ok_iff.mp hcall
    have hperm := suitable_perm h keyword tokens
    exact resolve_eq_ok_iff.mpr ⟨keyword, hhead, hleads.perm hperm, hargs⟩
  · intro fault hfault hother
    -- fault by fault, for each of them says something about the commands as a whole
    rcases eq_of_resolve_eq_error hfault with rfl | ⟨keyword, rfl⟩ | ⟨keyword, consumed, rfl⟩ |
        ⟨keyword, signatures, rfl⟩
    · exact resolve_eq_emptyInput_iff.mpr (resolve_eq_emptyInput_iff.mp hfault)
    · obtain ⟨hhead, hover⟩ := resolve_eq_commandNotFound_iff.mp hfault
      refine resolve_eq_commandNotFound_iff.mpr ⟨hhead, ?_⟩
      exact (hover ▸ overloads_perm h keyword).nil_eq.symm
    · obtain ⟨hhead, hover, hsuitable, hprogress⟩ := resolve_eq_noViableOverload_iff.mp hfault
      refine resolve_eq_noViableOverload_iff.mpr ⟨hhead, ?_, ?_, ?_⟩
      · intro hnil
        exact hover (hnil ▸ overloads_perm h keyword).eq_nil
      · exact (hsuitable ▸ suitable_perm h keyword tokens).nil_eq.symm
      · rw [← progress_perm h, hprogress]
    · exact absurd rfl (hother keyword signatures)
  · intro keyword signatures hambiguous
    -- nobody leads in the other order either, since whoever led would lead here
    obtain ⟨hhead, htwo, hnone, rfl⟩ := resolve_eq_ambiguousCommand_iff.mp hambiguous
    have hperm := suitable_perm h keyword tokens
    have hnone' : ¬ ∃ c, Ranking.Leads Command.beats (catalog'.suitable keyword tokens) c :=
      fun ⟨c, hleads⟩ => hnone ⟨c, hleads.perm hperm.symm⟩
    have hambiguous' := resolve_eq_ambiguousCommand_iff.mpr
      ⟨hhead, hperm.length_eq ▸ htwo, hnone', rfl⟩
    refine ⟨_, hambiguous', ?_, signatures_sublist_usage hambiguous,
      signatures_sublist_usage hambiguous'⟩
    exact (Ranking.contenders_perm hperm).map _

/-- Two twins with a text between them that they go before. -/
def twins : Catalog :=
  ⟨[.silent "m" [.scalar (.int "a")], .silent "m" [.scalar (.str "s")],
    .silent "m" [.scalar (.int "b")]]⟩

/-- Registered the other way round, twins are listed the other way round. -/
theorem resolve_perm_twins :
    twins.commands.Perm (Catalog.mk twins.commands.reverse).commands ∧
    twins.resolve ["m", "3"] = .error (.of (.ambiguousCommand "m" ["m <a: int>", "m <b: int>"])) ∧
    ∃ signatures',
      (Catalog.mk twins.commands.reverse).resolve ["m", "3"] =
        .error (.of (.ambiguousCommand "m" signatures')) ∧
      ["m <a: int>", "m <b: int>"].Perm signatures' ∧
      ["m <a: int>", "m <b: int>"].Sublist (twins.usage "m") ∧
      signatures'.Sublist ((Catalog.mk twins.commands.reverse).usage "m") := by
  have hperm : twins.commands.Perm (Catalog.mk twins.commands.reverse).commands :=
    (List.reverse_perm twins.commands).symm
  have hambiguous : twins.resolve ["m", "3"] =
      .error (.of (.ambiguousCommand "m" ["m <a: int>", "m <b: int>"])) := by
    rw [resolve_cons]
    rfl
  exact ⟨hperm, hambiguous, (resolve_perm hperm ["m", "3"]).2.2 _ _ hambiguous⟩

end Catalog

end CommandShell
