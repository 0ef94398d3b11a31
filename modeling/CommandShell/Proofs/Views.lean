import CommandShell.Proofs.OneMoreCommand
import CommandShell.Proofs.Routing
import Mathlib.Algebra.GroupWithZero.Nat
import Mathlib.Data.List.Nodup
import Mathlib.Data.List.TFAE
import Mathlib.Tactic.TFAE

/-!
# The views of a catalog

A catalog is looked at in several ways: which keywords there are, which commands have a keyword,
what their signatures are, whether a keyword is known. Help, completion and dispatch each go by
another one of these, and each of them goes through the list of commands in a loop of its own. Since
commands are only ever registered, one after the other, a catalog is the history of its
registrations, and how the views belong together is an induction over that history.

Commands that look the same are kept apart by their places, counted from zero in the order of
registration. The places of a keyword are those of its commands, and every view of a keyword shows
what stands at its places.

Main definitions:

* `Catalog.places`: where the commands with some property stand;
* `Catalog.firstPlace`: where a keyword was registered first.

Main results:

* `Catalog.registrations`: induction over the history of registrations;
* `Catalog.map_places`: the views of a keyword show what stands at its places;
* `Catalog.mem_keywords_iff`, `Catalog.pairwise_keywords`: the keywords are those that are known, in
  the order of their first registrations;
* `Catalog.flatMap_overloads_perm`: every command belongs to one keyword;
* `Catalog.views_agree`: all of it for any row of registrations.
-/

namespace CommandShell

namespace Catalog

variable {catalog : Catalog} {keyword : String} {c : Command}

/-! ## Histories of registrations -/

/-- **What holds of the empty catalog and outlasts every registration holds of every catalog.** -/
@[elab_as_elim]
theorem registrations {motive : Catalog → Prop} (empty : motive .empty)
    (register : ∀ (catalog : Catalog) (c : Command), motive catalog → motive (catalog.register c))
    (catalog : Catalog) : motive catalog := by
  obtain ⟨commands⟩ := catalog
  induction commands using List.reverseRecOn with
  | nil => exact empty
  | append_singleton commands c ih => exact register ⟨commands⟩ c ih

/-- A row of registrations adds the commands in the order of the row. -/
theorem commands_foldl_register (registered : List Command) (catalog : Catalog) :
    (registered.foldl register catalog).commands = catalog.commands ++ registered := by
  induction registered generalizing catalog with
  | nil => exact (List.append_nil _).symm
  | cons c registered ih =>
    rw [List.foldl_cons, ih, commands_register, List.append_assoc, List.singleton_append]

/-! ## Places -/

/-- Where the commands with some property stand, counted from zero in the order of registration. -/
def places (catalog : Catalog) (p : Command → Bool) : List Nat := catalog.commands.findIdxs p

/-- A place with some property is one where a command stands that has it. -/
theorem mem_places_iff {p : Command → Bool} {i : Nat} :
    i ∈ catalog.places p ↔ ∃ c, catalog.commands[i]? = some c ∧ p c = true := by
  rw [places, List.mem_findIdxs_iff_exists_getElem_pos]
  constructor
  · rintro ⟨hi, hp⟩
    exact ⟨catalog.commands[i], List.getElem?_eq_getElem hi, hp⟩
  · rintro ⟨c, hc, hp⟩
    obtain ⟨hi, rfl⟩ := List.getElem?_eq_some_iff.mp hc
    exact ⟨hi, hp⟩

theorem pairwise_places (p : Command → Bool) : (catalog.places p).Pairwise (· < ·) :=
  List.pairwise_findIdxs

/-- **A view of the commands with some property shows what stands at their places**, one after the
other. -/
theorem map_places {α : Type} (catalog : Catalog) (view : Command → α) (p : Command → Bool) :
    (catalog.places p).map (fun i => (catalog.commands.map view)[i]?) =
      ((catalog.commands.filter p).map view).map some := by
  have hlength : (catalog.places p).length = (catalog.commands.filter p).length := by
    rw [places, List.length_findIdxs, List.countP_eq_length_filter]
  apply List.ext_getElem
  · simpa using hlength
  intro n hn _
  have hplaces : n < (catalog.places p).length := by simpa using hn
  have hfilter : n < (catalog.commands.filter p).length := hlength ▸ hplaces
  -- the `n`-th of them stands at the `n`-th of their places
  have hplace := List.getElem_filter_eq_getElem_getElem_findIdxs hfilter
  have hbound : (catalog.places p)[n] < catalog.commands.length :=
    List.getElem_findIdxs_lt _
  rw [List.getElem_map, List.getElem_map, List.getElem_map, List.getElem?_map,
    List.getElem?_eq_getElem hbound, hplace]
  rfl

/-! ## Keywords -/

/-- Where a keyword was registered first. -/
def firstPlace (catalog : Catalog) (keyword : String) : Nat :=
  catalog.commands.findIdx fun c => c.keyword == keyword

theorem knows_eq_true_iff :
    catalog.knows keyword = true ↔ ∃ c ∈ catalog.commands, c.keyword = keyword := by
  simp [knows]

theorem knows_register :
    (catalog.register c).knows keyword = (catalog.knows keyword || c.keyword == keyword) := by
  simp [knows]

/-- A keyword is known exactly if it was registered at some place. -/
theorem firstPlace_lt_size_iff :
    catalog.firstPlace keyword < catalog.size ↔ catalog.knows keyword = true := by
  rw [firstPlace, size, List.findIdx_lt_length, knows, List.any_eq_true]

/-- A registration does not change where a keyword that is known was registered first. -/
theorem firstPlace_register_of_knows (h : catalog.knows keyword = true) :
    (catalog.register c).firstPlace keyword = catalog.firstPlace keyword := by
  have hlt : catalog.commands.findIdx (fun c => c.keyword == keyword) < catalog.commands.length :=
    firstPlace_lt_size_iff.mpr h
  rw [firstPlace, commands_register, List.findIdx_append, if_pos hlt, firstPlace]

/-- A keyword that is not known is registered first behind all others. -/
theorem firstPlace_register_of_not_knows (h : catalog.knows c.keyword = false) :
    (catalog.register c).firstPlace c.keyword = catalog.size := by
  have hge : ¬ catalog.commands.findIdx (fun d => d.keyword == c.keyword) <
      catalog.commands.length := by
    intro hlt
    have hknows := firstPlace_lt_size_iff.mp hlt
    rw [h] at hknows
    exact Bool.noConfusion hknows
  have hlast : [c].findIdx (fun d => d.keyword == c.keyword) = 0 := by simp
  rw [firstPlace, commands_register, List.findIdx_append, if_neg hge, hlast, Nat.zero_add, size]

/-- **The keywords are those that are known.** -/
theorem mem_keywords_iff : keyword ∈ catalog.keywords ↔ catalog.knows keyword = true := by
  -- a registration adds its keyword to both, if it is not there already
  induction catalog using registrations with
  | empty => simp [keywords, collectKeywords, knows, Catalog.empty]
  | register catalog c ih =>
    rw [keywords_register, knows_register, Bool.or_eq_true, beq_iff_eq, ← ih]
    by_cases hmem : c.keyword ∈ catalog.keywords
    · rw [if_pos hmem]
      constructor
      · exact .inl
      · rintro (h | rfl)
        · exact h
        · exact hmem
    · rw [if_neg hmem, List.mem_append, List.mem_singleton, eq_comm]

/-- **The keywords stand in the order of their first registrations.** -/
theorem pairwise_keywords :
    catalog.keywords.Pairwise fun k l => catalog.firstPlace k < catalog.firstPlace l := by
  -- over the registrations: those that were known keep their first places
  induction catalog using registrations with
  | empty => exact .nil
  | register catalog c ih =>
    have hkept : catalog.keywords.Pairwise fun k l =>
        (catalog.register c).firstPlace k < (catalog.register c).firstPlace l := by
      refine ih.imp_of_mem fun {k l} hk hl hlt => ?_
      rwa [firstPlace_register_of_knows (mem_keywords_iff.mp hk),
        firstPlace_register_of_knows (mem_keywords_iff.mp hl)]
    rw [keywords_register]
    by_cases hmem : c.keyword ∈ catalog.keywords
    · rwa [if_pos hmem]
    · -- the new keyword comes last, and it was registered behind all others
      rw [if_neg hmem]
      have hnew : catalog.knows c.keyword = false := by
        rwa [← Bool.not_eq_true, ← mem_keywords_iff]
      refine List.pairwise_append.mpr ⟨hkept, List.pairwise_singleton _ _, ?_⟩
      intro k hk l hl
      obtain rfl := List.mem_singleton.mp hl
      have hknows := mem_keywords_iff.mp hk
      rw [firstPlace_register_of_knows hknows, firstPlace_register_of_not_knows hnew]
      exact firstPlace_lt_size_iff.mpr hknows

/-- No keyword is listed twice, for it has one first place. -/
theorem nodup_keywords : catalog.keywords.Nodup :=
  pairwise_keywords.imp fun {k l} hlt heq => by
    rw [heq] at hlt
    exact Nat.lt_irrefl _ hlt

/-! ## The commands of all keywords -/

/-- A command is given out once when every keyword gives out what has it. -/
theorem flatMap_ite_eq_singleton {keywords : List String} (hnodup : keywords.Nodup)
    (hmem : c.keyword ∈ keywords) :
    (keywords.flatMap fun k => if c.keyword == k then [c] else []) = [c] := by
  obtain ⟨front, back, rfl⟩ := List.append_of_mem hmem
  have hmiddle := List.nodup_middle.mp hnodup
  have hother : c.keyword ∉ front ++ back := (List.nodup_cons.mp hmiddle).1
  -- no other keyword than its own has anything to give
  have hnone : ∀ ks : List String, (∀ k ∈ ks, k ∈ front ++ back) →
      (ks.flatMap fun k => if c.keyword == k then [c] else []) = [] := by
    intro ks hks
    refine List.flatMap_eq_nil_iff.mpr fun k hk => ?_
    have hne : c.keyword ≠ k := fun heq => hother (heq ▸ hks k hk)
    rw [beq_eq_false_iff_ne.mpr hne]
    rfl
  rw [List.flatMap_append, List.flatMap_cons,
    hnone front fun k hk => List.mem_append_left back hk,
    hnone back fun k hk => List.mem_append_right front hk, beq_self_eq_true]
  rfl

/-- **The commands of all keywords are all commands**, each as often as it was registered. -/
theorem flatMap_overloads_perm :
    (catalog.keywords.flatMap catalog.overloads).Perm catalog.commands := by
  -- over the registrations, of which each adds one command to the commands of its keyword
  induction catalog using registrations with
  | empty => exact .nil
  | register catalog c ih =>
    have hmem : c.keyword ∈ (catalog.register c).keywords := by
      rw [mem_keywords_iff, knows_register, beq_self_eq_true, Bool.or_true]
    -- a keyword that is new had no commands before
    have hold : (catalog.register c).keywords.flatMap catalog.overloads =
        catalog.keywords.flatMap catalog.overloads := by
      rw [keywords_register]
      by_cases hknown : c.keyword ∈ catalog.keywords
      · rw [if_pos hknown]
      · have hnone : catalog.overloads c.keyword = [] := by
          rwa [← knows_eq_false_iff, ← Bool.not_eq_true, ← mem_keywords_iff]
        rw [if_neg hknown, List.flatMap_append, List.flatMap_singleton, hnone, List.append_nil]
    have hadded : (catalog.register c).keywords.flatMap (catalog.register c).overloads =
        (catalog.register c).keywords.flatMap
          fun k => catalog.overloads k ++ if c.keyword == k then [c] else [] :=
      List.flatMap_congr fun k _ => overloads_register catalog c k
    calc List.Perm ((catalog.register c).keywords.flatMap (catalog.register c).overloads)
          ((catalog.register c).keywords.flatMap catalog.overloads ++
            (catalog.register c).keywords.flatMap fun k => if c.keyword == k then [c] else []) := by
          rw [hadded]
          exact (List.flatMap_append_perm _ _ _).symm
      List.Perm _ (catalog.commands ++ [c]) := by
          rw [hold, flatMap_ite_eq_singleton nodup_keywords hmem]
          exact ih.append_right [c]

/-- The commands of all keywords are as many as were registered. -/
theorem sum_length_overloads :
    (catalog.keywords.map fun k => (catalog.overloads k).length).sum = catalog.size := by
  rw [← List.length_flatMap, flatMap_overloads_perm.length_eq, size]

/-- A command belongs to its own keyword and to no other one. -/
theorem mem_keywords_and_places_iff {i : Nat} (h : catalog.commands[i]? = some c) :
    keyword ∈ catalog.keywords ∧ i ∈ catalog.places (fun d => d.keyword == keyword) ↔
      keyword = c.keyword := by
  rw [mem_keywords_iff, mem_places_iff]
  constructor
  · rintro ⟨-, d, hd, hkeyword⟩
    obtain rfl := Option.some.inj (h.symm.trans hd)
    exact (beq_iff_eq.mp hkeyword).symm
  · rintro rfl
    exact ⟨knows_eq_true_iff.mpr ⟨c, List.mem_of_getElem? h, rfl⟩, c, h, beq_self_eq_true _⟩

/-- Whether a keyword is known can be asked in any of these ways. -/
theorem knows_tfae (catalog : Catalog) (keyword : String) (words : List String) :
    [catalog.knows keyword = true, keyword ∈ catalog.keywords, catalog.overloads keyword ≠ [],
      catalog.usage keyword ≠ [],
      ¬ ∃ k, catalog.resolve (keyword :: words) = .error (.of (.commandNotFound k))].TFAE := by
  have hoverloads : catalog.knows keyword = true ↔ catalog.overloads keyword ≠ [] := by
    rw [← not_iff_not, Bool.not_eq_true, knows_eq_false_iff, not_not]
  tfae_have 2 ↔ 1 := mem_keywords_iff
  tfae_have 1 ↔ 3 := hoverloads
  tfae_have 4 ↔ 3 := by rw [usage, ne_eq, List.map_eq_nil_iff]
  tfae_have 5 ↔ 3 := by
    -- the only keyword that can be reported as not known is the first word
    simp [resolve_eq_commandNotFound_iff]
  tfae_finish

/-- **The views of a catalog agree**, whatever has been registered in whatever order. A keyword is
known exactly if it is among the keywords, if it has commands, if it has signatures, and if words
that begin with it do not fail because it is not known. No keyword is listed twice, and they are
listed in the order of their first registrations. What stands at a place belongs to exactly one
keyword, its own, so commands that look the same count as often as they were registered. The
commands of a keyword are what stands at its places in the list of all commands, and its signatures
are what stands there in the list of all signatures, both in the order of registration. All keywords
together have all commands, each once, and so many. -/
theorem views_agree (registered : List Command) :
    let catalog := registered.foldl register .empty
    catalog.commands = registered ∧
    (∀ keyword words, [catalog.knows keyword = true, keyword ∈ catalog.keywords,
      catalog.overloads keyword ≠ [], catalog.usage keyword ≠ [],
      ¬ ∃ k, catalog.resolve (keyword :: words) = .error (.of (.commandNotFound k))].TFAE) ∧
    catalog.keywords.Nodup ∧
    (catalog.keywords.Pairwise fun k l => catalog.firstPlace k < catalog.firstPlace l) ∧
    (∀ i c, catalog.commands[i]? = some c → ∀ keyword,
      keyword ∈ catalog.keywords ∧ i ∈ catalog.places (fun d => d.keyword == keyword) ↔
        keyword = c.keyword) ∧
    (∀ keyword,
      let places := catalog.places fun c => c.keyword == keyword
      places.Pairwise (· < ·) ∧
      (catalog.overloads keyword).map some = places.map (fun i => catalog.commands[i]?) ∧
      (catalog.usage keyword).map some = places.map fun i => catalog.signatures[i]?) ∧
    (catalog.keywords.flatMap catalog.overloads).Perm catalog.commands ∧
    (catalog.keywords.map fun keyword => (catalog.overloads keyword).length).sum =
      catalog.size := by
  intro catalog
  refine ⟨commands_foldl_register registered .empty, knows_tfae catalog, nodup_keywords,
    pairwise_keywords, fun _ _ h _ => mem_keywords_and_places_iff h, ?_, flatMap_overloads_perm,
    sum_length_overloads⟩
  intro keyword places
  refine ⟨pairwise_places _, ?_, (catalog.map_places Command.signature _).symm⟩
  have hcommands := catalog.map_places id fun c => c.keyword == keyword
  rw [List.map_id, List.map_id] at hcommands
  exact hcommands.symm

/-- A twin and a command of another keyword between two of the same keyword. -/
example :
    let catalog : Catalog := [Command.silent "tp" [], .silent "give" [.scalar (.int "n")],
      .silent "tp" [.scalar (.str "place")], .silent "tp" []].foldl register .empty
    catalog.keywords = ["tp", "give"] ∧ catalog.places (fun c => c.keyword == "tp") = [0, 2, 3] ∧
      catalog.usage "tp" = ["tp", "tp <place: str>", "tp"] ∧
      catalog.signatures = ["tp", "give <n: int>", "tp <place: str>", "tp"] := by decide

end Catalog

end CommandShell
