import CommandShell.Demo
import CommandShell.Proofs.RegistrationOrder
import Mathlib.Data.List.Lex

/-!
# Ambiguity among commands without arrays

Parameters of the same priority need not be alike: two switches with different words are not. But no
word is taken by both, so among scalars that take the same word, those of the same priority are
alike. Without arrays every parameter takes one word, and all commands that fit some words have as
many parameters as there are words after the keyword. Comparing two of them is then comparing their
rows of priorities in lexicographic order, which is total: only twins, commands with the same kinds
of parameters in the same order, can be ambiguous.

Main results:

* `Scalar.describe_eq_iff`: scalars that take the same word are alike if their priorities are equal;
* `Param.compareParams_eq_gt_iff`: rows of scalars that take the same words are compared by
  priorities;
* `Demo.not_ambiguous`: no words are ambiguous among the demo commands;
* `Catalog.ambiguous_iff_twins`: which words are ambiguous without arrays, and which command is
  called.
-/

namespace CommandShell

/-! ## One word -/

namespace Scalar

/-- A switch has a kind of its own. Any other priority than that of switches is enough to tell. -/
theorem describe_switch_ne (word : String) {s : Scalar} (hs : s.priority ≠ 3) :
    (switch word).describe ≠ s.describe := by
  -- the kind of a switch is longer than that of any other scalar
  have hshort : s.describe.length < 8 := by
    cases s with
    | switch _ => exact absurd rfl hs
    | int _ => show "int".length < 8; decide
    | float _ => show "float".length < 8; decide
    | str _ => show "str".length < 8; decide
  have hlong : (switch word).describe.length = 7 + word.length + 1 := by
    rw [describe, String.length_append, String.length_append]
    rfl
  intro heq
  rw [heq] at hlong
  omega

/-- Scalars that take the same word are alike exactly if their priorities are equal. The word is
needed: switches of different words are of one priority and of two kinds. -/
theorem describe_eq_iff {s t : Scalar} {w : String} (hs : s.accepts w = true)
    (ht : t.accepts w = true) : s.describe = t.describe ↔ s.priority = t.priority := by
  cases s with
  | switch u =>
    cases t with
    | switch v =>
      -- both take the word, so both are the switch of this word
      obtain rfl : w = u := eq_of_beq hs
      obtain rfl : w = v := eq_of_beq ht
      simp
    | _ => exact iff_of_false (describe_switch_ne u (by simp [priority])) (by simp [priority])
  | _ =>
    cases t with
    | switch v =>
      exact iff_of_false (describe_switch_ne v (by simp [priority])).symm (by simp [priority])
    -- two scalars that are no switches: the nine cases compute
    | _ => simp [describe, priority]

end Scalar

/-! ## Rows of words -/

namespace Param

/-- A scalar that takes a word. -/
def Takes (p : Param) (w : String) : Prop := ∃ s, p = .scalar s ∧ s.accepts w = true

/-- Parameters that take the same word have the same description exactly if they have the same
priority. -/
theorem Takes.describe_eq_iff {p q : Param} {w : String} (hp : p.Takes w) (hq : q.Takes w) :
    p.describe = q.describe ↔ p.priority = q.priority := by
  obtain ⟨s, rfl, hs⟩ := hp
  obtain ⟨t, rfl, ht⟩ := hq
  exact Scalar.describe_eq_iff hs ht

variable {ps qs : List Param} {ws : List String}

/-- Rows of scalars that take the same words are alike exactly if their priorities are equal. -/
theorem map_describe_eq_iff (hps : List.Forall₂ Takes ps ws) (hqs : List.Forall₂ Takes qs ws) :
    ps.map describe = qs.map describe ↔ ps.map priority = qs.map priority := by
  -- along the words, which both rows take one by one
  induction hps generalizing qs with
  | nil =>
    cases hqs
    simp
  | cons hp _ ih =>
    cases hqs with
    | cons hq hqs =>
      rw [List.map_cons, List.map_cons, List.map_cons, List.map_cons, List.cons.injEq,
        List.cons.injEq, hp.describe_eq_iff hq, ih hqs]

/-- **Rows of scalars that take the same words are compared in lexicographic order.** -/
theorem compareParams_eq_gt_iff (hps : List.Forall₂ Takes ps ws) (hqs : List.Forall₂ Takes qs ws) :
    Ranking.compareParams ps qs = .gt ↔ qs.map priority < ps.map priority := by
  -- both rows take the same words, so the induction is on these, one parameter of each at a time
  induction hps generalizing qs with
  | nil =>
    cases hqs
    simp [Ranking.compareParams]
  | @cons p w ps ws hp _ ih =>
    cases hqs with
    | @cons q _ qs _ hq hqs =>
      rw [Ranking.compareParams_cons, List.map_cons, List.map_cons, List.cons_lt_cons_iff]
      by_cases halike : p.alike q = true
      · have heq : p.priority = q.priority := (hp.describe_eq_iff hq).mp (eq_of_beq halike)
        rw [if_pos halike, ih hqs, heq]
        simp
      · -- unlike parameters that take the word have different priorities
        have hne : ¬ q.priority = p.priority := by
          intro heq
          exact halike (beq_iff_eq.mpr ((hp.describe_eq_iff hq).mpr heq.symm))
        rw [if_neg halike, Nat.compare_eq_gt]
        simp [hne]

end Param

namespace Command

variable {c d : Command} {tokens : List String}

/-- No parameter is an array. -/
def ArrayFree (c : Command) : Prop := ∀ p ∈ c.params, ∀ endWord element, p ≠ .array endWord element

/-- The kinds of the parameters in order. -/
def kinds (c : Command) : List String := c.params.map Param.describe

/-- The priorities of the parameters in order. -/
def priorities (c : Command) : List Nat := c.params.map Param.priority

/-- A row of scalars that derives some words takes them one by one. -/
theorem takes_of_derives {ps : List Param} {ts : List Phrase} {ws : List String}
    (hfree : ∀ p ∈ ps, ∀ endWord element, p ≠ .array endWord element)
    (hrow : Param.DeriveRow ps ts ws) : List.Forall₂ Param.Takes ps ws := by
  obtain ⟨hts, rfl⟩ := hrow
  -- along the phrases: without arrays, each is a single word
  induction hts with
  | nil => exact .nil
  | cons ht _ ih =>
    obtain ⟨hp, hps⟩ := List.forall_mem_cons.mp hfree
    cases ht with
    | word hs => exact .cons ⟨_, rfl, hs⟩ (ih hps)
    | items => exact absurd rfl (hp _ _)

/-- Without arrays every parameter takes one of the words after the keyword. -/
theorem ArrayFree.takes (hfree : c.ArrayFree) (hfits : c.Fits tokens) :
    List.Forall₂ Param.Takes c.params tokens.tail := by
  cases tokens with
  | nil => exact absurd hfits not_fits_nil
  | cons keyword words =>
    obtain ⟨ts, hrow⟩ := fits_cons_iff.mp hfits
    exact takes_of_derives hfree hrow

/-- Commands without arrays that fit the same words are twins exactly if their priorities are equal.
-/
theorem ArrayFree.kinds_eq_iff (hc : c.ArrayFree) (hd : d.ArrayFree) (hcfits : c.Fits tokens)
    (hdfits : d.Fits tokens) : c.kinds = d.kinds ↔ c.priorities = d.priorities :=
  Param.map_describe_eq_iff (hc.takes hcfits) (hd.takes hdfits)

/-- Commands without arrays that fit the same words are compared by their rows of priorities. -/
theorem ArrayFree.beats_iff (hc : c.ArrayFree) (hd : d.ArrayFree) (hcfits : c.Fits tokens)
    (hdfits : d.Fits tokens) : c.beats d = true ↔ d.priorities < c.priorities :=
  Command.beats_iff.trans (Param.compareParams_eq_gt_iff (hc.takes hcfits) (hd.takes hdfits))

end Command

/-! ## Commands that fit -/

namespace Catalog

variable {catalog : Catalog} {keyword : String} {tokens signatures : List String}

section ArrayFree

variable (hfree : ∀ c ∈ catalog.overloads keyword, c.ArrayFree)
include hfree

/-- The rows of priorities are keys for the commands that fit. -/
theorem byKey_suitable :
    Ranking.ByKey Command.beats Command.priorities (catalog.suitable keyword tokens) := by
  intro c hc d hd
  obtain ⟨hcmem, hcfits⟩ := mem_suitable_iff.mp hc
  obtain ⟨hdmem, hdfits⟩ := mem_suitable_iff.mp hd
  exact (hfree c hcmem).beats_iff (hfree d hdmem) hcfits hdfits

/-- Commands that fit are twins exactly if they have the same key. -/
theorem kinds_eq_iff_of_suitable {c d : Command} (hc : c ∈ catalog.suitable keyword tokens)
    (hd : d ∈ catalog.suitable keyword tokens) :
    c.kinds = d.kinds ↔ c.priorities = d.priorities := by
  obtain ⟨hcmem, hcfits⟩ := mem_suitable_iff.mp hc
  obtain ⟨hdmem, hdfits⟩ := mem_suitable_iff.mp hd
  exact (hfree c hcmem).kinds_eq_iff (hfree d hdmem) hcfits hdfits

/-- To go before a command that fits is to have the greater key. -/
theorem not_gt_iff_of_suitable {c d : Command} (hc : c ∈ catalog.suitable keyword tokens)
    (hd : d ∈ catalog.suitable keyword tokens) :
    Ranking.compareParams c.params d.params ≠ .gt ↔ c.priorities ≤ d.priorities := by
  rw [← not_lt, ← byKey_suitable hfree c hc d hd, Command.beats_iff]

/-- The commands that an ambiguity names are the twins of one with the greatest key. -/
theorem contenders_suitable {c : Command} (hc : c ∈ catalog.suitable keyword tokens)
    (hmax : ∀ e ∈ catalog.suitable keyword tokens, e.priorities ≤ c.priorities) :
    Ranking.contenders Command.beats (catalog.suitable keyword tokens) =
      (catalog.suitable keyword tokens).filter fun e => e.kinds = c.kinds := by
  rw [Ranking.contenders_of_byKey (byKey_suitable hfree) hc hmax]
  apply List.filter_congr
  intro e he
  rw [decide_eq_decide, kinds_eq_iff_of_suitable hfree he hc]

/-- Without arrays, words are ambiguous exactly if two twins fit that no command goes before. -/
theorem ambiguous_iff_of_arrayFree :
    catalog.resolve tokens = .error (.of (.ambiguousCommand keyword signatures)) ↔
      tokens.head? = some keyword ∧
      ∃ c d, [c, d].Sublist (catalog.suitable keyword tokens) ∧ c.kinds = d.kinds ∧
        (∀ e ∈ catalog.suitable keyword tokens,
          Ranking.compareParams e.params c.params ≠ .gt ∧
          Ranking.compareParams e.params d.params ≠ .gt) ∧
        signatures = ((catalog.suitable keyword tokens).filter
          fun e => e.kinds = c.kinds).map Command.signature := by
  rw [resolve_eq_ambiguousCommand_iff]
  refine and_congr_right fun _ => ?_
  constructor
  · rintro ⟨htwo, hnone, rfl⟩
    have hne : catalog.suitable keyword tokens ≠ [] := List.ne_nil_of_length_pos (by omega)
    -- nobody leads, so the greatest row of priorities belongs to two commands
    obtain ⟨c, d, hpair, heq, hmax⟩ :=
      (Ranking.not_leads_iff_of_byKey (byKey_suitable hfree) hne).mp hnone
    have hc := hpair.subset List.mem_cons_self
    have hd := hpair.subset (List.mem_cons_of_mem c List.mem_cons_self)
    refine ⟨c, d, hpair, (kinds_eq_iff_of_suitable hfree hc hd).mpr heq, ?_, ?_⟩
    · intro e he
      exact ⟨(not_gt_iff_of_suitable hfree he hc).mpr (hmax e he),
        (not_gt_iff_of_suitable hfree he hd).mpr (heq ▸ hmax e he)⟩
    · rw [contenders_suitable hfree hc hmax]
  · rintro ⟨c, d, hpair, hkinds, hunbeaten, rfl⟩
    have hc := hpair.subset List.mem_cons_self
    have hd := hpair.subset (List.mem_cons_of_mem c List.mem_cons_self)
    -- that none goes before the twins says that they have the greatest key
    have hmax : ∀ e ∈ catalog.suitable keyword tokens, e.priorities ≤ c.priorities :=
      fun e he => (not_gt_iff_of_suitable hfree he hc).mp (hunbeaten e he).1
    refine ⟨hpair.length_le, ?_, ?_⟩
    · rw [Ranking.not_leads_iff_of_byKey (byKey_suitable hfree) (List.ne_nil_of_mem hc)]
      exact ⟨c, d, hpair, (kinds_eq_iff_of_suitable hfree hc hd).mp hkinds, hmax⟩
    · rw [contenders_suitable hfree hc hmax]

end ArrayFree

/-! ### Commands without twins -/

/-- Where a keyword has no twins, there are none among its commands that fit. -/
theorem kinds_ne_of_pairwise (h : (catalog.overloads keyword).Pairwise fun c d => c.kinds ≠ d.kinds)
    {c d : Command} (hpair : [c, d].Sublist (catalog.suitable keyword tokens)) :
    c.kinds ≠ d.kinds := by
  have hsub : [c, d].Sublist (catalog.overloads keyword) := hpair.trans List.filter_sublist
  exact (List.pairwise_cons.mp (h.sublist hsub)).1 d List.mem_cons_self

theorem not_ambiguous_of_pairwise (hfree : ∀ c ∈ catalog.overloads keyword, c.ArrayFree)
    (hpairwise : (catalog.overloads keyword).Pairwise fun c d => c.kinds ≠ d.kinds) :
    catalog.resolve tokens ≠ .error (.of (.ambiguousCommand keyword signatures)) := by
  rw [Ne, ambiguous_iff_of_arrayFree hfree]
  rintro ⟨-, c, d, hpair, hkinds, -⟩
  exact kinds_ne_of_pairwise hpairwise hpair hkinds

/-- Where a keyword has no twins, words that some command fits have a call. -/
theorem exists_ok_of_pairwise (hfree : ∀ c ∈ catalog.overloads keyword, c.ArrayFree)
    (hpairwise : (catalog.overloads keyword).Pairwise fun c d => c.kinds ≠ d.kinds)
    (hhead : tokens.head? = some keyword) (hne : catalog.suitable keyword tokens ≠ []) :
    ∃ call, catalog.resolve tokens = .ok call := by
  have hleads : ∃ c, Ranking.Leads Command.beats (catalog.suitable keyword tokens) c := by
    -- otherwise two commands share the greatest row of priorities, and they are twins
    by_contra hnone
    obtain ⟨c, d, hpair, heq, -⟩ :=
      (Ranking.not_leads_iff_of_byKey (byKey_suitable hfree) hne).mp hnone
    have hc := hpair.subset List.mem_cons_self
    have hd := hpair.subset (List.mem_cons_of_mem c List.mem_cons_self)
    have hkinds := (kinds_eq_iff_of_suitable hfree hc hd).mpr heq
    exact kinds_ne_of_pairwise hpairwise hpair hkinds
  obtain ⟨c, hc⟩ := hleads
  exact ⟨⟨c, (c.trial tokens).values⟩, resolve_eq_ok_iff.mpr ⟨keyword, hhead, hc, rfl⟩⟩

/-- A keyword with a single command is not ambiguous, whatever its parameters are. -/
theorem not_ambiguous_of_length_le_one (h : (catalog.overloads keyword).length ≤ 1) :
    catalog.resolve tokens ≠ .error (.of (.ambiguousCommand keyword signatures)) := by
  rw [Ne, resolve_eq_ambiguousCommand_iff]
  rintro ⟨-, htwo, -⟩
  have hle : (catalog.suitable keyword tokens).length ≤ (catalog.overloads keyword).length :=
    List.length_filter_le _ _
  omega

end Catalog

/-! ## The demo commands -/

namespace Demo

/-- The demo commands are registered behind those that were known before. -/
theorem commands_register (s : Session) :
    (register s).catalog.commands = s.catalog.commands ++ entries.map Entry.command := by
  unfold register
  induction entries generalizing s with
  | nil => simp
  | cons e es ih =>
    rw [List.foldl_cons, ih, Session.catalog_register, Catalog.commands_register, List.map_cons,
      List.append_assoc]
    rfl

/-- The demo commands of a keyword, in the order of the table. -/
theorem overloads_register (keyword : String) :
    (register (.start .empty)).catalog.overloads keyword =
      (entries.filter fun e => e.keyword == keyword).map Entry.command := by
  rw [Catalog.overloads, commands_register]
  exact List.filter_map

/-- Only one of the demo commands has an array. -/
theorem arrayFree_of_ne_sum : ∀ e ∈ entries, e.keyword ≠ "sum" → e.command.ArrayFree := by
  simp [entries, Command.ArrayFree, Entry.command, int, str, switch]

/-- No two demo commands of the same keyword are twins. -/
theorem pairwise_kinds_ne : entries.Pairwise fun d e =>
    d.keyword = e.keyword → d.command.kinds ≠ e.command.kinds := by
  decide

/-- Whatever is typed, the demo commands are never ambiguous. -/
theorem not_ambiguous (tokens : List String) (keyword : String) (signatures : List String) :
    (register (.start .empty)).catalog.resolve tokens ≠
      .error (.of (.ambiguousCommand keyword signatures)) := by
  by_cases hsum : keyword = "sum"
  · -- the only array is the parameter of a command that is alone
    apply Catalog.not_ambiguous_of_length_le_one
    rw [overloads_register, List.length_map, hsum]
    decide
  · have hfree : ∀ c ∈ (register (.start .empty)).catalog.overloads keyword, c.ArrayFree := by
      intro c hc
      rw [overloads_register, List.mem_map] at hc
      obtain ⟨e, he, rfl⟩ := hc
      obtain ⟨hmem, hkeyword⟩ := List.mem_filter.mp he
      exact arrayFree_of_ne_sum e hmem (eq_of_beq hkeyword ▸ hsum)
    have hpairwise : ((register (.start .empty)).catalog.overloads keyword).Pairwise
        fun c d => c.kinds ≠ d.kinds := by
      rw [overloads_register, List.pairwise_map]
      -- twins are excluded for entries of the same keyword, which is what is left here
      refine (pairwise_kinds_ne.filter _).imp_of_mem ?_
      intro d e hd he hne
      have hdk := eq_of_beq (List.mem_filter.mp hd).2
      have hek := eq_of_beq (List.mem_filter.mp he).2
      exact hne (hdk.trans hek.symm)
    exact Catalog.not_ambiguous_of_pairwise hfree hpairwise

end Demo

namespace Catalog

/-- **Without arrays only twins are ambiguous.** If no command of the keyword has an array, the
words are ambiguous exactly if two commands of the same kinds fit them and no command that fits goes
before these, and the fault lists the commands that fit and have these kinds. The command that is
called is the one whose row of priorities is greater than that of any other command that fits; if no
two commands of the keyword have the same kinds, one of those that fit is called whenever there is
any. No words are ambiguous among the demo commands. -/
theorem ambiguous_iff_twins (catalog : Catalog) (tokens : List String)
    (hfree : ∀ keyword, tokens.head? = some keyword →
      ∀ c ∈ catalog.overloads keyword, c.ArrayFree) :
    (∀ keyword signatures,
      catalog.resolve tokens = .error (.of (.ambiguousCommand keyword signatures)) ↔
        tokens.head? = some keyword ∧
        ∃ c d, [c, d].Sublist (catalog.suitable keyword tokens) ∧ c.kinds = d.kinds ∧
          (∀ e ∈ catalog.suitable keyword tokens,
            Ranking.compareParams e.params c.params ≠ .gt ∧
            Ranking.compareParams e.params d.params ≠ .gt) ∧
          signatures = ((catalog.suitable keyword tokens).filter
            fun e => e.kinds = c.kinds).map Command.signature) ∧
    (∀ call, catalog.resolve tokens = .ok call ↔
      ∃ keyword, tokens.head? = some keyword ∧
        (∃ front back, catalog.suitable keyword tokens = front ++ call.command :: back ∧
          ∀ e ∈ front ++ back, e.priorities < call.command.priorities) ∧
        call.args = (call.command.trial tokens).values) ∧
    (∀ keyword, tokens.head? = some keyword →
      ((catalog.overloads keyword).Pairwise fun c d => c.kinds ≠ d.kinds) →
        (∀ k signatures,
          catalog.resolve tokens ≠ .error (.of (.ambiguousCommand k signatures))) ∧
        (catalog.suitable keyword tokens ≠ [] → ∃ call, catalog.resolve tokens = .ok call)) ∧
    (∀ words keyword signatures,
      (Demo.register (.start .empty)).catalog.resolve words ≠
        .error (.of (.ambiguousCommand keyword signatures))) := by
  refine ⟨?_, ?_, ?_, Demo.not_ambiguous⟩
  · intro keyword signatures
    by_cases hhead : tokens.head? = some keyword
    · exact ambiguous_iff_of_arrayFree (hfree keyword hhead)
    · -- only the first word can be ambiguous
      rw [resolve_eq_ambiguousCommand_iff]
      simp only [hhead, false_and]
  · intro call
    rw [resolve_eq_ok_iff]
    refine exists_congr fun keyword => and_congr_right fun hhead => ?_
    rw [Ranking.leads_iff_of_byKey (byKey_suitable (hfree keyword hhead))]
  · intro keyword hhead hpairwise
    refine ⟨?_, exists_ok_of_pairwise (hfree keyword hhead) hpairwise hhead⟩
    -- an ambiguity is one of the first word
    intro k signatures h
    obtain rfl : keyword = k :=
      Option.some.inj (hhead.symm.trans (resolve_eq_ambiguousCommand_iff.mp h).1)
    exact not_ambiguous_of_pairwise (hfree keyword hhead) hpairwise h

/-- A text that also fits does not keep twins from being ambiguous. -/
theorem ambiguous_iff_twins_number :
    (∀ keyword, ["m", "3"].head? = some keyword →
      ∀ c ∈ twins.overloads keyword, c.ArrayFree) ∧
    twins.resolve ["m", "3"] =
      .error (.of (.ambiguousCommand "m" ["m <a: int>", "m <b: int>"])) := by
  have hfree : ∀ keyword, ["m", "3"].head? = some keyword →
      ∀ c ∈ twins.overloads keyword, c.ArrayFree := by
    intro keyword _ c hc
    have hmem := (List.mem_filter.mp hc).1
    simp only [twins, List.mem_cons, List.not_mem_nil, or_false] at hmem
    rcases hmem with rfl | rfl | rfl <;> simp [Command.ArrayFree, Command.silent]
  have hsuitable : twins.suitable "m" ["m", "3"] = twins.commands := rfl
  refine ⟨hfree, ((ambiguous_iff_twins twins ["m", "3"] hfree).1 "m" _).mpr ?_⟩
  rw [hsuitable]
  refine ⟨rfl, .silent "m" [.scalar (.int "a")], .silent "m" [.scalar (.int "b")], ?_, rfl, ?_, ?_⟩
  · exact ((List.Sublist.refl _).cons _).cons_cons _
  · intro e he
    simp only [twins, List.mem_cons, List.not_mem_nil, or_false] at he
    rcases he with rfl | rfl | rfl <;> decide
  · decide

end Catalog

end CommandShell
