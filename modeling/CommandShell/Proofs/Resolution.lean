import CommandShell.Proofs.Contest

/-!
# What becomes of a row of words

Each of the five things that can become of a row of words is traced back to the commands of its
keyword, each matched alone: no word, no command, no command that fits, one that goes before all
others that fit, or none such among several. The cases exclude each other and there is no sixth; the
fault of a parameter that is asked for words it does not accept never comes out of a contest.

Main results:

* `Invocation.elect_eq_ok_iff` and its companions: when the election has which result;
* `Catalog.suitable`: the commands that fit, of which the calls that fit are made;
* `Catalog.resolve_eq_ok_iff` and its companions: when some words have which result;
* `Catalog.resolve_iff_trials`: the result of a contest in terms of single trials.
-/

namespace CommandShell

/-! ## Elections -/

namespace Invocation

variable {keyword : String} {furthest : Nat} {calls : List Invocation}

/-- Two calls never go before each other: they are compared by the parameters of their commands
alone. -/
theorem asymmetric_beats : Ranking.Asymmetric beats := by
  intro a b h
  exact Ranking.asymmetric_outranks _ _ h

/-- A call that goes before all the others is what the election returns. -/
theorem elect_of_leader? {call : Invocation} (h : Ranking.leader? beats calls = some call) :
    elect keyword furthest calls = .ok call := by
  cases calls with
  | nil => simp [Ranking.leader?, Ranking.leaderAfter?] at h
  | cons a as => simp only [elect, h]

/-- If no call goes before all the others, the election names the calls that no other goes before.
-/
theorem elect_of_leader?_eq_none (hne : calls ≠ []) (h : Ranking.leader? beats calls = none) :
    elect keyword furthest calls =
      .error (.of (.ambiguousCommand keyword
        ((Ranking.contenders beats calls).map fun call => call.command.signature))) := by
  cases calls with
  | nil => exact absurd rfl hne
  | cons a as => simp only [elect, h]

/-- An election without a winner is one among at least two calls. -/
theorem two_le_length_of_leader?_eq_none (hne : calls ≠ [])
    (h : Ranking.leader? beats calls = none) : 2 ≤ calls.length := by
  -- a call that is alone leads
  match calls with
  | [] => exact absurd rfl hne
  | [a] => simp [Ranking.leader?, Ranking.leaderAfter?] at h
  | _ :: _ :: _ => simp

/-- An election returns a call exactly if it goes before every other call of the list. -/
theorem elect_eq_ok_iff {call : Invocation} :
    elect keyword furthest calls = .ok call ↔ Ranking.Leads beats calls call := by
  rw [← Ranking.leader?_eq_some_iff asymmetric_beats]
  constructor
  · intro h
    cases hlead : Ranking.leader? beats calls with
    | some winner =>
      rw [elect_of_leader? hlead] at h
      rw [Except.ok.inj h]
    | none =>
      -- without a leader there is a fault, for want of calls or for too many of them
      cases calls with
      | nil => simp [elect] at h
      | cons a as =>
        rw [elect_of_leader?_eq_none (List.cons_ne_nil _ _) hlead] at h
        simp at h
  · exact elect_of_leader?

/-- The fault of no viable command is the fault of an election without calls. -/
theorem elect_eq_noViableOverload_iff {k : String} {n : Nat} :
    elect keyword furthest calls = .error (.of (.noViableOverload k n)) ↔
      calls = [] ∧ keyword = k ∧ furthest = n := by
  cases calls with
  | nil => simp [elect, Fault.of]
  | cons a as =>
    simp only [elect]
    cases Ranking.leader? beats (a :: as) <;> simp [Fault.of]

/-- The fault of ambiguity is the fault of an election among two or more calls without a winner. -/
theorem elect_eq_ambiguousCommand_iff {k : String} {signatures : List String} :
    elect keyword furthest calls = .error (.of (.ambiguousCommand k signatures)) ↔
      2 ≤ calls.length ∧ (¬ ∃ call, Ranking.Leads beats calls call) ∧ keyword = k ∧
        (Ranking.contenders beats calls).map (fun call => call.command.signature) = signatures := by
  -- from here on by the winner that is computed, which the cases below can split on
  have hleads : (∃ call, Ranking.Leads beats calls call) ↔
      ∃ call, Ranking.leader? beats calls = some call := by
    simp only [Ranking.leader?_eq_some_iff asymmetric_beats]
  rw [hleads]
  cases calls with
  | nil => simp [elect, Fault.of]
  | cons a as =>
    cases hlead : Ranking.leader? beats (a :: as) with
    | some winner => simp [elect_of_leader? hlead]
    | none =>
      have htwo := two_le_length_of_leader?_eq_none (List.cons_ne_nil _ _) hlead
      rw [elect_of_leader?_eq_none (List.cons_ne_nil _ _) hlead]
      -- a fault says its keyword and its signatures, and so can be compared field by field
      constructor
      · intro h
        simp only [Fault.of, Except.error.injEq, Fault.mk.injEq, Cause.ambiguousCommand.injEq,
          and_true] at h
        exact ⟨htwo, by simp, h⟩
      · rintro ⟨-, -, rfl, rfl⟩
        rfl

/-- An election has two faults and no other. -/
theorem eq_of_elect_eq_error {fault : Fault} (h : elect keyword furthest calls = .error fault) :
    fault = .of (.noViableOverload keyword furthest) ∨
      ∃ signatures, fault = .of (.ambiguousCommand keyword signatures) := by
  cases calls with
  | nil => exact .inl (Except.error.inj h).symm
  | cons a as =>
    cases hlead : Ranking.leader? beats (a :: as) with
    | some winner =>
      rw [elect_of_leader? hlead] at h
      simp at h
    | none =>
      rw [elect_of_leader?_eq_none (List.cons_ne_nil _ _) hlead] at h
      exact .inr ⟨_, (Except.error.inj h).symm⟩

end Invocation

/-! ## Commands that fit -/

/-- Whether a command goes before another. -/
def Command.beats (c d : Command) : Bool := Ranking.outranks c.params d.params

theorem Command.beats_iff {c d : Command} :
    c.beats d = true ↔ Ranking.compareParams c.params d.params = .gt :=
  beq_iff_eq

namespace Catalog

variable {catalog : Catalog} {keyword : String} {tokens : List String}

/-- A keyword is unknown exactly if no command of the catalog has it. -/
theorem overloads_eq_nil_iff :
    catalog.overloads keyword = [] ↔ ∀ c ∈ catalog.commands, c.keyword ≠ keyword := by
  simp [overloads, List.filter_eq_nil_iff]

/-- The commands of a keyword that fit some words, in the order of registration. -/
def suitable (catalog : Catalog) (keyword : String) (tokens : List String) : List Command :=
  (catalog.overloads keyword).filter fun c => c.Fits tokens

/-- A command is suitable exactly if it has the keyword and fits the words. -/
theorem mem_suitable_iff {c : Command} :
    c ∈ catalog.suitable keyword tokens ↔ c ∈ catalog.overloads keyword ∧ c.Fits tokens := by
  rw [suitable, List.mem_filter, decide_eq_true_eq]

theorem overloads_ne_nil_of_mem_suitable {c : Command}
    (h : c ∈ catalog.suitable keyword tokens) : catalog.overloads keyword ≠ [] :=
  List.ne_nil_of_mem (mem_suitable_iff.mp h).1

theorem suitable_eq_nil_iff :
    catalog.suitable keyword tokens = [] ↔ ∀ c ∈ catalog.overloads keyword, ¬ c.Fits tokens := by
  simp only [suitable, List.filter_eq_nil_iff, decide_eq_true_eq]

/-- The calls that fit are the commands that fit, each with the values that its own trial has read.
-/
theorem fitting_eq_map :
    catalog.fitting keyword tokens =
      (catalog.suitable keyword tokens).map fun c => ⟨c, (c.trial tokens).values⟩ := by
  rw [fitting, suitable, ← List.filterMap_eq_map, ← List.filterMap_eq_filter,
    List.filterMap_filterMap]
  apply List.filterMap_congr
  intro c _
  -- command by command: a call is made of one that fits, and none of any other
  by_cases hc : c.Fits tokens <;> simp [Command.call?, Option.guard, hc]

theorem fitting_eq_nil_iff :
    catalog.fitting keyword tokens = [] ↔ catalog.suitable keyword tokens = [] := by
  rw [fitting_eq_map, List.map_eq_nil_iff]

/-- The calls that no other goes before are those of the commands that no other goes before. -/
theorem contenders_fitting :
    Ranking.contenders Invocation.beats (catalog.fitting keyword tokens) =
      (Ranking.contenders Command.beats (catalog.suitable keyword tokens)).map
        fun c => ⟨c, (c.trial tokens).values⟩ := by
  rw [fitting_eq_map]
  exact Ranking.contenders_map (fun _ _ => rfl) _

/-- A call leads those that fit exactly if its command leads the commands that fit and its values
are those of the trial of its command. -/
theorem leads_fitting_iff {call : Invocation} :
    Ranking.Leads Invocation.beats (catalog.fitting keyword tokens) call ↔
      Ranking.Leads Command.beats (catalog.suitable keyword tokens) call.command ∧
        call.args = (call.command.trial tokens).values := by
  have hmap : Ranking.Leads Invocation.beats ((catalog.suitable keyword tokens).map
      fun c => ⟨c, (c.trial tokens).values⟩) call ↔
        ∃ c, Ranking.Leads Command.beats (catalog.suitable keyword tokens) c ∧
          ⟨c, (c.trial tokens).values⟩ = call :=
    Ranking.leads_map_iff fun _ _ => rfl
  rw [fitting_eq_map, hmap]
  constructor
  · rintro ⟨c, hleads, rfl⟩
    exact ⟨hleads, rfl⟩
  · -- the command determines the call, for the values are those of its trial
    rintro ⟨hleads, hargs⟩
    refine ⟨call.command, hleads, ?_⟩
    rw [← hargs]

/-- Some call leads exactly if some command does: what a call has read does not matter. -/
theorem exists_leads_fitting_iff :
    (∃ call, Ranking.Leads Invocation.beats (catalog.fitting keyword tokens) call) ↔
      ∃ c, Ranking.Leads Command.beats (catalog.suitable keyword tokens) c := by
  simp only [leads_fitting_iff]
  constructor
  · rintro ⟨call, hleads, -⟩
    exact ⟨call.command, hleads⟩
  · rintro ⟨c, hleads⟩
    exact ⟨⟨c, (c.trial tokens).values⟩, hleads, rfl⟩

/-- What it means that a command is called: it fits the words, and it goes before every other
command of the keyword that fits them. -/
def Prevails (catalog : Catalog) (keyword : String) (tokens : List String) (c : Command) : Prop :=
  ∃ front back, catalog.overloads keyword = front ++ c :: back ∧ c.Fits tokens ∧
    ∀ d ∈ front ++ back, d.Fits tokens → Ranking.compareParams c.params d.params = .gt

/-- A command leads those that fit exactly if it prevails. The place in the list is kept, so that a
command that is registered twice does not prevail over itself. -/
theorem leads_suitable_iff {c : Command} :
    Ranking.Leads Command.beats (catalog.suitable keyword tokens) c ↔
      catalog.Prevails keyword tokens c := by
  rw [suitable, Ranking.leads_filter_iff]
  simp only [decide_eq_true_eq, Command.beats_iff]
  rfl

/-! ### The five results -/

/-- The steps that come before an election: there must be a word, and the first word a known
keyword. -/
theorem resolve_eq_iff {result : Except Fault Invocation} :
    catalog.resolve tokens = result ↔
      (tokens = [] ∧ result = .error (.of .emptyInput)) ∨
      ∃ keyword, tokens.head? = some keyword ∧
        ((catalog.overloads keyword = [] ∧ result = .error (.of (.commandNotFound keyword))) ∨
         (catalog.overloads keyword ≠ [] ∧
          Invocation.elect keyword (catalog.progress keyword tokens)
            (catalog.fitting keyword tokens) = result)) := by
  cases tokens with
  | nil =>
    rw [show catalog.resolve [] = .error (.of .emptyInput) from rfl, eq_comm]
    simp
  | cons keyword words =>
    rw [resolve_cons]
    by_cases hover : catalog.overloads keyword = []
    · rw [if_pos hover, eq_comm]
      simp [hover]
    · simp [hover]

/-- The fault of empty words comes of no other words than none. -/
theorem resolve_eq_emptyInput_iff :
    catalog.resolve tokens = .error (.of .emptyInput) ↔ tokens = [] := by
  rw [resolve_eq_iff]
  constructor
  · rintro (⟨hnil, -⟩ | ⟨k, -, ⟨-, h⟩ | ⟨-, h⟩⟩)
    · exact hnil
    · simp [Fault.of] at h
    · -- an election has other faults
      rcases Invocation.eq_of_elect_eq_error h with hfault | ⟨signatures, hfault⟩ <;>
        simp [Fault.of] at hfault
  · intro hnil
    exact .inl ⟨hnil, rfl⟩

/-- The fault of an unknown keyword names the first word, and comes exactly if no command has it. -/
theorem resolve_eq_commandNotFound_iff :
    catalog.resolve tokens = .error (.of (.commandNotFound keyword)) ↔
      tokens.head? = some keyword ∧ catalog.overloads keyword = [] := by
  rw [resolve_eq_iff]
  constructor
  · rintro (⟨-, h⟩ | ⟨k, hhead, ⟨hover, h⟩ | ⟨-, h⟩⟩)
    · simp [Fault.of] at h
    · obtain rfl : keyword = k := by simpa [Fault.of] using h
      exact ⟨hhead, hover⟩
    · -- an election has other faults
      rcases Invocation.eq_of_elect_eq_error h with hfault | ⟨signatures, hfault⟩ <;>
        simp [Fault.of] at hfault
  · rintro ⟨hhead, hover⟩
    exact .inr ⟨keyword, hhead, .inl ⟨hover, rfl⟩⟩

/-- The fault of no viable command comes exactly if the keyword is known and none of its commands
fits, and then counts the words that the contest has read at most. -/
theorem resolve_eq_noViableOverload_iff {consumed : Nat} :
    catalog.resolve tokens = .error (.of (.noViableOverload keyword consumed)) ↔
      tokens.head? = some keyword ∧ catalog.overloads keyword ≠ [] ∧
        catalog.suitable keyword tokens = [] ∧ catalog.progress keyword tokens = consumed := by
  rw [resolve_eq_iff]
  constructor
  · rintro (⟨-, h⟩ | ⟨k, hhead, ⟨-, h⟩ | ⟨hover, h⟩⟩)
    · simp [Fault.of] at h
    · simp [Fault.of] at h
    · obtain ⟨hfitting, rfl, hprogress⟩ := Invocation.elect_eq_noViableOverload_iff.mp h
      exact ⟨hhead, hover, fitting_eq_nil_iff.mp hfitting, hprogress⟩
  · rintro ⟨hhead, hover, hsuitable, hprogress⟩
    refine .inr ⟨keyword, hhead, .inr ⟨hover, ?_⟩⟩
    have hfitting := fitting_eq_nil_iff.mpr hsuitable
    exact Invocation.elect_eq_noViableOverload_iff.mpr ⟨hfitting, rfl, hprogress⟩

/-- Words have a call exactly if its command leads the commands of the first word that fit. -/
theorem resolve_eq_ok_iff {call : Invocation} :
    catalog.resolve tokens = .ok call ↔
      ∃ keyword, tokens.head? = some keyword ∧
        Ranking.Leads Command.beats (catalog.suitable keyword tokens) call.command ∧
        call.args = (call.command.trial tokens).values := by
  rw [resolve_eq_iff]
  constructor
  · rintro (⟨-, h⟩ | ⟨k, hhead, ⟨-, h⟩ | ⟨-, h⟩⟩)
    · simp at h
    · simp at h
    · exact ⟨k, hhead, leads_fitting_iff.mp (Invocation.elect_eq_ok_iff.mp h)⟩
  · rintro ⟨k, hhead, hleads⟩
    -- some command fits, and so some command has the keyword
    have hover : catalog.overloads k ≠ [] := overloads_ne_nil_of_mem_suitable hleads.1.mem
    refine .inr ⟨k, hhead, .inr ⟨hover, ?_⟩⟩
    exact Invocation.elect_eq_ok_iff.mpr (leads_fitting_iff.mpr hleads)

/-- Words are ambiguous exactly if two commands or more fit them and none of these leads. The fault
names those that no other goes before. -/
theorem resolve_eq_ambiguousCommand_iff {signatures : List String} :
    catalog.resolve tokens = .error (.of (.ambiguousCommand keyword signatures)) ↔
      tokens.head? = some keyword ∧ 2 ≤ (catalog.suitable keyword tokens).length ∧
        (¬ ∃ c, Ranking.Leads Command.beats (catalog.suitable keyword tokens) c) ∧
        (Ranking.contenders Command.beats (catalog.suitable keyword tokens)).map
          Command.signature = signatures := by
  -- the election is among calls, and their arguments do not matter
  have helect : ∀ k, Invocation.elect k (catalog.progress k tokens) (catalog.fitting k tokens) =
      .error (.of (.ambiguousCommand keyword signatures)) ↔
        2 ≤ (catalog.suitable k tokens).length ∧
        (¬ ∃ c, Ranking.Leads Command.beats (catalog.suitable k tokens) c) ∧ k = keyword ∧
        (Ranking.contenders Command.beats (catalog.suitable k tokens)).map
          Command.signature = signatures := by
    intro k
    rw [Invocation.elect_eq_ambiguousCommand_iff, exists_leads_fitting_iff, contenders_fitting,
      fitting_eq_map, List.length_map, List.map_map]
    rfl
  rw [resolve_eq_iff]
  constructor
  · rintro (⟨-, h⟩ | ⟨k, hhead, ⟨-, h⟩ | ⟨-, h⟩⟩)
    · simp [Fault.of] at h
    · simp [Fault.of] at h
    · obtain ⟨htwo, hnone, rfl, hsignatures⟩ := (helect k).mp h
      exact ⟨hhead, htwo, hnone, hsignatures⟩
  · rintro ⟨hhead, htwo, hnone, hsignatures⟩
    -- one of the two that fit shows that the keyword is known
    obtain ⟨c, hc⟩ := List.exists_mem_of_length_pos (Nat.lt_of_lt_of_le Nat.zero_lt_two htwo)
    have hover : catalog.overloads keyword ≠ [] := overloads_ne_nil_of_mem_suitable hc
    have hfault := (helect keyword).mpr ⟨htwo, hnone, rfl, hsignatures⟩
    exact .inr ⟨keyword, hhead, .inr ⟨hover, hfault⟩⟩

/-- Four faults can come of some words. The fault of a parameter is not among them. -/
theorem eq_of_resolve_eq_error {fault : Fault} (h : catalog.resolve tokens = .error fault) :
    fault = .of .emptyInput ∨ (∃ keyword, fault = .of (.commandNotFound keyword)) ∨
      (∃ keyword consumed, fault = .of (.noViableOverload keyword consumed)) ∨
      ∃ keyword signatures, fault = .of (.ambiguousCommand keyword signatures) := by
  -- an election has two of the four faults, and the other two come before it
  rcases resolve_eq_iff.mp h with ⟨-, hfault⟩ | ⟨k, -, ⟨-, hfault⟩ | ⟨-, helect⟩⟩
  · exact .inl (Except.error.inj hfault)
  · exact .inr (.inl ⟨k, Except.error.inj hfault⟩)
  · rcases Invocation.eq_of_elect_eq_error helect with hfault | ⟨signatures, hfault⟩
    · exact .inr (.inr (.inl ⟨k, _, hfault⟩))
    · exact .inr (.inr (.inr ⟨k, signatures, hfault⟩))

/-- **A contest decides as single trials do.** The result is the fault of empty words exactly if
there is no word; of an unknown keyword exactly if no command has the first word; of no viable
command exactly if commands have it and none fits; a call exactly of the command that fits and goes
before every other one that fits, with the values of its own trial; and the fault of ambiguity
exactly if at least two fit and none goes before all the others. There is no other result. -/
theorem resolve_iff_trials (catalog : Catalog) (tokens : List String) :
    (catalog.resolve tokens = .error (.of .emptyInput) ↔ tokens = []) ∧
    (∀ keyword, catalog.resolve tokens = .error (.of (.commandNotFound keyword)) ↔
      tokens.head? = some keyword ∧ ∀ c ∈ catalog.commands, c.keyword ≠ keyword) ∧
    (∀ keyword,
      (∃ consumed, catalog.resolve tokens = .error (.of (.noViableOverload keyword consumed))) ↔
        tokens.head? = some keyword ∧ catalog.overloads keyword ≠ [] ∧
          ∀ c ∈ catalog.overloads keyword, ¬ c.Fits tokens) ∧
    (∀ call, catalog.resolve tokens = .ok call ↔
      ∃ keyword, tokens.head? = some keyword ∧ catalog.Prevails keyword tokens call.command ∧
        call.args = (call.command.trial tokens).values) ∧
    (∀ keyword,
      (∃ signatures,
        catalog.resolve tokens = .error (.of (.ambiguousCommand keyword signatures))) ↔
        tokens.head? = some keyword ∧
          2 ≤ ((catalog.overloads keyword).filter fun c => c.Fits tokens).length ∧
          ¬ ∃ c, catalog.Prevails keyword tokens c) ∧
    (∀ fault, catalog.resolve tokens = .error fault →
      fault = .of .emptyInput ∨ (∃ keyword, fault = .of (.commandNotFound keyword)) ∨
      (∃ keyword consumed, fault = .of (.noViableOverload keyword consumed)) ∨
      ∃ keyword signatures, fault = .of (.ambiguousCommand keyword signatures)) := by
  -- the five results above, with the count and the signatures left open
  refine ⟨resolve_eq_emptyInput_iff, ?_, ?_, ?_, ?_, fun _ => eq_of_resolve_eq_error⟩
  · intro keyword
    rw [resolve_eq_commandNotFound_iff, overloads_eq_nil_iff]
  · intro keyword
    simp only [resolve_eq_noViableOverload_iff, suitable_eq_nil_iff, exists_and_left,
      exists_eq', and_true]
  · intro call
    simp only [resolve_eq_ok_iff, leads_suitable_iff]
  · intro keyword
    simp only [resolve_eq_ambiguousCommand_iff, leads_suitable_iff, exists_and_left,
      exists_eq', and_true]
    rfl

end Catalog

end CommandShell
