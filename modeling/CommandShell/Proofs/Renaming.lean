import CommandShell.Proofs.Ambiguity
import CommandShell.Proofs.Kinds
import CommandShell.Proofs.Views

/-!
# Names have no say

The names of parameters are for people. They are shown in signatures and in faults, and they stand
inside the parameters that the shell reads with, compares and ranks, so nothing but the definitions
keeps them from having a say. Here two catalogs are compared that differ in names only: the same
commands are registered in the same order, each with the same keyword, and the parameters at the
same places are built alike, with the same end words and the same words of switches. Both give the
same words to the same commands, or refuse them with the same fault.

End words and the words of switches are no names. They are words that a line has to have, and a
parameter with another one takes other words.

What is shown of a command does depend on its names, so a command and its namesake cannot be told by
their signatures. They are told by their place in the order of registration.

Main definitions:

* `Param.Renames`: parameters that differ at most in names;
* `Catalog.Renames`: catalogs whose commands do;
* `Catalog.LeadsAt`: what it means that the command at a place is called;
* `Catalog.foremostPlaces`: where the commands stand that an ambiguity names.

Main results:

* `Param.Renames.reach?_eq`, `Param.Renames.toOption_read_eq`: names have no say in what a parameter
  takes and in what its argument becomes;
* `Command.Renames.trial_eq`: nor in how far a command comes;
* `Catalog.LeadsAt.exists_of_renames`, `Catalog.Renames.foremostPlaces_eq`: nor in the place of the
  command that is called, and in the places of those that are named;
* `Catalog.resolve_of_renames`: nor in what becomes of any words.
-/

namespace CommandShell

/-! ## Parameters -/

namespace Param

/-- Two parameters differ at most in the names of integers, floats and texts, at any depth. -/
inductive Renames : Param → Param → Prop where
  | int (name name' : String) : Renames (.scalar (.int name)) (.scalar (.int name'))
  | float (name name' : String) : Renames (.scalar (.float name)) (.scalar (.float name'))
  | str (name name' : String) : Renames (.scalar (.str name)) (.scalar (.str name'))
  | switch (word : String) : Renames (.scalar (.switch word)) (.scalar (.switch word))
  | array (endWord : String) {element element' : Param} (elements : Renames element element') :
      Renames (.array endWord element) (.array endWord element')

variable {p q : Param}

/-- To differ in names is the same from both sides. -/
theorem Renames.symm (h : p.Renames q) : q.Renames p := by
  induction h with
  | int name name' => exact .int name' name
  | float name name' => exact .float name' name
  | str name name' => exact .str name' name
  | switch word => exact .switch word
  | array endWord _ ih => exact .array endWord ih

/-- Parameters that differ in names are of the same kind. -/
theorem Renames.sameKind (h : p.Renames q) : p.SameKind q := by
  induction h with
  | int name name' => exact .int name name'
  | float name name' => exact .float name name'
  | str name name' => exact .str name name'
  | switch word => exact .switch word
  | array endWord _ ih => exact .array endWord endWord ih

theorem Renames.alike (h : p.Renames q) : p.alike q = true := alike_iff.mpr h.sameKind.shape_eq

/-! ### Reading -/

/-- Parameters that differ in names take the same words. -/
theorem Renames.reach?_eq (h : p.Renames q) : p.reach? = q.reach? := by
  induction h with
  | int | float | str | switch => rfl
  | array endWord _ ih =>
    funext c
    rw [reach?, reach?, ih]

theorem Renames.accepts_eq (h : p.Renames q) (tokens : List String) (position : Nat) :
    p.accepts tokens position = q.accepts tokens position := by
  rw [accepts, accepts, h.reach?_eq]

/-- Where the faults do not matter, both fail or both have the same result. -/
theorem cases_of_toOption_eq {ε α : Type} {x y : Except ε α} (h : x.toOption = y.toOption) :
    (∃ a, x = .ok a ∧ y = .ok a) ∨ ∃ e e', x = .error e ∧ y = .error e' := by
  cases x with
  | ok a =>
    cases y with
    | ok b => exact .inl ⟨a, rfl, by rw [Option.some.inj h]⟩
    | error e' => simp [Except.toOption] at h
  | error e =>
    cases y with
    | ok b => simp [Except.toOption] at h
    | error e' => exact .inr ⟨e, e', rfl, rfl⟩

/-- Items are read alike by elements that read alike. Only the faults may differ. -/
theorem toOption_readItems_eq {fault fault' : Fault} {endWord : String} {accepts : Cursor → Bool}
    {element element' : Cursor → Except Fault (Value × Cursor)}
    (h : ∀ c, (element c).toOption = (element' c).toOption) (room : Nat) (items : List Value)
    (c : Cursor) :
    (readItems fault endWord accepts element room items c).toOption =
      (readItems fault' endWord accepts element' room items c).toOption := by
  -- item by item; the faults of the two arrays are different ones, so they are left out of account
  induction room generalizing items c with
  | zero => rfl
  | succ room ih =>
    obtain ⟨position, rest⟩ := c
    cases rest with
    | nil =>
      rw [readItems_nil, readItems_nil]
      rfl
    | cons w rest =>
      rw [readItems_cons, readItems_cons]
      by_cases hw : w = endWord
      · rw [if_pos hw, if_pos hw]
      rw [if_neg hw, if_neg hw]
      by_cases haccepts : accepts ⟨position, w :: rest⟩ = true
      · rw [if_pos haccepts, if_pos haccepts]
        rcases cases_of_toOption_eq (h ⟨position, w :: rest⟩) with
          ⟨⟨item, after⟩, hread, hread'⟩ | ⟨inner, inner', hread, hread'⟩
        · -- both have read the same item, and go on at the same place
          rw [hread, hread']
          exact ih (items ++ [item]) after
        · rw [hread, hread']
          rfl
      · rw [if_neg haccepts, if_neg haccepts]
        rfl

/-- What a scalar makes of the word at hand, its fault aside. -/
theorem toOption_read_scalar (s : Scalar) (c : Cursor) :
    (read (.scalar s) c).toOption =
      c.next?.bind fun r => (s.convert? r.1).map fun v => (v, r.2) := by
  rw [read]
  cases c.next? with
  | none => rfl
  | some r =>
    dsimp only [Option.bind_some]
    cases s.convert? r.1 <;> rfl

/-- What an array makes of its items, its fault aside. -/
theorem toOption_read_array (endWord : String) (element : Param) (c : Cursor) :
    (read (.array endWord element) c).toOption =
      (readItems (violation (.array endWord element) c.position) endWord
        (fun c => (element.reach? c).isSome) element.read c.rest.length [] c).toOption.map
          fun r => (.list r.1, r.2) := by
  rw [read]
  split <;> next h => rw [h]; rfl

/-- **Parameters that differ in names make the same values of their arguments**, and stop at the
same place. -/
theorem Renames.toOption_read_eq (h : p.Renames q) (c : Cursor) :
    (p.read c).toOption = (q.read c).toOption := by
  -- along the parameters: names stand in the faults only
  induction h generalizing c with
  | int name name' | float name name' | str name name' =>
    rw [toOption_read_scalar, toOption_read_scalar]
    rfl
  | switch word => rfl
  | array endWord elements ih =>
    rw [toOption_read_array, toOption_read_array, elements.reach?_eq,
      toOption_readItems_eq ih c.rest.length [] c]

/-- Reading at a position, its fault aside, is reading from the place there. -/
theorem toOption_readAt (p : Param) (tokens : List String) (position : Nat) :
    (p.readAt tokens position).toOption =
      (p.read (.ofTokens tokens position)).toOption.map fun r => (r.1, r.2.position) := by
  rw [readAt]
  split <;> next h => rw [h]; rfl

theorem Renames.toOption_readAt_eq (h : p.Renames q) (tokens : List String) (position : Nat) :
    (p.readAt tokens position).toOption = (q.readAt tokens position).toOption := by
  rw [toOption_readAt, toOption_readAt, h.toOption_read_eq]

end Param

/-! ## Commands -/

/-- Rows of parameters that differ in names come equally far, with the same values. -/
theorem Trial.run_eq_of_renames {ps qs : List Param} (h : List.Forall₂ Param.Renames ps qs)
    (tokens : List String) (position : Nat) :
    Trial.run tokens ps position = Trial.run tokens qs position := by
  -- along both rows, which come to the same position at each parameter
  induction h generalizing position with
  | nil => rfl
  | @cons p q ps qs hpq _ ih =>
    have haccepts := hpq.accepts_eq tokens position
    cases hp : p.accepts tokens position with
    | false =>
      rw [hp] at haccepts
      rw [run_cons_of_not_accepts ps hp, run_cons_of_not_accepts qs haccepts.symm]
    | true =>
      -- both read the same value here and go on at the same place
      obtain ⟨v, next, hread⟩ := Param.accepts_iff_readAt.mp hp
      have hread' : q.readAt tokens position = .ok (v, next) := by
        rcases Param.cases_of_toOption_eq (hpq.toOption_readAt_eq tokens position) with
          ⟨r, hp', hq⟩ | ⟨e, e', hp', -⟩
        · rw [hq, ← hp', hread]
        · simp [hread] at hp'
      rw [run_cons_of_readAt ps hread, run_cons_of_readAt qs hread', ih next]

namespace Command

/-- Commands with the same keyword whose parameters differ at most in names. -/
structure Renames (c d : Command) : Prop where
  keyword_eq : c.keyword = d.keyword
  params : List.Forall₂ Param.Renames c.params d.params

variable {c c' d d' : Command}

theorem Renames.symm (h : c.Renames d) : d.Renames c :=
  ⟨h.keyword_eq.symm, (h.params.imp fun _ _ hpq => hpq.symm).flip⟩

/-- **Names have no say in how far a command comes**, and with which values. -/
theorem Renames.trial_eq (h : c.Renames d) (tokens : List String) :
    c.trial tokens = d.trial tokens :=
  Trial.run_eq_of_renames h.params tokens 1

/-- Commands that differ in names fit the same words. -/
theorem Renames.fits_iff (h : c.Renames d) (tokens : List String) :
    c.Fits tokens ↔ d.Fits tokens := by
  have harity : c.arity = d.arity := h.params.length_eq
  rw [Fits, Fits, h.trial_eq, harity]

/-- Names have no say in how commands compare. -/
theorem Renames.compareParams_eq (hc : c.Renames c') (hd : d.Renames d') :
    Ranking.compareParams c.params d.params = Ranking.compareParams c'.params d'.params := by
  have halike : Ranking.Alike c.params c'.params := hc.params.imp fun _ _ hpq => hpq.alike
  have halike' : Ranking.Alike d.params d'.params := hd.params.imp fun _ _ hpq => hpq.alike
  exact (Ranking.compareParams_congr halike halike').symm

end Command

/-! ## Catalogs -/

namespace Catalog

/-- The same registrations in the same order, up to the names of parameters. -/
def Renames (catalog catalog' : Catalog) : Prop :=
  List.Forall₂ Command.Renames catalog.commands catalog'.commands

variable {catalog catalog' : Catalog} {keyword : String} {tokens : List String}

theorem Renames.symm (h : catalog.Renames catalog') : catalog'.Renames catalog :=
  (h.imp fun _ _ hcd => hcd.symm).flip

theorem Renames.overloads (h : catalog.Renames catalog') (keyword : String) :
    List.Forall₂ Command.Renames (catalog.overloads keyword) (catalog'.overloads keyword) := by
  refine List.rel_filter ?_ h
  intro c d hcd
  simp only [hcd.keyword_eq]

theorem Renames.suitable (h : catalog.Renames catalog') (keyword : String) (tokens : List String) :
    List.Forall₂ Command.Renames (catalog.suitable keyword tokens)
      (catalog'.suitable keyword tokens) := by
  refine List.rel_filter ?_ (h.overloads keyword)
  intro c d hcd
  simp only [decide_eq_true_eq, hcd.fits_iff tokens]

/-- Names have no say in how far the commands of a keyword come. -/
theorem Renames.progress_eq (h : catalog.Renames catalog') (keyword : String)
    (tokens : List String) :
    catalog.progress keyword tokens = catalog'.progress keyword tokens := by
  refine List.rel_foldl ?_ rfl (h.overloads keyword)
  rintro n _ rfl c d hcd
  show max n (c.trial tokens).position = max n (d.trial tokens).position
  rw [hcd.trial_eq]

/-! ### The command that is called -/

/-- What it means that the command at a place is called: it has the keyword, it fits the words, and
it goes before what stands at any other place, if that has the keyword and fits them too. -/
structure LeadsAt (catalog : Catalog) (keyword : String) (tokens : List String) (i : Nat)
    (c : Command) : Prop where
  at_place : catalog.commands[i]? = some c
  keyword_eq : c.keyword = keyword
  fits : c.Fits tokens
  beats : ∀ j d, j ≠ i → catalog.commands[j]? = some d → d.keyword = keyword → d.Fits tokens →
    Ranking.compareParams c.params d.params = .gt

variable {c : Command} {i : Nat}

/-- A command leads those that fit exactly if it is called from some place. -/
theorem leads_suitable_iff_leadsAt :
    Ranking.Leads Command.beats (catalog.suitable keyword tokens) c ↔
      ∃ i, catalog.LeadsAt keyword tokens i c := by
  rw [suitable, overloads, List.filter_filter, Ranking.leads_filter_iff]
  simp only [Bool.and_eq_true, decide_eq_true_eq, beq_iff_eq, Command.beats_iff]
  -- the members before and behind the leader are those at all other places
  constructor
  · rintro ⟨front, back, hsplit, ⟨hfits, hkeyword⟩, hbeats⟩
    have herase : catalog.commands.eraseIdx front.length = front ++ back := by
      simp [hsplit, List.eraseIdx_append_of_length_le]
    refine ⟨front.length, ?_, hkeyword, hfits, ?_⟩
    · simp [hsplit]
    · intro j d hne hd hdkeyword hdfits
      have hmem : d ∈ front ++ back :=
        herase ▸ List.mem_eraseIdx_iff_getElem?.mpr ⟨j, hne, hd⟩
      exact hbeats d hmem ⟨hdfits, hdkeyword⟩
  · rintro ⟨i, h⟩
    obtain ⟨hi, hc⟩ := List.getElem?_eq_some_iff.mp h.at_place
    refine ⟨catalog.commands.take i, catalog.commands.drop (i + 1), ?_, ⟨h.fits, h.keyword_eq⟩, ?_⟩
    · rw [← hc, List.getElem_cons_drop, List.take_append_drop]
    · rintro d hd ⟨hdfits, hdkeyword⟩
      rw [← List.eraseIdx_eq_take_drop_succ] at hd
      obtain ⟨j, hne, hj⟩ := List.mem_eraseIdx_iff_getElem?.mp hd
      exact h.beats j d hne hj hdkeyword hdfits

/-- A command that is called stands at one place only, since it does not go before itself. -/
theorem LeadsAt.getElem?_eq_some_iff (h : catalog.LeadsAt keyword tokens i c) (j : Nat) :
    catalog.commands[j]? = some c ↔ j = i := by
  constructor
  · intro hj
    by_contra hne
    have hgt := h.beats j c hne hj h.keyword_eq h.fits
    have hself := Command.asymmetric_beats.irrefl c
    rw [Command.beats_iff.mpr hgt] at hself
    exact Bool.noConfusion hself
  · rintro rfl
    exact h.at_place

/-- At the place of a command there stands its namesake. -/
theorem Renames.exists_getElem? (h : catalog.Renames catalog')
    (hc : catalog.commands[i]? = some c) :
    ∃ c', catalog'.commands[i]? = some c' ∧ c.Renames c' := by
  obtain ⟨hi, rfl⟩ := List.getElem?_eq_some_iff.mp hc
  have hi' : i < catalog'.commands.length := h.length_eq ▸ hi
  exact ⟨catalog'.commands[i], List.getElem?_eq_getElem hi', h.get hi hi'⟩

/-- **Names have no say in which place the command that is called stands at.** -/
theorem LeadsAt.exists_of_renames (hrenames : catalog.Renames catalog')
    (h : catalog.LeadsAt keyword tokens i c) :
    ∃ c', c.Renames c' ∧ catalog'.LeadsAt keyword tokens i c' := by
  obtain ⟨c', hc', hcc'⟩ := hrenames.exists_getElem? h.at_place
  have hkeyword : c'.keyword = keyword := hcc'.keyword_eq ▸ h.keyword_eq
  refine ⟨c', hcc', hc', hkeyword, (hcc'.fits_iff tokens).mp h.fits, ?_⟩
  intro j d' hne hd' hdkeyword hdfits
  -- what stands at the other place has a namesake that is beaten here
  obtain ⟨d, hd, hdd'⟩ := hrenames.symm.exists_getElem? hd'
  rw [← hcc'.compareParams_eq hdd'.symm]
  refine h.beats j d hne hd ?_ ((hdd'.fits_iff tokens).mp hdfits)
  rw [← hdd'.keyword_eq, hdkeyword]

/-! ### The commands that are named -/

/-- Whether a command has the keyword, fits the words, and no command of the keyword that fits them
goes before it. -/
def isForemost (catalog : Catalog) (keyword : String) (tokens : List String) (c : Command) : Bool :=
  c.keyword == keyword && c.Fits tokens &&
    ∀ d ∈ catalog.suitable keyword tokens, Ranking.compareParams d.params c.params ≠ .gt

/-- Where the foremost commands of a keyword stand. -/
def foremostPlaces (catalog : Catalog) (keyword : String) (tokens : List String) : List Nat :=
  catalog.places (catalog.isForemost keyword tokens)

/-- The foremost commands, taken out of the whole catalog at once. -/
theorem foremost_eq_filter (catalog : Catalog) (keyword : String) (tokens : List String) :
    catalog.foremost keyword tokens =
      catalog.commands.filter (catalog.isForemost keyword tokens) := by
  rw [foremost, suitable, List.filter_filter, ← suitable, overloads, List.filter_filter]
  apply List.filter_congr
  intro c _
  rw [isForemost, Bool.and_comm, Bool.and_assoc, Bool.and_comm (decide (c.Fits tokens))]

/-- The signatures of the foremost commands are what stands at their places. -/
theorem map_foremostPlaces (catalog : Catalog) (keyword : String) (tokens : List String) :
    (catalog.foremostPlaces keyword tokens).map (fun i => catalog.signatures[i]?) =
      ((catalog.foremost keyword tokens).map Command.signature).map some := by
  rw [foremost_eq_filter]
  exact catalog.map_places Command.signature _

/-- Names have no say in which commands are foremost. -/
theorem Renames.isForemost_eq (h : catalog.Renames catalog') {c c' : Command} (hc : c.Renames c') :
    catalog.isForemost keyword tokens c = catalog'.isForemost keyword tokens c' := by
  have hsuitable := h.suitable keyword tokens
  have hunbeaten : (∀ d ∈ catalog.suitable keyword tokens,
        Ranking.compareParams d.params c.params ≠ .gt) ↔
      ∀ d ∈ catalog'.suitable keyword tokens,
        Ranking.compareParams d.params c'.params ≠ .gt := by
    generalize catalog.suitable keyword tokens = ds, catalog'.suitable keyword tokens = ds'
      at hsuitable
    -- no command that fits goes before it, here and there, one after the other
    induction hsuitable with
    | nil => simp
    | cons hd _ ih => rw [List.forall_mem_cons, List.forall_mem_cons, ih, hd.compareParams_eq hc]
  simp only [isForemost, hc.keyword_eq, hc.fits_iff tokens, hunbeaten]

/-- **Names have no say in which places the foremost commands stand at.** -/
theorem Renames.foremostPlaces_eq (h : catalog.Renames catalog') (keyword : String)
    (tokens : List String) :
    catalog.foremostPlaces keyword tokens = catalog'.foremostPlaces keyword tokens := by
  -- the places are counted through both rows of commands at once
  have hfindIdxs : ∀ (cs ds : List Command) (n : Nat), List.Forall₂ Command.Renames cs ds →
      cs.findIdxs (catalog.isForemost keyword tokens) n =
        ds.findIdxs (catalog'.isForemost keyword tokens) n := by
    intro cs ds n hcds
    induction hcds generalizing n with
    | nil => rfl
    | cons hc _ ih => rw [List.findIdxs_cons, List.findIdxs_cons, h.isForemost_eq hc, ih]
  exact hfindIdxs _ _ 0 h

/-! ### What becomes of the words -/

/-- Words that have a call here have one there, at the same place and with the same arguments. -/
theorem Renames.resolve_eq_ok (h : catalog.Renames catalog') {call : Invocation}
    (hcall : catalog.resolve tokens = .ok call) :
    ∃ call' i, catalog'.resolve tokens = .ok call' ∧ call'.args = call.args ∧
      (∀ j : Nat, catalog.commands[j]? = some call.command ↔ j = i) ∧
      ∀ j : Nat, catalog'.commands[j]? = some call'.command ↔ j = i := by
  obtain ⟨keyword, hhead, hleads, hargs⟩ := resolve_eq_ok_iff.mp hcall
  obtain ⟨i, hi⟩ := leads_suitable_iff_leadsAt.mp hleads
  obtain ⟨c', hcc', hi'⟩ := hi.exists_of_renames h
  have hleads' := leads_suitable_iff_leadsAt.mpr ⟨i, hi'⟩
  refine ⟨⟨c', (c'.trial tokens).values⟩, i, ?_, ?_, hi.getElem?_eq_some_iff,
    hi'.getElem?_eq_some_iff⟩
  · exact resolve_eq_ok_iff.mpr ⟨keyword, hhead, hleads', rfl⟩
  · rw [hargs, hcc'.trial_eq]

/-- Words that are refused here are refused there with the same fault, unless it lists signatures.
-/
theorem Renames.resolve_eq_error (h : catalog.Renames catalog') {fault : Fault}
    (hother : ∀ keyword signatures, fault ≠ .of (.ambiguousCommand keyword signatures))
    (hfault : catalog.resolve tokens = .error fault) : catalog'.resolve tokens = .error fault := by
  have hnil : ∀ {cs ds : List Command}, List.Forall₂ Command.Renames cs ds →
      (cs = [] ↔ ds = []) := by
    intro cs ds hcds
    rw [← List.length_eq_zero_iff, hcds.length_eq, List.length_eq_zero_iff]
  -- fault by fault: each is said without any names
  rcases eq_of_resolve_eq_error hfault with rfl | ⟨keyword, rfl⟩ | ⟨keyword, consumed, rfl⟩ |
      ⟨keyword, signatures, rfl⟩
  · exact resolve_eq_emptyInput_iff.mpr (resolve_eq_emptyInput_iff.mp hfault)
  · obtain ⟨hhead, hover⟩ := resolve_eq_commandNotFound_iff.mp hfault
    exact resolve_eq_commandNotFound_iff.mpr ⟨hhead, (hnil (h.overloads keyword)).mp hover⟩
  · obtain ⟨hhead, hover, hsuitable, hprogress⟩ := resolve_eq_noViableOverload_iff.mp hfault
    refine resolve_eq_noViableOverload_iff.mpr ⟨hhead, ?_, ?_, ?_⟩
    · rwa [ne_eq, ← hnil (h.overloads keyword)]
    · exact (hnil (h.suitable keyword tokens)).mp hsuitable
    · rw [← h.progress_eq, hprogress]
  · exact absurd rfl (hother keyword signatures)

/-- Words that are ambiguous here are ambiguous there. -/
theorem Renames.resolve_eq_ambiguousCommand (h : catalog.Renames catalog')
    {signatures : List String}
    (hambiguous : catalog.resolve tokens = .error (.of (.ambiguousCommand keyword signatures))) :
    catalog'.resolve tokens = .error (.of (.ambiguousCommand keyword
      ((catalog'.foremost keyword tokens).map Command.signature))) := by
  obtain ⟨hhead, htwo, hnone, -⟩ := resolve_eq_ambiguousCommand_iff.mp hambiguous
  refine resolve_eq_ambiguousCommand_iff.mpr ⟨hhead, ?_, ?_, ?_⟩
  · rwa [← (h.suitable keyword tokens).length_eq]
  · -- whoever led there would have a namesake that leads here
    rintro ⟨c', hleads'⟩
    obtain ⟨i, hi'⟩ := leads_suitable_iff_leadsAt.mp hleads'
    obtain ⟨c, -, hi⟩ := hi'.exists_of_renames h.symm
    exact hnone ⟨c, leads_suitable_iff_leadsAt.mpr ⟨i, hi⟩⟩
  · rw [contenders_eq_foremost]

/-- **Names have no say in what becomes of any words.** If the same commands are registered in the
same order up to the names of parameters, both catalogs give the words a call or neither does. The
calls have the same arguments, and the commands that are called stand at the same place, each at
that place only. Faults are the same fault, about the same keyword and with the same number of
matched words; only an ambiguity shows names. There, each catalog lists its own signatures of the
foremost commands, and these stand at the same places in the same order. -/
theorem resolve_of_renames (h : catalog.Renames catalog') (tokens : List String) :
    ((∃ call, catalog.resolve tokens = .ok call) ↔
      ∃ call', catalog'.resolve tokens = .ok call') ∧
    (∀ call, catalog.resolve tokens = .ok call →
      ∃ call' i, catalog'.resolve tokens = .ok call' ∧ call'.args = call.args ∧
        (∀ j : Nat, catalog.commands[j]? = some call.command ↔ j = i) ∧
        ∀ j : Nat, catalog'.commands[j]? = some call'.command ↔ j = i) ∧
    (∀ fault, (∀ keyword signatures, fault ≠ .of (.ambiguousCommand keyword signatures)) →
      (catalog.resolve tokens = .error fault ↔ catalog'.resolve tokens = .error fault)) ∧
    (∀ keyword signatures,
      catalog.resolve tokens = .error (.of (.ambiguousCommand keyword signatures)) →
        ∃ signatures',
          catalog'.resolve tokens = .error (.of (.ambiguousCommand keyword signatures')) ∧
          catalog.foremostPlaces keyword tokens = catalog'.foremostPlaces keyword tokens ∧
          (catalog.foremostPlaces keyword tokens).map (fun i => catalog.signatures[i]?) =
            signatures.map some ∧
          (catalog'.foremostPlaces keyword tokens).map (fun i => catalog'.signatures[i]?) =
            signatures'.map some) := by
  refine ⟨⟨?_, ?_⟩, fun call hcall => h.resolve_eq_ok hcall, ?_, ?_⟩
  · rintro ⟨call, hcall⟩
    obtain ⟨call', -, hcall', -⟩ := h.resolve_eq_ok hcall
    exact ⟨call', hcall'⟩
  · rintro ⟨call', hcall'⟩
    obtain ⟨call, -, hcall, -⟩ := h.symm.resolve_eq_ok hcall'
    exact ⟨call, hcall⟩
  · intro fault hother
    exact ⟨h.resolve_eq_error hother, h.symm.resolve_eq_error hother⟩
  · intro keyword signatures hambiguous
    have hsignatures := (resolve_eq_ambiguousCommand_iff.mp hambiguous).2.2.2
    rw [contenders_eq_foremost] at hsignatures
    refine ⟨_, h.resolve_eq_ambiguousCommand hambiguous, h.foremostPlaces_eq keyword tokens, ?_,
      map_foremostPlaces catalog' keyword tokens⟩
    rw [map_foremostPlaces, hsignatures]

/-- Arrays of different elements, and a row of texts between them that they go before. -/
def lists (n s x : String) : Catalog :=
  ⟨[.silent "m" [.array "end" (.scalar (.int n))],
    .silent "m" [.scalar (.str s), .scalar (.str s)],
    .silent "m" [.array "end" (.scalar (.float x))]]⟩

/-- Under other names, the arrays are named by their other signatures. -/
theorem resolve_of_renames_lists :
    (lists "n" "s" "x").Renames (lists "k" "t" "k") ∧
    (lists "n" "s" "x").resolve ["m", "1", "end"] =
      .error (.of (.ambiguousCommand "m" ["m <n: int>... end", "m <x: float>... end"])) ∧
    ∃ signatures',
      (lists "k" "t" "k").resolve ["m", "1", "end"] =
        .error (.of (.ambiguousCommand "m" signatures')) ∧
      (lists "n" "s" "x").foremostPlaces "m" ["m", "1", "end"] =
        (lists "k" "t" "k").foremostPlaces "m" ["m", "1", "end"] ∧
      ((lists "n" "s" "x").foremostPlaces "m" ["m", "1", "end"]).map
          (fun i => (lists "n" "s" "x").signatures[i]?) =
        ["m <n: int>... end", "m <x: float>... end"].map some ∧
      ((lists "k" "t" "k").foremostPlaces "m" ["m", "1", "end"]).map
          (fun i => (lists "k" "t" "k").signatures[i]?) = signatures'.map some := by
  have hrenames : (lists "n" "s" "x").Renames (lists "k" "t" "k") :=
    .cons ⟨rfl, .cons (.array "end" (.int "n" "k")) .nil⟩ <|
    .cons ⟨rfl, .cons (.str "s" "t") (.cons (.str "s" "t") .nil)⟩ <|
    .cons ⟨rfl, .cons (.array "end" (.float "x" "k")) .nil⟩ .nil
  have hambiguous : (lists "n" "s" "x").resolve ["m", "1", "end"] =
      .error (.of (.ambiguousCommand "m" ["m <n: int>... end", "m <x: float>... end"])) := by
    rw [resolve_cons]
    rfl
  exact ⟨hrenames, hambiguous,
    (resolve_of_renames hrenames ["m", "1", "end"]).2.2.2 "m" _ hambiguous⟩

/-- The first and the last are named, whatever the names. -/
example (n s x : String) : (lists n s x).foremostPlaces "m" ["m", "1", "end"] = [0, 2] := by rfl

end Catalog

end CommandShell
