import CommandShell.Demo
import CommandShell.Proofs.Resolution

/-!
# Arguments are of the types their parameters declare

A candidate in a contest is three things that move separately: how many parameters are matched, the
place after their words, and the values read so far. They stay in step through every round, and each
value is of the type that its parameter declares, down to the last item of the innermost list. So a
command is called with one argument for each parameter, and one that looks at its arguments by their
position, as the demo commands do, finds what it looks for.

A list that is declared as a list of lists may be empty, and then no item shows its type; conformity
is therefore a relation between values and types, and not the type that is read off a value.

Main results:

* `Param.conforms_of_derives`: every phrase of a parameter stands for a value of its type;
* `Candidate.Sound.of_next?`: what one step preserves;
* `Contest.Reachable.sound`: what holds of every candidate in every round;
* `Demo.exists_render?`: a demo command that has its arguments has something to print;
* `Catalog.arguments_conform`: calls have the arguments that their commands declare.
-/

namespace CommandShell

/-! ## Values of a type -/

/-- A value is of a type, down to the items of its lists. -/
inductive Value.Conforms : Value → ValueType → Prop where
  | int (n : Int64) : Conforms (.int n) .int
  | float (x : Binary64) : Conforms (.float x) .float
  | str (text : String) : Conforms (.str text) .str
  /-- An empty list is of every list type. -/
  | list {items : List Value} {element : ValueType} (conforming : ∀ v ∈ items, Conforms v element) :
      Conforms (.list items) (.list element)

/-- A scalar makes values of its type. -/
theorem Scalar.conforms_value (s : Scalar) (word : String) :
    (s.value word).Conforms s.valueType := by
  cases s with
  | int _ => exact .int _
  | float _ => exact .float _
  | str _ => exact .str _
  | switch _ => exact .str _

/-- A phrase of a parameter stands for a value of its type. -/
theorem Param.conforms_of_derives {p : Param} {t : Phrase} (h : p.Derives t) :
    t.value.Conforms p.valueType := by
  -- induction on the parameter: the items of an array are phrases of its element
  induction p generalizing t with
  | scalar s =>
    cases h with
    | word _ => exact s.conforms_value _
  | array endWord element ih =>
    cases h with
    | items derived _ =>
      rw [Phrase.value_items]
      refine .list fun v hv => ?_
      obtain ⟨u, hu, rfl⟩ := List.mem_map.mp hv
      exact ih (derived u hu)

theorem Param.conforms_of_readAt {p : Param} {tokens : List String} {position q : Nat} {v : Value}
    (h : p.readAt tokens position = .ok (v, q)) : v.Conforms p.valueType := by
  obtain ⟨t, ht, -, rfl, -⟩ := Param.readAt_eq_ok_iff.mp h
  exact Param.conforms_of_derives ht

/-! ## Candidates -/

namespace Candidate

/-- The three parts of a candidate are in step, and the values are of the declared types. -/
structure Sound (tokens : List String) (c : Candidate) : Prop where
  cursor_eq : c.cursor = Cursor.ofTokens tokens c.cursor.position
  one_le_position : 1 ≤ c.cursor.position
  position_le : c.cursor.position ≤ tokens.length
  length_values : c.values.length = c.matched
  conforms : ∀ (i : Nat) (v : Value) (p : Param),
    c.values[i]? = some v → c.command.params[i]? = some p → v.Conforms p.valueType

variable {tokens : List String} {c d : Candidate}

theorem Sound.onTrack (h : c.Sound tokens) : c.OnTrack tokens := ⟨h.cursor_eq, h.position_le⟩

/-- A candidate is sound before its first argument. -/
theorem sound_start (keyword : String) (words : List String) (command : Command) :
    (start (keyword :: words) command).Sound (keyword :: words) where
  cursor_eq := rfl
  one_le_position := Nat.le_refl 1
  position_le := Nat.succ_le_succ (Nat.zero_le _)
  length_values := rfl
  conforms := by
    intro i v p hv _
    simp [start] at hv

/-- One more value of the type that the next parameter declares. -/
theorem Sound.conforms_concat {p : Param} {v : Value} (h : c.Sound tokens)
    (hparam : c.command.params[c.matched]? = some p) (hv : v.Conforms p.valueType) (i : Nat)
    (w : Value) (q : Param) (hw : (c.values ++ [v])[i]? = some w)
    (hq : c.command.params[i]? = some q) : w.Conforms q.valueType := by
  rw [← h.length_values] at hparam
  -- an earlier value, the new one, or none
  rcases Nat.lt_trichotomy i c.values.length with hlt | rfl | hgt
  · rw [List.getElem?_append_left hlt] at hw
    exact h.conforms i w q hw hq
  · rw [List.getElem?_concat_length] at hw
    obtain rfl := Option.some.inj hw
    obtain rfl := Option.some.inj (hparam.symm.trans hq)
    exact hv
  · have hnone : (c.values ++ [v])[i]? = none := by
      rw [List.getElem?_eq_none_iff, List.length_append, List.length_singleton]
      omega
    rw [hnone] at hw
    simp at hw

theorem param_of_remaining_eq_cons {p : Param} {ps : List Param} (h : c.remaining = p :: ps) :
    c.command.params[c.matched]? = some p := by
  rw [← List.head?_drop]
  exact congrArg List.head? h

/-- **A step keeps a candidate sound.** -/
theorem Sound.of_next? (h : c.Sound tokens) (hd : c.next? = some d) : d.Sound tokens := by
  rcases next?_eq_some_cases h.onTrack hd with ⟨-, -, rfl⟩ | ⟨p, ps, v, q, hmore, hcons, hread, rfl⟩
  · exact h
  · -- one parameter is matched, one value is read, and the place moves on
    have hparam := param_of_remaining_eq_cons hcons
    have hbounds := Param.readAt_bounds hread
    have hone := h.one_le_position
    refine ⟨rfl, ?_, hbounds.2, ?_, ?_⟩
    · show 1 ≤ q
      omega
    · show (c.values ++ [v]).length = c.matched + 1
      rw [List.length_append, h.length_values]
      rfl
    · exact h.conforms_concat hparam (Param.conforms_of_readAt hread)

/-- The count of the words that are left over is a true difference. -/
theorem Sound.exists_surplus_eq (h : c.Sound tokens) :
    ∃ n, c.surplus = .leftOver c.command.signature n ∧ c.cursor.position + n = tokens.length := by
  refine ⟨tokens.length - c.cursor.position, ?_, Nat.add_sub_cancel' h.position_le⟩
  have hrest : c.cursor.rest = tokens.drop c.cursor.position := congrArg Cursor.rest h.cursor_eq
  rw [surplus, hrest, List.length_drop]

/-- A complete candidate has one value for each parameter. -/
theorem Sound.forall₂_of_isComplete (h : c.Sound tokens) (hcomplete : c.isComplete = true) :
    List.Forall₂ (fun v (p : Param) => v.Conforms p.valueType) c.values c.command.params := by
  have hlength : c.values.length = c.command.params.length := by
    rw [h.length_values]
    exact isComplete_iff_matched_eq.mp hcomplete
  refine List.forall₂_iff_get.mpr ⟨hlength, ?_⟩
  intro i hi hi'
  exact h.conforms i _ _ (List.getElem?_eq_getElem hi) (List.getElem?_eq_getElem hi')

end Candidate

/-! ## Rounds -/

namespace Contest

variable {tokens : List String} {commands : List Command} {contest : Contest}

/-- The contests that the loop goes through: the first one, and after each that is not settled the
one that a round makes of it. -/
inductive Reachable (tokens : List String) (commands : List Command) : Contest → Prop where
  | start : Reachable tokens commands (Contest.start tokens commands)
  | round {contest next : Contest} (reachable : Reachable tokens commands contest)
      (unsettled : contest.candidates.all Candidate.isComplete = false)
      (made : contest.round = .ok next) : Reachable tokens commands next

theorem next?_of_mem_round {next : Contest} {d : Candidate} (hround : contest.round = .ok next)
    (hd : d ∈ next.candidates) : ∃ c ∈ contest.candidates, c.next? = some d := by
  obtain rfl := eq_of_round hround
  exact List.mem_filterMap.mp hd

/-- **Every candidate is sound in every round.** -/
theorem Reachable.sound {keyword : String} {words : List String}
    (h : Reachable (keyword :: words) commands contest) :
    ∀ c ∈ contest.candidates, c.Sound (keyword :: words) := by
  -- along the rounds, by what one step preserves
  induction h with
  | start =>
    intro c hc
    obtain ⟨command, -, rfl⟩ := List.mem_map.mp hc
    exact Candidate.sound_start keyword words command
  | round _ _ made ih =>
    intro d hd
    obtain ⟨c, hc, hnext⟩ := next?_of_mem_round made hd
    exact (ih c hc).of_next? hnext

/-- The loop ends in a contest that it has gone through. -/
theorem Reachable.of_settle {final : Contest} (h : Reachable tokens commands contest)
    (hsettle : contest.settle = .ok final) :
    Reachable tokens commands final ∧ final.candidates.all Candidate.isComplete = true := by
  -- along the rounds of the loop
  fun_induction settle contest with
  | case1 contest hall =>
    obtain rfl := Except.ok.inj hsettle
    exact ⟨h, hall⟩
  | case2 contest hall fault hround => simp at hsettle
  | case3 contest hall next hround ih =>
    exact ih (h.round (Bool.eq_false_iff.mpr hall) hround) hsettle

/-- The call that is decided on is that of a finalist. -/
theorem mem_of_decideAmong_eq_ok {keyword : String} {furthest : Nat} {cs : List Candidate}
    {call : Invocation} (h : (decideAmong keyword furthest cs).result = .ok call) :
    ∃ c ∈ cs, call = c.invocation := by
  unfold decideAmong at h
  split at h
  · simp at h
  · next winner => exact ⟨winner, List.mem_singleton_self winner, (Except.ok.inj h).symm⟩
  · split at h
    · next winner hleader =>
      obtain ⟨front, back, hsplit, -⟩ := Ranking.leader?_eq_some hleader
      refine ⟨winner, ?_, (Except.ok.inj h).symm⟩
      rw [hsplit]
      exact List.mem_append_right front List.mem_cons_self
    · simp at h

end Contest

/-! ## Calls -/

/-- The call of a contest is what some candidate stands for that the loop has gone through to its
end. -/
theorem Catalog.exists_candidate_of_resolve {catalog : Catalog} {keyword : String}
    {words : List String} {call : Invocation} (h : catalog.resolve (keyword :: words) = .ok call) :
    ∃ contest, Contest.Reachable (keyword :: words) (catalog.overloads keyword) contest ∧
      ∃ c ∈ contest.candidates, c.isComplete = true ∧ call = c.invocation := by
  rw [resolve, judge] at h
  split at h
  · simp at h
  · next hne =>
    rw [judgeAmong] at h
    split at h
    · simp at h
    · next final hsettle =>
      obtain ⟨c, hc, rfl⟩ := Contest.mem_of_decideAmong_eq_ok h
      obtain ⟨hreachable, hall⟩ := Contest.Reachable.start.of_settle hsettle
      have hmem : c ∈ final.candidates := (List.mem_filter.mp hc).1
      exact ⟨final, hreachable, c, hmem, List.all_eq_true.mp hall c hmem, rfl⟩

/-- A call has one argument for each parameter, of its type. -/
theorem Catalog.forall₂_conforms_of_resolve {catalog : Catalog} {tokens : List String}
    {call : Invocation} (h : catalog.resolve tokens = .ok call) :
    List.Forall₂ (fun v (p : Param) => v.Conforms p.valueType) call.args call.command.params := by
  cases tokens with
  | nil => simp [resolve, judge] at h
  | cons keyword words =>
    obtain ⟨contest, hreachable, c, hc, hcomplete, rfl⟩ := exists_candidate_of_resolve h
    exact (hreachable.sound c hc).forall₂_of_isComplete hcomplete

/-! ## The demo commands -/

namespace Demo

/-- A part of a phrase asks for no argument beyond the first `n`. -/
def Piece.Within (n : Nat) : Piece → Prop
  | .text _ => True
  | .argument index | .sum index => index < n

instance (n : Nat) (piece : Piece) : Decidable (piece.Within n) := by
  cases piece <;> unfold Piece.Within <;> infer_instance

/-- A part of a phrase that asks for an argument that is there has a text. -/
theorem Piece.exists_render? {args : List Value} {piece : Piece} (h : piece.Within args.length) :
    ∃ text, piece.render? args = some text := by
  cases piece with
  | text content => exact ⟨content, rfl⟩
  | argument index => exact ⟨_, by rw [render?, List.getElem?_eq_getElem h]; rfl⟩
  | sum index => exact ⟨_, by rw [render?, List.getElem?_eq_getElem h]; rfl⟩

/-- A phrase that asks for no argument beyond those that are there has a text. -/
theorem exists_render? {args : List Value} {phrase : List Piece}
    (h : ∀ piece ∈ phrase, piece.Within args.length) : ∃ text, render? args phrase = some text := by
  have hparts : ∃ texts, phrase.mapM (Piece.render? args) = some texts := by
    -- along the parts, each of which has a text
    induction phrase with
    | nil => exact ⟨[], rfl⟩
    | cons piece phrase ih =>
      obtain ⟨hpiece, hphrase⟩ := List.forall_mem_cons.mp h
      obtain ⟨text, htext⟩ := Piece.exists_render? hpiece
      obtain ⟨texts, htexts⟩ := ih hphrase
      exact ⟨text :: texts, by simp [htext, htexts]⟩
  obtain ⟨texts, htexts⟩ := hparts
  exact ⟨String.join texts, by rw [render?, htexts]; rfl⟩

/-- No demo command asks for an argument beyond its parameters. -/
theorem within_of_mem_entries :
    ∀ e ∈ entries, ∀ piece ∈ e.phrase, piece.Within e.params.length := by
  decide

end Demo

namespace Catalog

/-- **Calls have the arguments that their commands declare.** In every round of the contest for some
words, every candidate has taken the keyword and no more words than there are, has matched no more
parameters than it has, with one value for each of them, and the values are of the declared types;
how many words it leaves over is a true difference. The loop ends in such a round. A call has one
argument for each parameter, of the declared type, and so a demo command always finds the arguments
that it prints. -/
theorem arguments_conform (catalog : Catalog) (tokens : List String) :
    (∀ keyword, tokens.head? = some keyword →
      (∀ contest, Contest.Reachable tokens (catalog.overloads keyword) contest →
        ∀ c ∈ contest.candidates,
          (1 ≤ c.cursor.position ∧ c.cursor.position ≤ tokens.length ∧
            c.matched ≤ c.command.arity ∧ c.values.length = c.matched ∧
            ∀ (i : Nat) (v : Value) (p : Param),
              c.values[i]? = some v → c.command.params[i]? = some p → v.Conforms p.valueType) ∧
          ∃ n, c.surplus = .leftOver c.command.signature n ∧
            c.cursor.position + n = tokens.length) ∧
      ∃ final, (Contest.start tokens (catalog.overloads keyword)).settle = .ok final ∧
        Contest.Reachable tokens (catalog.overloads keyword) final) ∧
    (∀ call, catalog.resolve tokens = .ok call →
      call.args.length = call.command.arity ∧
      List.Forall₂ (fun v (p : Param) => v.Conforms p.valueType) call.args call.command.params) ∧
    (∀ call, catalog.resolve tokens = .ok call → ∀ e ∈ Demo.entries, call.command = e.command →
      ∃ text, Demo.render? call.args e.phrase = some text ∧
        call.command.action call.args = [.print (text ++ "\n")]) := by
  refine ⟨?_, ?_, ?_⟩
  · intro keyword hhead
    obtain ⟨words, rfl⟩ := List.head?_eq_some_iff.mp hhead
    refine ⟨?_, ?_⟩
    · intro contest hreachable c hc
      have hsound := hreachable.sound c hc
      exact ⟨⟨hsound.one_le_position, hsound.position_le, c.matched_le, hsound.length_values,
        hsound.conforms⟩, hsound.exists_surplus_eq⟩
    · -- that the loop ends is known from the contest as a whole
      obtain ⟨final, hsettle, -⟩ :=
        Contest.settle_spec (Contest.onTrack_start keyword words (catalog.overloads keyword))
      exact ⟨final, hsettle, (Contest.Reachable.start.of_settle hsettle).1⟩
  · intro call hcall
    have hargs := forall₂_conforms_of_resolve hcall
    exact ⟨hargs.length_eq, hargs⟩
  · intro call hcall e he heq
    have hlength : call.args.length = e.params.length := by
      rw [(forall₂_conforms_of_resolve hcall).length_eq, heq]
      rfl
    obtain ⟨text, htext⟩ := Demo.exists_render? fun piece hpiece =>
      hlength ▸ Demo.within_of_mem_entries e he piece hpiece
    refine ⟨text, htext, ?_⟩
    rw [heq]
    show (Demo.render? call.args e.phrase).toList.map _ = _
    rw [htext]
    rfl

end Catalog

end CommandShell
