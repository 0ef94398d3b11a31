import CommandShell.Command
import CommandShell.Proofs.Grammar

/-!
# Commands matched alone

A contest tries all commands of a keyword side by side. What a single command makes of the words
does not depend on the others, and it is told here apart from any contest: the parameters are
matched one after the other, each where the one before it stopped, until one does not accept the
words at hand or all are matched. A command fits some words if all its parameters are matched and
no word is left.

The matching never goes back, and still it misses nothing: a command fits exactly if the words after
the keyword can be derived from its parameters, one phrase for each.

Main results:

* `Trial.run_of_derives` / `Trial.exists_derives`: a trial that matches all parameters is a row of
  phrases, and every row of phrases is such a trial;
* `Command.fits_iff_derives_uniquely`: a command fits exactly the words of its grammar, the phrases
  are unique, and the arguments are their values.
-/

namespace CommandShell

/-- How far a row of parameters comes when it is matched alone. -/
structure Trial where
  /-- The values of the parameters that are matched, in order. -/
  values : List Value
  /-- The position after the words that they take. -/
  position : Nat

namespace Trial

/-- Matches a row of parameters from a position on. Each of them has to accept the words there, and
the next one goes on where it stops. -/
def run (tokens : List String) : List Param → Nat → Trial
  | [], position => ⟨[], position⟩
  | p :: ps, position =>
    if p.accepts tokens position then
      match p.readAt tokens position with
      | .ok (value, next) => ⟨value :: (run tokens ps next).values, (run tokens ps next).position⟩
      | .error _ => ⟨[], position⟩
    else ⟨[], position⟩

theorem run_nil (tokens : List String) (position : Nat) : run tokens [] position = ⟨[], position⟩ :=
  rfl

/-- A parameter that is read leaves the rest of the row to go on after it. -/
theorem run_cons_of_readAt {tokens : List String} {p : Param} {position next : Nat} {v : Value}
    (ps : List Param) (h : p.readAt tokens position = .ok (v, next)) :
    run tokens (p :: ps) position =
      ⟨v :: (run tokens ps next).values, (run tokens ps next).position⟩ := by
  have haccepts : p.accepts tokens position = true := Param.accepts_iff_readAt.mpr ⟨v, next, h⟩
  rw [run, if_pos haccepts, h]

/-- A parameter that does not accept the words at hand ends the trial. -/
theorem run_cons_of_not_accepts {tokens : List String} {p : Param} {position : Nat}
    (ps : List Param) (h : p.accepts tokens position = false) :
    run tokens (p :: ps) position = ⟨[], position⟩ := by
  rw [run, if_neg (by simp [h])]

/-- A trial never goes back. -/
theorem le_position_run (tokens : List String) (ps : List Param) (position : Nat) :
    position ≤ (run tokens ps position).position := by
  -- along the parameters: each one that is matched takes a word at least
  induction ps generalizing position with
  | nil => exact Nat.le_refl position
  | cons p ps ih =>
    cases haccepts : p.accepts tokens position with
    | false => exact Nat.le_of_eq (by rw [run_cons_of_not_accepts ps haccepts])
    | true =>
      obtain ⟨v, next, hread⟩ := Param.accepts_iff_readAt.mp haccepts
      rw [run_cons_of_readAt ps hread]
      exact Nat.le_trans (Nat.le_of_lt (Param.readAt_bounds hread).1) (ih next)

end Trial

namespace Command

/-- The trial of a command. The first word is the keyword. -/
def trial (c : Command) (tokens : List String) : Trial := Trial.run tokens c.params 1

/-- Whether a command matched alone takes all words with all its parameters. -/
def Fits (c : Command) (tokens : List String) : Prop :=
  (c.trial tokens).values.length = c.arity ∧ (c.trial tokens).position = tokens.length

instance (c : Command) (tokens : List String) : Decidable (c.Fits tokens) :=
  inferInstanceAs (Decidable (_ ∧ _))

end Command

/-! ## Rows of phrases -/

/-- A row of derivations belongs to a row of parameters, one to each, and derives some words. -/
def Param.DeriveRow (ps : List Param) (ts : List Phrase) (ws : List String) : Prop :=
  List.Forall₂ Param.Derives ps ts ∧ ts.flatMap Phrase.words = ws

/-- Rows of phrases of the same parameters are the same if their words agree as far as both go. -/
theorem Phrase.row_eq_of_append {ps : List Param} {ts us : List Phrase} {xs ys : List String}
    (hts : List.Forall₂ Param.Derives ps ts) (hus : List.Forall₂ Param.Derives ps us)
    (h : ts.flatMap Phrase.words ++ xs = us.flatMap Phrase.words ++ ys) : ts = us ∧ xs = ys := by
  induction hts generalizing us with
  | nil =>
    cases hus
    exact ⟨rfl, h⟩
  | cons ht _ ih =>
    cases hus with
    | cons hu hus =>
      -- the first phrases agree as far as both go, and then so do the others
      rw [List.flatMap_cons, List.flatMap_cons, List.append_assoc, List.append_assoc] at h
      obtain ⟨rfl, hrest⟩ := Phrase.eq_of_append ht hu h
      obtain ⟨rfl, hxs⟩ := ih hus hrest
      exact ⟨rfl, hxs⟩

/-- Some words are derived from a row of parameters in one way at most. -/
theorem Param.DeriveRow.unique {ps : List Param} {ts us : List Phrase} {ws : List String}
    (hts : Param.DeriveRow ps ts ws) (hus : Param.DeriveRow ps us ws) : ts = us := by
  have hwords : ts.flatMap Phrase.words ++ [] = us.flatMap Phrase.words ++ [] := by
    rw [hts.2, hus.2]
  exact (Phrase.row_eq_of_append hts.1 hus.1 hwords).1

namespace Trial

/-- A row of phrases is matched, and its values are collected. -/
theorem run_of_derives {tokens : List String} {ps : List Param} {ts : List Phrase} {position : Nat}
    (hts : List.Forall₂ Param.Derives ps ts)
    (hwords : ts.flatMap Phrase.words <+: tokens.drop position) :
    run tokens ps position =
      ⟨ts.map Phrase.value, position + (ts.flatMap Phrase.words).length⟩ := by
  -- induction on the row: after the first phrase the trial goes on where its words end
  induction hts generalizing position with
  | nil => rfl
  | @cons p t ps ts ht _ ih =>
    obtain ⟨rest, hrest⟩ := hwords
    rw [List.flatMap_cons, List.append_assoc] at hrest
    have hread : p.readAt tokens position = .ok (t.value, position + t.words.length) :=
      Param.readAt_eq_ok_iff.mpr ⟨t, ht, ⟨_, hrest⟩, rfl, rfl⟩
    have htail : ts.flatMap Phrase.words <+: tokens.drop (position + t.words.length) := by
      refine ⟨rest, ?_⟩
      rw [← List.drop_drop, ← hrest, List.drop_left]
    rw [run_cons_of_readAt ps hread, ih htail, List.flatMap_cons, List.length_append, List.map_cons,
      Nat.add_assoc]

/-- A trial that matches all parameters has found a row of phrases. -/
theorem exists_derives {tokens : List String} {ps : List Param} {position : Nat}
    (h : (run tokens ps position).values.length = ps.length) :
    ∃ ts, List.Forall₂ Param.Derives ps ts ∧
      ts.flatMap Phrase.words <+: tokens.drop position := by
  -- along the parameters, as the trial goes
  induction ps generalizing position with
  | nil => exact ⟨[], .nil, List.nil_prefix⟩
  | cons p ps ih =>
    cases haccepts : p.accepts tokens position with
    | false =>
      -- the trial would have ended without a value for this parameter
      rw [run_cons_of_not_accepts ps haccepts] at h
      simp at h
    | true =>
      obtain ⟨v, next, hread⟩ := Param.accepts_iff_readAt.mp haccepts
      rw [run_cons_of_readAt ps hread] at h
      obtain ⟨t, ht, ⟨rest, hrest⟩, -, rfl⟩ := Param.readAt_eq_ok_iff.mp hread
      obtain ⟨ts, hts, htail⟩ := ih (Nat.succ.inj h)
      refine ⟨t :: ts, .cons ht hts, ?_⟩
      rw [← List.drop_drop, ← hrest, List.drop_left] at htail
      rw [List.flatMap_cons, ← hrest]
      exact (List.prefix_append_right_inj _).mpr htail

end Trial

namespace Param

/-! ## Arrays of scalars -/

/-- A scalar accepts the single word at its position. -/
theorem accepts_scalar_iff {s : Scalar} {tokens : List String} {i : Nat} :
    (scalar s).accepts tokens i = true ↔ ∃ w, tokens[i]? = some w ∧ s.accepts w = true := by
  rw [accepts_iff]
  constructor
  · rintro ⟨t, ht, rest, hrest⟩
    cases ht with
    | word hs =>
      refine ⟨_, ?_, hs⟩
      rw [← List.head?_drop, ← hrest]
      rfl
  · rintro ⟨w, hw, hs⟩
    refine ⟨.word s w, .word hs, ?_⟩
    rw [List.drop_eq_getElem?_toList_append, hw]
    exact List.prefix_append _ _

/-- The items of an array of scalars are the words that its element accepts, without the end word.
-/
theorem derives_array_scalar_iff {endWord : String} {s : Scalar} {t : Phrase} :
    (array endWord (scalar s)).Derives t ↔
      ∃ ws : List String, t = .items (ws.map (.word s)) endWord ∧
        ∀ w ∈ ws, s.accepts w = true ∧ w ≠ endWord := by
  constructor
  · intro ht
    cases ht with
    | @items _ _ ts hderived hne =>
      -- every item is a single word, so the items are read off as a list of words
      induction ts with
      | nil => exact ⟨[], rfl, fun w hw => absurd hw List.not_mem_nil⟩
      | cons t ts ih =>
        obtain ⟨hd, hds⟩ := List.forall_mem_cons.mp hderived
        obtain ⟨hn, hns⟩ := List.forall_mem_cons.mp hne
        obtain ⟨ws, hws, hall⟩ := ih hns hds
        obtain rfl : ts = ws.map (.word s) := (Phrase.items.inj hws).1
        cases hd with
        | word hs =>
          rename_i w
          refine ⟨w :: ws, rfl, List.forall_mem_cons.mpr ⟨⟨hs, ?_⟩, hall⟩⟩
          simpa using hn
  · rintro ⟨ws, rfl, hall⟩
    refine .items ?_ ?_
    · intro t ht
      obtain ⟨w, hw, rfl⟩ := List.mem_map.mp ht
      exact .word (hall w hw).1
    · intro t ht
      obtain ⟨w, hw, rfl⟩ := List.mem_map.mp ht
      simpa using (hall w hw).2

/-- The index of the first end word from a position on, if the element accepts every word before
it. -/
structure ClosesAt (endWord : String) (element : Param) (tokens : List String)
    (position f : Nat) : Prop where
  le : position ≤ f
  atEnd : tokens[f]? = some endWord
  first : ∀ i, position ≤ i → i < f → tokens[i]? ≠ some endWord
  accepted : ∀ i, position ≤ i → i < f → element.accepts tokens i = true

/-- An array of scalars closes at the place where such a row of words and the end word lead. -/
theorem closesAt_scalar_iff {endWord : String} {s : Scalar} {tokens : List String}
    {position f : Nat} :
    ClosesAt endWord (scalar s) tokens position f ↔
      ∃ ws, (ws ++ [endWord]) <+: tokens.drop position ∧
        (∀ w ∈ ws, s.accepts w = true ∧ w ≠ endWord) ∧ f = position + ws.length := by
  constructor
  · intro h
    obtain ⟨hf, hend⟩ := List.getElem?_eq_some_iff.mp h.atEnd
    have hle := h.le
    -- the items are the words from the position up to the first end word
    set ws := (tokens.drop position).take (f - position) with hws
    have hlen : f = position + ws.length := by
      rw [hws, List.length_take, List.length_drop]
      omega
    have hword : ∀ w ∈ ws, ∃ i, position ≤ i ∧ i < f ∧ tokens[i]? = some w := by
      intro w hw
      obtain ⟨j, hj⟩ := List.mem_iff_getElem?.mp hw
      have hlt := (List.getElem?_eq_some_iff.mp hj).1
      refine ⟨position + j, by omega, by omega, ?_⟩
      rwa [hws, List.getElem?_take_of_lt (by omega), List.getElem?_drop] at hj
    refine ⟨ws, ⟨tokens.drop (f + 1), ?_⟩, ?_, hlen⟩
    · have hdrop : tokens.drop f = endWord :: tokens.drop (f + 1) := by
        rw [List.drop_eq_getElem_cons hf, hend]
      rw [List.append_assoc, List.singleton_append, ← hdrop, hws]
      have hsplit := List.take_append_drop (f - position) (tokens.drop position)
      rwa [List.drop_drop, Nat.add_sub_cancel' hle] at hsplit
    · -- a word among them stands at an index before the end word
      intro w hw
      obtain ⟨i, hlo, hhi, hi⟩ := hword w hw
      obtain ⟨v, hv, hs⟩ := accepts_scalar_iff.mp (h.accepted i hlo hhi)
      obtain rfl : w = v := Option.some.inj (hi.symm.trans hv)
      refine ⟨hs, ?_⟩
      rintro rfl
      exact h.first i hlo hhi hi
  · rintro ⟨ws, ⟨rest, hrest⟩, hall, rfl⟩
    -- from the position on, the words are these, then the end word, then the rest
    have hget : ∀ j, tokens[position + j]? = (ws ++ [endWord] ++ rest)[j]? := by
      intro j
      rw [hrest, List.getElem?_drop]
    have hword : ∀ i, position ≤ i → i < position + ws.length →
        ∃ w ∈ ws, tokens[i]? = some w := by
      intro i hlo hhi
      obtain ⟨j, rfl⟩ := Nat.exists_eq_add_of_le hlo
      have hj : j < ws.length := by omega
      refine ⟨ws[j], List.getElem_mem hj, ?_⟩
      rw [hget, List.append_assoc, List.getElem?_append_left hj, List.getElem?_eq_getElem hj]
    refine ⟨by omega, ?_, ?_, ?_⟩
    · rw [hget, List.append_assoc, List.getElem?_append_right (Nat.le_refl _), Nat.sub_self]
      rfl
    · intro i hlo hhi heq
      obtain ⟨w, hw, hi⟩ := hword i hlo hhi
      exact (hall w hw).2 (Option.some.inj (hi.symm.trans heq))
    · intro i hlo hhi
      obtain ⟨w, hw, hi⟩ := hword i hlo hhi
      exact accepts_scalar_iff.mpr ⟨w, hi, (hall w hw).1⟩

/-- An array of scalars accepts exactly where it closes. -/
theorem accepts_array_scalar_iff {endWord : String} {s : Scalar} {tokens : List String}
    {position : Nat} :
    (array endWord (scalar s)).accepts tokens position = true ↔
      ∃ f, ClosesAt endWord (scalar s) tokens position f := by
  rw [accepts_iff]
  constructor
  · -- the grammar and the closing place are two descriptions of the same row of words
    rintro ⟨t, ht, hwords⟩
    obtain ⟨ws, rfl, hall⟩ := derives_array_scalar_iff.mp ht
    refine ⟨_, closesAt_scalar_iff.mpr ⟨ws, ?_, hall, rfl⟩⟩
    simpa [List.flatMap_map] using hwords
  · rintro ⟨f, hf⟩
    obtain ⟨ws, hwords, hall, -⟩ := closesAt_scalar_iff.mp hf
    refine ⟨_, derives_array_scalar_iff.mpr ⟨ws, rfl, hall⟩, ?_⟩
    simpa [List.flatMap_map] using hwords

/-- Where an array of scalars closes, its value is the list of the values of the words before the
end word, and reading goes on after the end word. -/
theorem readAt_array_scalar {endWord : String} {s : Scalar} {tokens : List String}
    {position f : Nat} (h : ClosesAt endWord (scalar s) tokens position f) :
    (array endWord (scalar s)).readAt tokens position =
      .ok (.list (((tokens.drop position).take (f - position)).map s.value), f + 1) := by
  obtain ⟨ws, hwords, hall, rfl⟩ := closesAt_scalar_iff.mp h
  have htake : (tokens.drop position).take (position + ws.length - position) = ws := by
    obtain ⟨rest, hrest⟩ := hwords
    rw [← hrest, Nat.add_sub_cancel_left, List.append_assoc, List.take_left]
  refine readAt_eq_ok_iff.mpr ⟨_, derives_array_scalar_iff.mpr ⟨ws, rfl, hall⟩, ?_, ?_, ?_⟩
  · simpa [List.flatMap_map] using hwords
  · rw [htake, Phrase.value_items, List.map_map]
    rfl
  · simp [List.flatMap_map, Nat.add_assoc]

end Param

/-! ## Commands and their grammar -/

namespace Command

variable {c : Command} {keyword : String} {words : List String}

/-- The trial of a command on the words of its grammar matches everything and leaves nothing. -/
theorem trial_of_deriveRow {ts : List Phrase} (h : Param.DeriveRow c.params ts words) :
    c.trial (keyword :: words) = ⟨ts.map Phrase.value, words.length + 1⟩ := by
  obtain ⟨hts, rfl⟩ := h
  rw [trial, Trial.run_of_derives hts (List.prefix_refl _), Nat.add_comm]

/-- A command fits a keyword and some words exactly if its parameters derive the words. -/
theorem fits_cons_iff :
    c.Fits (keyword :: words) ↔ ∃ ts, Param.DeriveRow c.params ts words := by
  constructor
  · rintro ⟨hvalues, hposition⟩
    obtain ⟨ts, hts, hwords⟩ := Trial.exists_derives hvalues
    -- the phrases are a beginning of the words, and no word is left after them
    rw [trial, Trial.run_of_derives hts hwords, List.length_cons, Nat.add_comm] at hposition
    exact ⟨ts, hts, hwords.eq_of_length (Nat.succ.inj hposition)⟩
  · rintro ⟨ts, hrow⟩
    refine ⟨?_, ?_⟩
    · rw [trial_of_deriveRow hrow, List.length_map]
      exact hrow.1.length_eq.symm
    · rw [trial_of_deriveRow hrow]
      rfl

/-- No command fits when there is no word, not even a keyword. -/
theorem not_fits_nil : ¬ c.Fits [] := by
  rintro ⟨hvalues, hposition⟩
  obtain ⟨ts, hts, hwords⟩ := Trial.exists_derives hvalues
  -- the trial begins after the keyword, and so beyond the end
  rw [trial, Trial.run_of_derives hts hwords] at hposition
  simp only [List.length_nil] at hposition
  omega

/-- **A command accepts exactly its grammar, unambiguously.** A command fits a keyword and some
words exactly if the words are phrases of its parameters in a row. The phrases are unique, and the
arguments are their values. In particular an array of scalars is accepted where its element accepts
every word up to the next end word, and reading it stops right after that word. -/
theorem fits_iff_derives_uniquely (c : Command) (keyword : String) (words : List String) :
    (c.Fits (keyword :: words) ↔ ∃ ts, Param.DeriveRow c.params ts words) ∧
    (∀ ts us, Param.DeriveRow c.params ts words → Param.DeriveRow c.params us words → ts = us) ∧
    (∀ ts, Param.DeriveRow c.params ts words →
      (c.trial (keyword :: words)).values = ts.map Phrase.value) ∧
    ¬ c.Fits [] ∧
    (∀ endWord s tokens position,
      ((Param.array endWord (.scalar s)).accepts tokens position = true ↔
        ∃ f, Param.ClosesAt endWord (.scalar s) tokens position f) ∧
      ∀ f, Param.ClosesAt endWord (.scalar s) tokens position f →
        (Param.array endWord (.scalar s)).readAt tokens position =
          .ok (.list (((tokens.drop position).take (f - position)).map s.value), f + 1)) := by
  -- the last part is about arrays of scalars alone, and says the grammar without derivations
  refine ⟨fits_cons_iff, ?_, ?_, not_fits_nil, ?_⟩
  · intro ts us hts hus
    exact hts.unique hus
  · intro ts hrow
    rw [trial_of_deriveRow hrow]
  · intro endWord s tokens position
    exact ⟨Param.accepts_array_scalar_iff, fun f hf => Param.readAt_array_scalar hf⟩

end Command

end CommandShell
