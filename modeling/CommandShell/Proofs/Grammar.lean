import CommandShell.Param.Reading
import Mathlib.Data.List.Forall2

/-!
# The grammar of arguments

A parameter reads its argument by walking over the words, and it never looks back. What it accepts
can be said without any walk: a scalar takes one word, and an array takes items of its element kind,
none of which begins with the end word, and then the end word. A `Phrase` is a derivation in this
grammar, `Param.Derives` says which derivations belong to a parameter, and the words and the value
of an argument are read off the derivation.

The reader is complete for the grammar although end words may be shared between an array and the
arrays in it, and although elements may accept the end word of their own array: the rule on first
words settles every choice before it is made.

Main results:

* `Phrase.eq_of_append`: two derivations of a parameter whose words agree as far as both go are the
  same, so no phrase is a proper beginning of another and each is read in one way only;
* `Param.reach?_eq_some_iff`: an argument reaches just as far as some phrase does;
* `Param.read_of_derives`: reading a phrase gives its value.
-/

namespace CommandShell

/-! ## Derivations -/

/-- A derivation of some words: a single word read by a scalar, or the items of an array before its
end word. -/
inductive Phrase where
  | word (s : Scalar) (w : String)
  | items (ts : List Phrase) (endWord : String)

namespace Phrase

mutual

/-- The words that a derivation derives. -/
def words : Phrase → List String
  | .word _ w => [w]
  | .items ts endWord => wordsOfItems ts ++ [endWord]

/-- The words of the items of an array. -/
def wordsOfItems : List Phrase → List String
  | [] => []
  | t :: ts => t.words ++ wordsOfItems ts

end

mutual

/-- The value that a derivation stands for. -/
def value : Phrase → Value
  | .word s w => s.value w
  | .items ts _ => .list (valuesOfItems ts)

/-- The values of the items of an array. -/
def valuesOfItems : List Phrase → List Value
  | [] => []
  | t :: ts => t.value :: valuesOfItems ts

end

theorem wordsOfItems_eq_flatMap (ts : List Phrase) : wordsOfItems ts = ts.flatMap words := by
  induction ts with
  | nil => rfl
  | cons t ts ih => rw [wordsOfItems, List.flatMap_cons, ih]

theorem valuesOfItems_eq_map (ts : List Phrase) : valuesOfItems ts = ts.map value := by
  induction ts with
  | nil => rfl
  | cons t ts ih => rw [valuesOfItems, List.map_cons, ih]

@[simp] theorem words_word (s : Scalar) (w : String) : (word s w).words = [w] := rfl

@[simp] theorem words_items (ts : List Phrase) (endWord : String) :
    (items ts endWord).words = ts.flatMap words ++ [endWord] := by
  rw [words, wordsOfItems_eq_flatMap]

@[simp] theorem value_word (s : Scalar) (w : String) : (word s w).value = s.value w := rfl

@[simp] theorem value_items (ts : List Phrase) (endWord : String) :
    (items ts endWord).value = .list (ts.map value) := by
  rw [value, valuesOfItems_eq_map]

/-- No derivation is without words. -/
theorem words_eq_cons (t : Phrase) : ∃ w ws, t.words = w :: ws := by
  have hne : t.words ≠ [] := by cases t <;> simp
  exact List.exists_cons_of_ne_nil hne

/-- There are at least as many words as items. -/
theorem length_le_length_words (ts : List Phrase) : ts.length ≤ (ts.flatMap words).length := by
  induction ts with
  | nil => exact Nat.le_refl 0
  | cons t ts ih =>
    -- no derivation is without words
    obtain ⟨w, ws, hw⟩ := t.words_eq_cons
    simp only [List.flatMap_cons, hw, List.length_append, List.length_cons]
    omega

end Phrase

/-- Which derivations belong to a parameter. -/
inductive Param.Derives : Param → Phrase → Prop where
  /-- A scalar derives each word that it accepts. -/
  | word {s : Scalar} {w : String} (accepted : s.accepts w = true) : Derives (.scalar s) (.word s w)
  /-- An array derives a row of items, none of which begins with the end word, before the end
  word. -/
  | items {endWord : String} {element : Param} {ts : List Phrase}
      (derived : ∀ t ∈ ts, Derives element t)
      (notEnd : ∀ t ∈ ts, t.words.head? ≠ some endWord) :
      Derives (.array endWord element) (.items ts endWord)

/-! ## Unique decomposition -/

namespace Phrase

/-- Rows of items are the same if their words agree as far as both go, provided that this holds of
the single items. Where one row is over, the end word stands, and so the other is over as well. -/
theorem items_eq_of_append {endWord : String} {ts us : List Phrase} {xs ys : List String}
    (hunique : ∀ t ∈ ts, ∀ u ∈ us, ∀ xs ys : List String,
      t.words ++ xs = u.words ++ ys → t = u ∧ xs = ys)
    (hts : ∀ t ∈ ts, t.words.head? ≠ some endWord)
    (hus : ∀ u ∈ us, u.words.head? ≠ some endWord)
    (h : ts.flatMap words ++ endWord :: xs = us.flatMap words ++ endWord :: ys) :
    ts = us ∧ xs = ys := by
  -- along both rows at once
  induction ts generalizing us with
  | nil =>
    cases us with
    | nil => simpa using h
    | cons u us =>
      -- one row ends where the other has an item, which would begin with the end word
      obtain ⟨w, ws, hw⟩ := u.words_eq_cons
      have hhead := hus u List.mem_cons_self
      simp [hw] at h hhead
      exact absurd h.1.symm hhead
  | cons t ts ih =>
    cases us with
    | nil =>
      -- the same with the rows exchanged
      obtain ⟨w, ws, hw⟩ := t.words_eq_cons
      have hhead := hts t List.mem_cons_self
      simp [hw] at h hhead
      exact absurd h.1 hhead
    | cons u us =>
      -- the first items agree as far as both go, so they are the same
      rw [List.flatMap_cons, List.flatMap_cons, List.append_assoc, List.append_assoc] at h
      obtain ⟨rfl, hrest⟩ := hunique t List.mem_cons_self u List.mem_cons_self _ _ h
      obtain ⟨rfl, hxs⟩ := ih
        (fun t ht u hu => hunique t (List.mem_cons_of_mem _ ht) u (List.mem_cons_of_mem _ hu))
        (fun t ht => hts t (List.mem_cons_of_mem _ ht))
        (fun u hu => hus u (List.mem_cons_of_mem _ hu)) hrest
      exact ⟨rfl, hxs⟩

/-- **Unique decomposition.** Derivations of one parameter whose words agree as far as both go are
the same, and so is what follows them. -/
theorem eq_of_append {p : Param} {t u : Phrase} {xs ys : List String} (ht : p.Derives t)
    (hu : p.Derives u) (h : t.words ++ xs = u.words ++ ys) : t = u ∧ xs = ys := by
  -- induction on the parameter: the items of an array are derivations of its element
  induction p generalizing t u xs ys with
  | scalar s =>
    cases ht
    cases hu
    simpa using h
  | array endWord element ih =>
    cases ht with
    | items htd hte =>
      cases hu with
      | items hud hue =>
        rw [words_items, words_items, List.append_assoc, List.append_assoc] at h
        obtain ⟨rfl, hxs⟩ := items_eq_of_append
          (fun t ht u hu _ _ => ih (htd t ht) (hud u hu)) hte hue h
        exact ⟨rfl, hxs⟩

end Phrase

/-! ## Places and the words between them -/

namespace Cursor

/-- Some words lie between two places. -/
structure Spans (c : Cursor) (ws : List String) (d : Cursor) : Prop where
  rest_eq : c.rest = ws ++ d.rest
  position_eq : d.position = c.position + ws.length

/-- From a place, some words lead to one place. -/
theorem Spans.right_unique {c d e : Cursor} {ws : List String} (hd : c.Spans ws d)
    (he : c.Spans ws e) : d = e := by
  have hrest : d.rest = e.rest := List.append_cancel_left (hd.rest_eq.symm.trans he.rest_eq)
  have hpos : d.position = e.position := hd.position_eq.trans he.position_eq.symm
  cases d
  cases e
  rw [mk.injEq]
  exact ⟨hpos, hrest⟩

theorem Spans.trans {c d e : Cursor} {ws vs : List String} (hd : c.Spans ws d)
    (he : d.Spans vs e) : c.Spans (ws ++ vs) e := by
  refine ⟨?_, ?_⟩
  · rw [hd.rest_eq, he.rest_eq, List.append_assoc]
  · rw [he.position_eq, hd.position_eq, List.length_append, Nat.add_assoc]

/-- Between two places with two rows of words between them, there is a place between the rows. -/
theorem spans_append_iff {c e : Cursor} {ws vs : List String} :
    c.Spans (ws ++ vs) e ↔ ∃ d, c.Spans ws d ∧ d.Spans vs e := by
  constructor
  · intro h
    refine ⟨⟨c.position + ws.length, vs ++ e.rest⟩, ⟨?_, rfl⟩, ⟨rfl, ?_⟩⟩
    · rw [h.rest_eq, List.append_assoc]
    · rw [h.position_eq, List.length_append, Nat.add_assoc]
  · rintro ⟨d, hd, he⟩
    exact hd.trans he

/-- The next word is the single word before some place. -/
theorem next?_eq_some_iff {c d : Cursor} {w : String} :
    c.next? = some (w, d) ↔ c.Spans [w] d := by
  obtain ⟨position, rest⟩ := c
  cases rest with
  | nil =>
    constructor
    · intro h
      simp [next?] at h
    · intro h
      exact absurd h.rest_eq (by simp)
  | cons v rest =>
    constructor
    · intro h
      simp only [next?, Option.some.injEq, Prod.mk.injEq] at h
      obtain ⟨rfl, rfl⟩ := h
      exact ⟨rfl, rfl⟩
    · intro h
      obtain ⟨rfl, hrest⟩ := List.cons.inj h.rest_eq
      have hd : d = ⟨position + 1, rest⟩ := h.right_unique ⟨rfl, rfl⟩
      rw [hd]
      rfl

/-- Where a phrase begins, its first word is the next one. -/
theorem Spans.head?_words {c d : Cursor} {t : Phrase} (h : c.Spans t.words d) :
    t.words.head? = c.rest.head? := by
  obtain ⟨w, ws, hw⟩ := t.words_eq_cons
  rw [h.rest_eq, hw]
  rfl

/-- Between places that are given by positions, the words begin what is left, and the place after
them is as far ahead as there are words. -/
theorem spans_ofTokens_iff {tokens ws : List String} {p : Nat} {d : Cursor} :
    (ofTokens tokens p).Spans ws d ↔
      ws <+: tokens.drop p ∧ d = ofTokens tokens (p + ws.length) := by
  constructor
  · intro h
    -- what is left after the words is what is left from the position after them
    have hdrop : tokens.drop p = ws ++ d.rest := h.rest_eq
    have hrest : tokens.drop (p + ws.length) = d.rest := by
      rw [← List.drop_drop, hdrop, List.drop_left]
    have hpos : d.position = p + ws.length := h.position_eq
    refine ⟨⟨d.rest, hdrop.symm⟩, ?_⟩
    rw [ofTokens, hrest, ← hpos]
  · rintro ⟨⟨rest, hrest⟩, rfl⟩
    refine ⟨?_, rfl⟩
    show tokens.drop p = ws ++ tokens.drop (p + ws.length)
    rw [← List.drop_drop, ← hrest, List.drop_left]

end Cursor

namespace Param

/-! ## Reading goes in step with reaching -/

section Items

variable {endWord w : String} {position : Nat} {rest : List String}

theorem reachItems_nil (reach : Cursor → Option Cursor) (room : Nat) :
    reachItems endWord reach room ⟨position, []⟩ = none := by
  cases room <;> rfl

/-- The loop ends at the end word, and takes an item before any other word. -/
theorem reachItems_cons (reach : Cursor → Option Cursor) (room : Nat) :
    reachItems endWord reach (room + 1) ⟨position, w :: rest⟩ =
      if w = endWord then some ⟨position + 1, rest⟩
      else (reach ⟨position, w :: rest⟩).bind (reachItems endWord reach room) := rfl

variable (fault : Fault) (accepts : Cursor → Bool)
  (element : Cursor → Except Fault (Value × Cursor)) (room : Nat) (items : List Value)

theorem readItems_nil :
    readItems fault endWord accepts element room items ⟨position, []⟩ = .error fault := by
  cases room <;> rfl

/-- The loop ends at the end word, and reads an item before any other word that the element accepts.
-/
theorem readItems_cons :
    readItems fault endWord accepts element (room + 1) items ⟨position, w :: rest⟩ =
      if w = endWord then .ok (items, ⟨position + 1, rest⟩)
      else if accepts ⟨position, w :: rest⟩ then
        match element ⟨position, w :: rest⟩ with
        | .error inner => .error inner
        | .ok (item, after) =>
          readItems fault endWord accepts element room (items ++ [item]) after
      else .error fault := rfl

end Items

/-- What it means that reading agrees with reaching: it ends at the same place, and if there is no
such place, it ends with a given fault. -/
def InStep {α : Type} (fault : Fault) (reached : Option Cursor)
    (result : Except Fault (α × Cursor)) : Prop :=
  match reached with
  | some d => ∃ v, result = .ok (v, d)
  | none => result = .error fault

/-- The loop over the items of an array keeps reading in step with reaching. The fault is that of
the array, whatever the fault of an item would be. -/
theorem inStep_readItems (endWord : String) {element : Param}
    (helement : ∀ c, InStep (element.violation c.position) (element.reach? c) (element.read c))
    (fault : Fault) (room : Nat) (items : List Value) (c : Cursor) :
    InStep fault (reachItems endWord element.reach? room c)
      (readItems fault endWord (fun c => (element.reach? c).isSome) element.read room items c) := by
  -- both loops take one item in each step, so they run out of room together
  induction room generalizing items c with
  | zero => rfl
  | succ room ih =>
    obtain ⟨position, rest⟩ := c
    cases rest with
    | nil =>
      rw [reachItems_nil, readItems_nil]
      rfl
    | cons w rest =>
      rw [reachItems_cons, readItems_cons]
      by_cases hw : w = endWord
      · rw [if_pos hw, if_pos hw]
        exact ⟨items, rfl⟩
      · rw [if_neg hw, if_neg hw]
        -- at this word both loops ask the element, and go on at the same place
        have hitem := helement ⟨position, w :: rest⟩
        cases hreach : element.reach? ⟨position, w :: rest⟩ with
        | none => rfl
        | some d =>
          rw [hreach] at hitem
          obtain ⟨v, hv⟩ := hitem
          rw [hv]
          exact ih (items ++ [v]) d

/-- **Reading and reaching agree.** A parameter reads an argument exactly where it reaches one and
up to the same place, and otherwise the fault names the parameter as a whole and the place where
reading began. -/
theorem inStep_read (p : Param) (c : Cursor) :
    InStep (p.violation c.position) (p.reach? c) (p.read c) := by
  -- along the parameter: an array is in step because its element is
  induction p generalizing c with
  | scalar s =>
    rw [reach?, read]
    cases hnext : c.next? with
    | none => rfl
    | some wd =>
      obtain ⟨w, d⟩ := wd
      by_cases hs : s.accepts w = true
      · simp only [Scalar.convert?, if_pos hs]
        exact ⟨s.value w, rfl⟩
      · simp only [Scalar.convert?, if_neg hs]
        rfl
  | array endWord element ih =>
    have hitems := inStep_readItems endWord ih
      ((array endWord element).violation c.position) c.rest.length [] c
    rw [reach?, read]
    cases hreach : reachItems endWord element.reach? c.rest.length c with
    | none =>
      rw [hreach] at hitems
      simp only [InStep] at hitems
      simp only [hitems]
      rfl
    | some d =>
      rw [hreach] at hitems
      obtain ⟨vs, hvs⟩ := hitems
      simp only [hvs]
      exact ⟨.list vs, rfl⟩

/-- An argument that is reached is read. -/
theorem read_of_reach?_eq_some {p : Param} {c d : Cursor} (h : p.reach? c = some d) :
    ∃ v, p.read c = .ok (v, d) := by
  have hstep := inStep_read p c
  rw [h] at hstep
  exact hstep

/-! ## What is read is a phrase -/

/-- The items that the loop reads are derivations of the element, and none of them begins with the
end word. They come after the items that were read before. -/
theorem exists_derives_of_readItems {endWord : String} {element : Param} {fault : Fault}
    (helement : ∀ c d v, element.read c = .ok (v, d) →
      ∃ t, element.Derives t ∧ c.Spans t.words d ∧ v = t.value)
    {room : Nat} {items vs : List Value} {c d : Cursor}
    (h : readItems fault endWord (fun c => (element.reach? c).isSome) element.read room items c =
      .ok (vs, d)) :
    ∃ ts, (array endWord element).Derives (.items ts endWord) ∧
      c.Spans (Phrase.items ts endWord).words d ∧ vs = items ++ ts.map Phrase.value := by
  -- induction on the room: each step reads one more item, which stands before the others
  induction room generalizing items c with
  | zero => simp [readItems] at h
  | succ room ih =>
    obtain ⟨position, rest⟩ := c
    cases rest with
    | nil => simp [readItems_nil] at h
    | cons w rest =>
      rw [readItems_cons] at h
      by_cases hw : w = endWord
      · rw [if_pos hw] at h
        obtain ⟨rfl, rfl⟩ := Prod.mk.inj (Except.ok.inj h)
        subst hw
        -- at the end word there are no items any more
        exact ⟨[], .items (by simp) (by simp), ⟨rfl, rfl⟩, by simp⟩
      · rw [if_neg hw] at h
        split at h
        · split at h
          · simp at h
          · next item after hitem =>
            obtain ⟨t, ht, hspan, rfl⟩ := helement _ _ _ hitem
            obtain ⟨ts, hts, hrest, rfl⟩ := ih h
            -- the loop has looked at the word that the item begins with
            have hhead : t.words.head? ≠ some endWord := by
              rw [hspan.head?_words]
              simpa using hw
            cases hts with
            | items hderived hne =>
              refine ⟨t :: ts, .items ?_ ?_, ?_, by simp⟩
              · exact List.forall_mem_cons.mpr ⟨ht, hderived⟩
              · exact List.forall_mem_cons.mpr ⟨hhead, hne⟩
              · simpa using hspan.trans hrest
        · simp at h

/-- **Soundness.** What a parameter reads is a phrase of it together with its value. -/
theorem exists_derives_of_read {p : Param} {c d : Cursor} {v : Value}
    (h : p.read c = .ok (v, d)) : ∃ t, p.Derives t ∧ c.Spans t.words d ∧ v = t.value := by
  -- along the parameter: the items of an array are read by its element
  induction p generalizing c d v with
  | scalar s =>
    rw [read] at h
    cases hnext : c.next? with
    | none => simp [hnext] at h
    | some wd =>
      obtain ⟨w, e⟩ := wd
      by_cases hs : s.accepts w = true
      · simp only [hnext, Scalar.convert?, if_pos hs] at h
        obtain ⟨rfl, rfl⟩ := Prod.mk.inj (Except.ok.inj h)
        exact ⟨.word s w, .word hs, Cursor.next?_eq_some_iff.mp hnext, rfl⟩
      · simp [hnext, Scalar.convert?, hs] at h
  | array endWord element ih =>
    rw [read] at h
    split at h
    · simp at h
    · next items next hitems =>
      obtain ⟨rfl, rfl⟩ := Prod.mk.inj (Except.ok.inj h)
      obtain ⟨ts, hts, hspan, rfl⟩ := exists_derives_of_readItems (fun _ _ _ => ih) hitems
      exact ⟨.items ts endWord, hts, hspan, by simp⟩

/-! ## Every phrase is reached -/

/-- The loop reaches the end of a row of items, if it has room for more than there are. -/
theorem reachItems_of_derives {endWord : String} {element : Param}
    (helement : ∀ t c d, element.Derives t → c.Spans t.words d → element.reach? c = some d)
    {ts : List Phrase} (hderived : ∀ t ∈ ts, element.Derives t)
    (hne : ∀ t ∈ ts, t.words.head? ≠ some endWord) {room : Nat} (hroom : ts.length < room)
    {c d : Cursor} (h : c.Spans (ts.flatMap Phrase.words ++ [endWord]) d) :
    reachItems endWord element.reach? room c = some d := by
  -- along the items; where they are over, the end word is next
  induction ts generalizing room c with
  | nil =>
    obtain ⟨room, rfl⟩ : ∃ n, room = n + 1 := Nat.exists_eq_succ_of_ne_zero (by omega)
    rw [reachItems, Cursor.next?_eq_some_iff.mpr h]
    exact if_pos rfl
  | cons t ts ih =>
    obtain ⟨room, rfl⟩ : ∃ n, room = n + 1 := Nat.exists_eq_succ_of_ne_zero (by omega)
    rw [List.flatMap_cons, List.append_assoc, Cursor.spans_append_iff] at h
    obtain ⟨e, hitem, hrest⟩ := h
    -- the item does not begin with the end word, so the loop asks its element
    obtain ⟨w, ws, hwords⟩ := t.words_eq_cons
    have hw : w ≠ endWord := by
      have hhead := hne t List.mem_cons_self
      simpa [hwords] using hhead
    have hcons : c.rest = w :: (ws ++ e.rest) := by rw [hitem.rest_eq, hwords]; rfl
    have hreach : element.reach? c = some e := helement t c e (hderived t List.mem_cons_self) hitem
    obtain ⟨position, rest⟩ := c
    subst hcons
    rw [reachItems_cons, if_neg hw, hreach]
    exact ih (fun u hu => hderived u (List.mem_cons_of_mem _ hu))
      (fun u hu => hne u (List.mem_cons_of_mem _ hu)) (by simpa using hroom) hrest

/-- **Completeness.** A parameter reaches the end of each of its phrases. -/
theorem reach?_of_derives {p : Param} {t : Phrase} {c d : Cursor} (ht : p.Derives t)
    (h : c.Spans t.words d) : p.reach? c = some d := by
  induction p generalizing t c d with
  | scalar s =>
    cases ht with
    | word hs =>
      rw [reach?, Cursor.next?_eq_some_iff.mpr h]
      exact if_pos hs
  | array endWord element ih =>
    cases ht with
    | items hderived hne =>
      -- the loop has as much room as there are words
      rename_i ts
      rw [Phrase.words_items] at h
      -- every item takes a word, and one more is left for the end word
      have hroom : ts.length < c.rest.length := by
        have hlen := Phrase.length_le_length_words ts
        rw [h.rest_eq]
        simp only [List.length_append, List.length_singleton]
        omega
      exact reachItems_of_derives (fun _ _ _ => ih) hderived hne hroom h

/-- A place is reached exactly if a phrase of the parameter lies before it. -/
theorem reach?_eq_some_iff {p : Param} {c d : Cursor} :
    p.reach? c = some d ↔ ∃ t, p.Derives t ∧ c.Spans t.words d := by
  constructor
  · intro h
    obtain ⟨v, hv⟩ := read_of_reach?_eq_some h
    obtain ⟨t, ht, hspan, -⟩ := exists_derives_of_read hv
    exact ⟨t, ht, hspan⟩
  · rintro ⟨t, ht, hspan⟩
    exact reach?_of_derives ht hspan

/-- Where a phrase lies ahead, its value is read, and reading goes on after it. -/
theorem read_of_derives {p : Param} {t : Phrase} {c d : Cursor} (ht : p.Derives t)
    (h : c.Spans t.words d) : p.read c = .ok (t.value, d) := by
  obtain ⟨v, hv⟩ := read_of_reach?_eq_some (reach?_of_derives ht h)
  -- what is read is some phrase up to the same place, and there is only one
  obtain ⟨u, hu, hspan, rfl⟩ := exists_derives_of_read hv
  have hwords : t.words ++ d.rest = u.words ++ d.rest := h.rest_eq.symm.trans hspan.rest_eq
  obtain ⟨rfl, -⟩ := Phrase.eq_of_append ht hu hwords
  exact hv

/-! ## Arguments by position -/

/-- A parameter accepts the words at a position exactly if they begin with one of its phrases. -/
theorem accepts_iff {p : Param} {tokens : List String} {position : Nat} :
    p.accepts tokens position = true ↔
      ∃ t, p.Derives t ∧ t.words <+: tokens.drop position := by
  rw [accepts, Option.isSome_iff_exists]
  constructor
  · rintro ⟨d, hd⟩
    obtain ⟨t, ht, hspan⟩ := reach?_eq_some_iff.mp hd
    exact ⟨t, ht, (Cursor.spans_ofTokens_iff.mp hspan).1⟩
  · rintro ⟨t, ht, hwords⟩
    exact ⟨_, reach?_of_derives ht (Cursor.spans_ofTokens_iff.mpr ⟨hwords, rfl⟩)⟩

/-- What is read at a position is the value of the phrase that stands there, up to its last word. -/
theorem readAt_eq_ok_iff {p : Param} {tokens : List String} {position q : Nat} {v : Value} :
    p.readAt tokens position = .ok (v, q) ↔
      ∃ t, p.Derives t ∧ t.words <+: tokens.drop position ∧ v = t.value ∧
        q = position + t.words.length := by
  constructor
  · intro h
    rw [readAt] at h
    split at h
    · simp at h
    · next value next hread =>
      obtain ⟨rfl, rfl⟩ := Prod.mk.inj (Except.ok.inj h)
      obtain ⟨t, ht, hspan, rfl⟩ := exists_derives_of_read hread
      obtain ⟨hwords, rfl⟩ := Cursor.spans_ofTokens_iff.mp hspan
      exact ⟨t, ht, hwords, rfl, rfl⟩
  · rintro ⟨t, ht, hwords, rfl, rfl⟩
    rw [readAt, read_of_derives ht (Cursor.spans_ofTokens_iff.mpr ⟨hwords, rfl⟩)]
    rfl

/-- A parameter reads an argument exactly where it accepts one. -/
theorem accepts_iff_readAt {p : Param} {tokens : List String} {position : Nat} :
    p.accepts tokens position = true ↔ ∃ v q, p.readAt tokens position = .ok (v, q) := by
  rw [accepts_iff]
  constructor
  · rintro ⟨t, ht, hwords⟩
    exact ⟨_, _, readAt_eq_ok_iff.mpr ⟨t, ht, hwords, rfl, rfl⟩⟩
  · rintro ⟨v, q, h⟩
    obtain ⟨t, ht, hwords, -⟩ := readAt_eq_ok_iff.mp h
    exact ⟨t, ht, hwords⟩

/-- Reading takes at least one word, and no more than there are. -/
theorem readAt_bounds {p : Param} {tokens : List String} {position q : Nat} {v : Value}
    (h : p.readAt tokens position = .ok (v, q)) : position < q ∧ q ≤ tokens.length := by
  obtain ⟨t, -, hwords, -, rfl⟩ := readAt_eq_ok_iff.mp h
  obtain ⟨w, ws, hw⟩ := t.words_eq_cons
  have hle := hwords.length_le
  rw [List.length_drop] at hle
  have hpos : 0 < t.words.length := by
    rw [hw, List.length_cons]
    exact Nat.succ_pos _
  omega

/-- Reading by position is reading from a place. -/
theorem read_ofTokens {p : Param} {tokens : List String} {position q : Nat} {v : Value}
    (h : p.readAt tokens position = .ok (v, q)) :
    p.read (Cursor.ofTokens tokens position) = .ok (v, Cursor.ofTokens tokens q) := by
  obtain ⟨t, ht, hwords, rfl, rfl⟩ := readAt_eq_ok_iff.mp h
  exact read_of_derives ht (Cursor.spans_ofTokens_iff.mpr ⟨hwords, rfl⟩)

end Param

end CommandShell
