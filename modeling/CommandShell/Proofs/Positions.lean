import CommandShell.Proofs.Grammar

/-!
# Positions on a machine

A machine knows positions up to a largest one, and to count on from there is an error. The walks of
a parameter over the words are written down here once more as such a machine takes them: words are
looked up by their position, and each position that is computed is the one after another, which the
machine has to know.

A position is only ever computed to get past a word, so it is at most the number of words. A machine
that can count the words therefore never comes to a position that it does not know, wherever a walk
begins, and its walks come to what `Param.reach?` and `Param.readAt` come to.

Main definitions:

* `Param.reachWithin`, `Param.readWithin`: the walks of a machine, `none` if a position is missing.

Main results:

* `Param.reachWithin_eq`, `Param.readWithin_eq`: nothing is missing, and nothing else comes out;
* `Param.accepts_agrees_with_readAt`: to ask for an argument is to ask whether it can be read.
-/

namespace CommandShell

/-! ## Words by their position -/

/-- The position after another one, for a machine that knows positions up to `max`. -/
def successor? (max position : Nat) : Option Nat :=
  if position < max then some (position + 1) else none

namespace Cursor

variable {max position : Nat} {tokens : List String} {word : String}

theorem ofTokens_of_getElem?_eq_none (h : tokens[position]? = none) :
    ofTokens tokens position = ⟨position, []⟩ := by
  have hle : tokens.length ≤ position := List.getElem?_eq_none_iff.mp h
  rw [ofTokens, List.drop_of_length_le hle]

theorem ofTokens_of_getElem?_eq_some (h : tokens[position]? = some word) :
    ofTokens tokens position = ⟨position, word :: tokens.drop (position + 1)⟩ := by
  obtain ⟨hlt, hword⟩ := List.getElem?_eq_some_iff.mp h
  rw [ofTokens, List.drop_eq_getElem_cons hlt, hword]

/-- There is always a position after that of a word. -/
theorem successor?_eq_some (hmax : tokens.length ≤ max) (h : tokens[position]? = some word) :
    successor? max position = some (position + 1) := by
  have hlt : position < tokens.length := (List.getElem?_eq_some_iff.mp h).1
  exact if_pos (by omega)

end Cursor

namespace Param

/-! ## The walks of a machine -/

section Machine

variable (max : Nat) (tokens : List String)

/-- The position after the end word of an array, when `element` says where one element ends. -/
def reachItemsWithin (endWord : String) (element : Nat → Option (Option Nat)) :
    Nat → Nat → Option (Option Nat)
  | 0, _ => some none
  | room + 1, position =>
    match tokens[position]? with
    | none => some none
    | some word =>
      if word = endWord then (successor? max position).map some
      else
        match element position with
        | none => none
        | some none => some none
        | some (some next) => reachItemsWithin endWord element room next

/-- The position after the argument that begins at a position, if there is one. -/
def reachWithin : Param → Nat → Option (Option Nat)
  | .scalar s, position =>
    match tokens[position]? with
    | none => some none
    | some word => if s.accepts word then (successor? max position).map some else some none
  | .array endWord element, position =>
    reachItemsWithin max tokens endWord (reachWithin element) (tokens.length - position) position

/-- The items of an array, after those that have been read. -/
def readItemsWithin (fault : Fault) (endWord : String) (reach : Nat → Option (Option Nat))
    (element : Nat → Option (Except Fault (Value × Nat))) :
    Nat → List Value → Nat → Option (Except Fault (List Value × Nat))
  | 0, _, _ => some (.error fault)
  | room + 1, items, position =>
    match tokens[position]? with
    | none => some (.error fault)
    | some word =>
      if word = endWord then (successor? max position).map fun next => .ok (items, next)
      else
        match reach position with
        | none => none
        | some none => some (.error fault)
        | some (some _) =>
          match element position with
          | none => none
          | some (.error inner) => some (.error inner)
          | some (.ok (item, next)) =>
            readItemsWithin fault endWord reach element room (items ++ [item]) next

/-- The value of the argument that begins at a position, and the position after it. -/
def readWithin : Param → Nat → Option (Except Fault (Value × Nat))
  | .scalar s, position =>
    let fault := violation (.scalar s) position
    match tokens[position]? with
    | none => some (.error fault)
    | some word =>
      match s.convert? word with
      | none => some (.error fault)
      | some value => (successor? max position).map fun next => .ok (value, next)
  | .array endWord element, position =>
    let fault := violation (.array endWord element) position
    match readItemsWithin max tokens fault endWord (reachWithin max tokens element)
        (readWithin element) (tokens.length - position) [] position with
    | none => none
    | some (.error fault) => some (.error fault)
    | some (.ok (items, next)) => some (.ok (.list items, next))

end Machine

/-- A machine that cannot count the words misses the position after the end word. -/
example : (array "end" (scalar (.str "s"))).readWithin 1 ["a", "end"] 0 = none := by rfl

/-! ## No position is missing -/

variable {max : Nat} {tokens : List String}

/-- Where a walk over the words ends is a place in the same words. -/
theorem eq_ofTokens_of_reach? {p : Param} {position : Nat} {d : Cursor}
    (h : p.reach? (.ofTokens tokens position) = some d) : d = .ofTokens tokens d.position := by
  obtain ⟨t, -, hspan⟩ := reach?_eq_some_iff.mp h
  obtain ⟨-, hd⟩ := Cursor.spans_ofTokens_iff.mp hspan
  have hposition : d.position = position + t.words.length := congrArg Cursor.position hd
  rw [hposition]
  exact hd

/-- The machine finds the end of the items where the walk over the words does. -/
theorem reachItemsWithin_eq (hmax : tokens.length ≤ max) (endWord : String) {element : Param}
    (helement : ∀ position, reachWithin max tokens element position =
      some ((element.reach? (.ofTokens tokens position)).map Cursor.position))
    (room position : Nat) :
    reachItemsWithin max tokens endWord (reachWithin max tokens element) room position =
      some ((reachItems endWord element.reach? room (.ofTokens tokens position)).map
        Cursor.position) := by
  -- both walks take one element in each step
  induction room generalizing position with
  | zero => rfl
  | succ room ih =>
    rw [reachItemsWithin]
    cases hword : tokens[position]? with
    | none =>
      rw [Cursor.ofTokens_of_getElem?_eq_none hword, reachItems_nil]
      rfl
    | some word =>
      have hplace := Cursor.ofTokens_of_getElem?_eq_some hword
      rw [hplace, reachItems_cons, ← hplace]
      by_cases hend : word = endWord
      · simp only [if_pos hend, Cursor.successor?_eq_some hmax hword]
        rfl
      · simp only [if_neg hend, helement position]
        cases hreach : element.reach? (.ofTokens tokens position) with
        | none => rfl
        | some d =>
          -- the position that the machine goes on from is that of the place where the element ended
          have hnext := ih d.position
          rw [← eq_ofTokens_of_reach? hreach] at hnext
          exact hnext

/-- **A machine that can count the words misses no position** on its way to the end of an
argument. -/
theorem reachWithin_eq (hmax : tokens.length ≤ max) (p : Param) (position : Nat) :
    p.reachWithin max tokens position =
      some ((p.reach? (.ofTokens tokens position)).map Cursor.position) := by
  -- along the parameter: a machine misses nothing in the items if it misses nothing in the element
  induction p generalizing position with
  | scalar s =>
    rw [reachWithin, reach?]
    cases hword : tokens[position]? with
    | none =>
      rw [Cursor.ofTokens_of_getElem?_eq_none hword]
      rfl
    | some word =>
      rw [Cursor.ofTokens_of_getElem?_eq_some hword]
      simp only [Cursor.next?, Cursor.successor?_eq_some hmax hword, Option.map_some]
      split <;> rfl
  | array endWord element ih =>
    rw [reachWithin, reachItemsWithin_eq hmax endWord ih, ← List.length_drop]
    rfl

/-- A result with the position in place of the place. -/
def positioned {α : Type} (result : Except Fault (α × Cursor)) : Except Fault (α × Nat) :=
  result.map fun r => (r.1, r.2.position)

/-- To read at a position is to read from its place and to keep the position only. -/
theorem readAt_eq_positioned (p : Param) (tokens : List String) (position : Nat) :
    p.readAt tokens position = positioned (p.read (.ofTokens tokens position)) := by
  rw [readAt]
  cases p.read (.ofTokens tokens position) <;> rfl

/-- The machine reads the items that the walk over the words reads. -/
theorem readItemsWithin_eq (hmax : tokens.length ≤ max) (fault : Fault) (endWord : String)
    {element : Param}
    (helement : ∀ position, readWithin max tokens element position =
      some (element.readAt tokens position))
    (room : Nat) (items : List Value) (position : Nat) :
    readItemsWithin max tokens fault endWord (reachWithin max tokens element)
        (readWithin max tokens element) room items position =
      some (positioned (readItems fault endWord (fun c => (element.reach? c).isSome) element.read
        room items (.ofTokens tokens position))) := by
  -- one item in each step, as before; here the machine asks first and reads then
  induction room generalizing items position with
  | zero => rfl
  | succ room ih =>
    rw [readItemsWithin]
    cases hword : tokens[position]? with
    | none =>
      rw [Cursor.ofTokens_of_getElem?_eq_none hword, readItems_nil]
      rfl
    | some word =>
      have hplace := Cursor.ofTokens_of_getElem?_eq_some hword
      rw [hplace, readItems_cons, ← hplace]
      by_cases hend : word = endWord
      · simp only [if_pos hend, Cursor.successor?_eq_some hmax hword]
        rfl
      · simp only [if_neg hend, reachWithin_eq hmax, helement position]
        cases hreach : element.reach? (.ofTokens tokens position) with
        | none => rfl
        | some d =>
          -- the element is read up to the place that was found before
          obtain ⟨item, hread⟩ := read_of_reach?_eq_some hreach
          have hnext := ih (items ++ [item]) d.position
          rw [← eq_ofTokens_of_reach? hreach] at hnext
          simp only [readAt_eq_positioned, hread]
          exact hnext

/-- **A machine that can count the words misses no position** when it reads an argument. -/
theorem readWithin_eq (hmax : tokens.length ≤ max) (p : Param) (position : Nat) :
    p.readWithin max tokens position = some (p.readAt tokens position) := by
  -- along the parameter, as for the end of an argument
  induction p generalizing position with
  | scalar s =>
    rw [readWithin, readAt, read]
    cases hword : tokens[position]? with
    | none =>
      rw [Cursor.ofTokens_of_getElem?_eq_none hword]
      rfl
    | some word =>
      rw [Cursor.ofTokens_of_getElem?_eq_some hword]
      simp only [Cursor.next?, Cursor.successor?_eq_some hmax hword]
      cases s.convert? word <;> rfl
  | array endWord element ih =>
    have hitems := readItemsWithin_eq hmax ((array endWord element).violation position) endWord ih
      (tokens.length - position) [] position
    -- the words that are left are as many as positions are left
    have hroom : (Cursor.ofTokens tokens position).rest.length = tokens.length - position :=
      List.length_drop
    have hposition : (Cursor.ofTokens tokens position).position = position := rfl
    rw [readWithin, readAt, read, hroom, hposition]
    simp only [hitems]
    cases readItems _ endWord _ element.read _ [] (Cursor.ofTokens tokens position) <;> rfl

/-! ## Asking and reading -/

/-- **To ask for an argument is to ask whether it can be read.** A parameter accepts what begins at
a position exactly if it reads a value there. Then it reads up to the position that the argument
reaches, past one word at least and not beyond the last one. Otherwise the fault names the parameter
as a whole and the position where reading began, whatever an element or a later position would have
to say. On a machine that can count the words no position is missing on the way, wherever it begins,
and both walks come to the same there. -/
theorem accepts_agrees_with_readAt (p : Param) (tokens : List String) (position : Nat) :
    (p.accepts tokens position = true ↔ ∃ v q, p.readAt tokens position = .ok (v, q)) ∧
    (∀ v q, p.readAt tokens position = .ok (v, q) →
      (p.reach? (.ofTokens tokens position)).map Cursor.position = some q ∧
        position < q ∧ q ≤ tokens.length) ∧
    (∀ fault, p.readAt tokens position = .error fault →
      fault = ⟨.contractViolation p.display position, none⟩) ∧
    ∀ max, tokens.length ≤ max →
      p.reachWithin max tokens position =
        some ((p.reach? (.ofTokens tokens position)).map Cursor.position) ∧
      p.readWithin max tokens position = some (p.readAt tokens position) := by
  refine ⟨accepts_iff_readAt, ?_, ?_, ?_⟩
  · intro v q h
    obtain ⟨t, ht, hwords, -, hq⟩ := readAt_eq_ok_iff.mp h
    -- what is read is a phrase, and so it is reached, up to the same position
    have hspan : (Cursor.ofTokens tokens position).Spans t.words (.ofTokens tokens q) :=
      Cursor.spans_ofTokens_iff.mpr ⟨hwords, by rw [hq]⟩
    rw [reach?_of_derives ht hspan]
    exact ⟨rfl, readAt_bounds h⟩
  · intro fault h
    have hstep := inStep_read p (.ofTokens tokens position)
    rw [readAt_eq_positioned] at h
    cases hreach : p.reach? (.ofTokens tokens position) with
    | none =>
      -- where nothing is reached, the fault is the one of the parameter as a whole
      rw [hreach] at hstep
      have hread : p.read (.ofTokens tokens position) = .error (p.violation position) := hstep
      rw [hread] at h
      exact (Except.error.inj h).symm
    | some d =>
      obtain ⟨v, hread⟩ := read_of_reach?_eq_some hreach
      rw [hread] at h
      cases h
  · intro max hmax
    exact ⟨reachWithin_eq hmax p position, readWithin_eq hmax p position⟩

/-- Arrays in each other that share their end word, and the last position of a 64-bit machine. -/
theorem accepts_agrees_with_readAt_nested :
    let p := array "end" (array "end" (scalar (.int "n")))
    let tokens := ["1", "end", "end", "x"]
    p.readAt tokens 0 = .ok (.list [.list [.int 1]], 3) ∧ p.accepts tokens 0 = true ∧
    (p.reach? (.ofTokens tokens 0)).map Cursor.position = some 3 ∧
    p.accepts tokens 18446744073709551615 = false ∧
    p.readWithin 18446744073709551615 tokens 18446744073709551615 =
      some (.error ⟨.contractViolation "<n: int>... end... end" 18446744073709551615, none⟩) := by
  intro p tokens
  have hread : p.readAt tokens 0 = .ok (.list [.list [.int 1]], 3) := by rfl
  have hlate : p.readAt tokens 18446744073709551615 =
      .error ⟨.contractViolation "<n: int>... end... end" 18446744073709551615, none⟩ := by rfl
  obtain ⟨haccepts, hreach, -, -⟩ := accepts_agrees_with_readAt p tokens 0
  obtain ⟨hlateAccepts, -, -, hmachine⟩ := accepts_agrees_with_readAt p tokens 18446744073709551615
  refine ⟨hread, haccepts.mpr ⟨_, _, hread⟩, (hreach _ _ hread).1, ?_, ?_⟩
  · rw [Bool.eq_false_iff, ne_eq, hlateAccepts, hlate]
    simp
  · rw [(hmachine 18446744073709551615 (by decide)).2, hlate]

end Param

end CommandShell
