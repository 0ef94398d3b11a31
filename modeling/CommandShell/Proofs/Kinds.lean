import CommandShell.Proofs.Precedence

/-!
# Kinds of parameters

Whether two parameters are of the same kind is decided by comparing two texts, their descriptions.
The word of a switch stands in such a text as it is, between angle brackets, and nothing keeps it
from having angle brackets of its own or from spelling the description of something else. So it has
to be shown that no two kinds share a description. `Param.SameKind` says what a kind is without any
text: parameters are of the same kind if they are built from the same constructors and their
switches have the same words, whatever their names and end words are.

A description tells its constructor by its second letter. What stands between its first and its last
angle bracket is then the word of the switch, or the description of the element, and never both. At
no depth can a word therefore end the brackets around it.

Main results:

* `Param.sameKind_iff`: the kind of a parameter is its shape;
* `Param.SameKind.describe_eq`, `Param.SameKind.priority_eq`, `Param.SameKind.valueType_eq`: what
  parameters of the same kind share;
* `Param.alike_iff_sameKind`: descriptions are compared, and kinds are told apart.
-/

namespace CommandShell

namespace Param

/-- Two parameters are of the same kind: the same constructors, and the same words where there are
switches. -/
inductive SameKind : Param → Param → Prop where
  | int (name name' : String) : SameKind (.scalar (.int name)) (.scalar (.int name'))
  | float (name name' : String) : SameKind (.scalar (.float name)) (.scalar (.float name'))
  | str (name name' : String) : SameKind (.scalar (.str name)) (.scalar (.str name'))
  | switch (word : String) : SameKind (.scalar (.switch word)) (.scalar (.switch word))
  | array (endWord endWord' : String) {element element' : Param}
      (elements : SameKind element element') :
      SameKind (.array endWord element) (.array endWord' element')

variable {p q : Param}

/-! ## What parameters of the same kind share -/

/-- Parameters of the same kind have the same shape. -/
theorem SameKind.shape_eq (h : p.SameKind q) : p.shape = q.shape := by
  -- along the kinds, which at an array go on with the elements
  induction h with
  | int | float | str | switch => rfl
  | array _ _ _ ih => rw [shape, shape, ih]

theorem SameKind.describe_eq (h : p.SameKind q) : p.describe = q.describe := by
  rw [← describe_shape, ← describe_shape, h.shape_eq]

/-- Parameters of the same kind have the same priority, which the outermost constructor tells. -/
theorem SameKind.priority_eq (h : p.SameKind q) : p.priority = q.priority := by
  cases h <;> rfl

theorem SameKind.valueType_eq (h : p.SameKind q) : p.valueType = q.valueType := by
  induction h with
  | int | float | str | switch => rfl
  | array _ _ _ ih => rw [valueType, valueType, ih]

/-! ## Shapes -/

/-- Parameters of the same shape are of the same kind. -/
theorem sameKind_of_shape_eq (h : p.shape = q.shape) : p.SameKind q := by
  -- the shapes show the constructors, so the other parameter is built like the first one
  induction p generalizing q with
  | scalar s =>
    cases q with
    | scalar s' => cases s <;> cases s' <;> cases h <;> constructor
    | array endWord' element' => cases s <;> cases h
  | array endWord element ih =>
    cases q with
    | scalar s' => cases s' <;> cases h
    | array endWord' element' => exact .array endWord endWord' (ih (Shape.array.inj h))

/-- The kind of a parameter is its shape. -/
theorem sameKind_iff : p.SameKind q ↔ p.shape = q.shape :=
  ⟨SameKind.shape_eq, sameKind_of_shape_eq⟩

/-- The kind of a parameter is told by its description. -/
theorem describe_eq_iff : p.describe = q.describe ↔ p.SameKind q := by
  refine ⟨fun h => ?_, SameKind.describe_eq⟩
  -- a description is that of the shape, and the brackets of shapes cannot be confused
  rw [← describe_shape, ← describe_shape, Shape.describe_inj] at h
  exact sameKind_of_shape_eq h

/-- To be of the same kind is to have something in common, and so it is an equivalence. -/
theorem equivalence_sameKind : Equivalence SameKind where
  refl _ := sameKind_iff.mpr rfl
  symm h := sameKind_iff.mpr h.shape_eq.symm
  trans h h' := sameKind_iff.mpr (h.shape_eq.trans h'.shape_eq)

/-- **Parameters are alike exactly if they are of the same kind.** Comparing descriptions, whatever
the words of the switches are, tells whether two parameters are built from the same constructors and
have switches of the same words; names and end words have no say in it. Kinds are shapes, and a
shape is told by its description. Being alike is an equivalence, and alike parameters have the same
priority and make values of the same type. -/
theorem alike_iff_sameKind :
    (∀ p q : Param, p.alike q = true ↔ p.SameKind q) ∧
    (∀ p q : Param, p.SameKind q ↔ p.shape = q.shape) ∧
    (∀ s t : Shape, s.describe = t.describe ↔ s = t) ∧
    (∀ p : Param, p.describe = p.shape.describe) ∧
    Equivalence (fun p q : Param => p.alike q = true) ∧
    (∀ p q : Param, p.alike q = true → p.priority = q.priority ∧ p.valueType = q.valueType) := by
  have halike : ∀ p q : Param, p.alike q = true ↔ p.SameKind q := by
    intro p q
    rw [alike, beq_iff_eq, describe_eq_iff]
  refine ⟨halike, fun _ _ => sameKind_iff, fun _ _ => Shape.describe_inj,
    fun p => (describe_shape p).symm, ?_, ?_⟩
  · simp only [halike]
    exact equivalence_sameKind
  · intro p q h
    have hkind := (halike p q).mp h
    exact ⟨hkind.priority_eq, hkind.valueType_eq⟩

/-- A switch is no array, also if its word is the description of one. -/
example : (scalar (.switch "array<int>")).alike (array "end" (scalar (.int "n"))) = false ∧
    (array "end" (scalar (.switch "a>"))).alike (array "end" (scalar (.switch "a"))) = false ∧
    (array "end" (scalar (.int "n"))).alike (array "stop" (scalar (.int "m"))) = true := by decide

end Param

end CommandShell
