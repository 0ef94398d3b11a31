import CommandShell.Proofs.Conformance

/-!
# Reported and declared types

A value reports its type by itself: a list asks its first item and no other, and an empty list,
which has nobody to ask, counts as a list of texts. A parameter declares the type of its values once
and for all. For most values both are the same. They can differ where the way down the first items
ends in an empty list, at any depth and whatever the later items hold: there the report goes on with
texts although the declaration may go on with something else, or with more lists.

The way down the first items is `Value.Descends`. Report and declaration can be compared along it,
since each step takes one list level off both of them (`Value.type_of_descends`,
`Value.Conforms.exists_of_descends`).

Main definitions:

* `ValueType.nested`, `ValueType.levels`: types with list levels around them;
* `Value.Descends`: the way down the first items.

Main results:

* `Value.exists_descends`, `Value.Descends.unique`: the way has one end;
* `Value.Conforms.type_eq_of_descends_scalar`, `Value.Conforms.levels_le_of_descends_nil`: what its
  end says about the types;
* `Param.type_agrees_unless_empty`: the same for what parameters read.
-/

namespace CommandShell

/-! ## List levels -/

namespace ValueType

/-- A type with some list levels around it. -/
def nested : Nat → ValueType → ValueType
  | 0, t => t
  | d + 1, t => .list (nested d t)

/-- How many list levels a type has. -/
def levels : ValueType → Nat
  | .list element => element.levels + 1
  | _ => 0

/-- The innermost list level may be counted with the type that it is around. -/
theorem nested_list (d : Nat) (t : ValueType) : nested d (.list t) = nested (d + 1) t := by
  induction d with
  | zero => rfl
  | succ d ih => exact congrArg list ih

/-- List levels around a type add to those that it has. -/
theorem levels_nested (d : Nat) (t : ValueType) : (nested d t).levels = d + t.levels := by
  induction d with
  | zero => rw [nested, Nat.zero_add]
  | succ d ih =>
    rw [nested, levels, ih]
    omega

end ValueType

namespace Value

/-! ## The way down the first items -/

/-- The first item of a list that has one. -/
def first? : Value → Option Value
  | .list (item :: _) => some item
  | _ => none

/-- A value is reached from another one by going to the first item of a list some times. -/
inductive Descends : Value → Nat → Value → Prop where
  | stay (v : Value) : Descends v 0 v
  | down {v item w : Value} {d : Nat} (first : v.first? = some item) (onward : Descends item d w) :
      Descends v (d + 1) w

variable {v w u : Value} {d e : Nat}

theorem first?_eq_some_iff : v.first? = some w ↔ ∃ items, v = .list (w :: items) := by
  cases v with
  | int _ | float _ | str _ => simp [first?]
  | list items => cases items <;> simp [first?]

/-- The way ends at values that are no lists, and at empty ones. -/
theorem first?_eq_none_iff : v.first? = none ↔ v.list? = none ∨ v = .list [] := by
  cases v with
  | int _ | float _ | str _ => simp [first?, list?]
  | list items => cases items <;> simp [first?, list?]

/-- **The way down the first items has an end.** -/
theorem exists_descends (v : Value) : ∃ d w, v.Descends d w ∧ w.first? = none := by
  -- the way goes where the type of the value is looked for
  induction v using Value.type.induct with
  | case5 item items ih =>
    obtain ⟨d, w, hway, hend⟩ := ih
    exact ⟨d + 1, w, .down rfl hway, hend⟩
  | _ => exact ⟨0, _, .stay _, rfl⟩

/-- The way down the first items has only one end. -/
theorem Descends.unique (hw : v.Descends d w) (hwend : w.first? = none) (hu : v.Descends e u)
    (huend : u.first? = none) : e = d ∧ u = w := by
  -- along the one way, which the other cannot leave
  induction hw generalizing e with
  | stay v =>
    cases hu with
    | stay => exact ⟨rfl, rfl⟩
    | down hfirst _ => simp [hwend] at hfirst
  | down hfirst _ ih =>
    cases hu with
    | stay => simp [huend] at hfirst
    | down hfirst' honward =>
      -- both ways begin with the same item
      obtain rfl := Option.some.inj (hfirst.symm.trans hfirst')
      obtain ⟨rfl, rfl⟩ := ih hwend honward
      exact ⟨rfl, rfl⟩

/-! ## Types along the way -/

/-- The reported type has a list level for each step, around the type that the end reports. -/
theorem type_of_descends (h : v.Descends d w) : v.type = .nested d w.type := by
  -- along the way, each step of which the reported type follows
  induction h with
  | stay v => rfl
  | down hfirst _ ih =>
    obtain ⟨items, rfl⟩ := first?_eq_some_iff.mp hfirst
    rw [type, ih, ValueType.nested]

/-- A type to which a value conforms has a list level for each step, around one to which the end
conforms. -/
theorem Conforms.exists_of_descends {t : ValueType} (ht : v.Conforms t) (h : v.Descends d w) :
    ∃ inner, t = .nested d inner ∧ w.Conforms inner := by
  induction h generalizing t with
  | stay v => exact ⟨t, rfl, ht⟩
  | down hfirst _ ih =>
    obtain ⟨items, rfl⟩ := first?_eq_some_iff.mp hfirst
    cases ht with
    | list hitems =>
      -- all items conform to the element type, and so does the first one
      obtain ⟨inner, rfl, hinner⟩ := ih (hitems _ List.mem_cons_self)
      exact ⟨inner, rfl, hinner⟩

/-- A value that is no list has only one type. -/
theorem Conforms.type_eq_of_scalar {t : ValueType} (ht : v.Conforms t) (h : v.list? = none) :
    v.type = t := by
  cases ht with
  | int _ | float _ | str _ => rfl
  | list _ => simp [list?] at h

/-- **If the way ends in a scalar, the value reports the type to which it conforms.** -/
theorem Conforms.type_eq_of_descends_scalar {t : ValueType} (ht : v.Conforms t)
    (h : v.Descends d w) (hscalar : w.list? = none) : v.type = t := by
  obtain ⟨inner, rfl, hinner⟩ := ht.exists_of_descends h
  rw [type_of_descends h, hinner.type_eq_of_scalar hscalar]

/-- If the way ends in an empty list, the value reports lists of texts, as many levels as there are
lists on the way. -/
theorem type_of_descends_nil (h : v.Descends d (.list [])) : v.type = .nested (d + 1) .str := by
  rw [type_of_descends h, type, ValueType.nested_list]

/-- **If the way ends in an empty list, there are no more lists on it than levels in a type** to
which the value conforms. -/
theorem Conforms.levels_le_of_descends_nil {t : ValueType} (ht : v.Conforms t)
    (h : v.Descends d (.list [])) : d + 1 ≤ t.levels := by
  obtain ⟨inner, rfl, hinner⟩ := ht.exists_of_descends h
  -- the empty list is a level of its own
  cases hinner with
  | list _ =>
    rw [ValueType.nested_list, ValueType.levels_nested]
    omega

/-- A value reports a list type exactly if it conforms to one. -/
theorem Conforms.isScalar_type {t : ValueType} (ht : v.Conforms t) :
    v.type.isScalar = t.isScalar := by
  cases ht with
  | int _ | float _ | str _ => rfl
  | @list items _ _ => cases items <;> rfl

end Value

/-! ## What parameters read -/

namespace Param

/-- **Reported and declared types agree unless a list is empty.** Of a value that a parameter has
read, the way down the first items has one end, which is a scalar or an empty list. If it is a
scalar, the value reports the type that the parameter declares. If it is an empty list, the value
reports lists of texts, one level for each list on the way, the empty one included. These are no
more levels than the declared type has, and the types are the same exactly if the declared one is
just these lists of texts. In any case both are list types or neither is. -/
theorem type_agrees_unless_empty {p : Param} {tokens : List String} {position q : Nat} {v : Value}
    (h : p.readAt tokens position = .ok (v, q)) :
    (∃ d w, v.Descends d w ∧ (w.list? = none ∨ w = .list []) ∧
      ∀ e u, v.Descends e u → (u.list? = none ∨ u = .list []) → e = d ∧ u = w) ∧
    (∀ d w, v.Descends d w → w.list? = none → v.type = p.valueType) ∧
    (∀ d, v.Descends d (.list []) →
      v.type = .nested (d + 1) .str ∧ d + 1 ≤ p.valueType.levels ∧
      (v.type = p.valueType ↔ p.valueType = .nested (d + 1) .str)) ∧
    v.type.isScalar = p.valueType.isScalar := by
  have hconforms : v.Conforms p.valueType := conforms_of_readAt h
  refine ⟨?_, ?_, ?_, hconforms.isScalar_type⟩
  · obtain ⟨d, w, hway, hend⟩ := v.exists_descends
    refine ⟨d, w, hway, Value.first?_eq_none_iff.mp hend, ?_⟩
    intro e u hu huend
    exact hway.unique hend hu (Value.first?_eq_none_iff.mpr huend)
  · intro d w hway hscalar
    exact hconforms.type_eq_of_descends_scalar hway hscalar
  · intro d hway
    have htype := Value.type_of_descends_nil hway
    refine ⟨htype, hconforms.levels_le_of_descends_nil hway, ?_⟩
    rw [htype]
    exact eq_comm

/-- Rows of integers, of which the first one is empty: the second row does not count. -/
theorem type_agrees_unless_empty_rows :
    let rows : Param := .array "all" (.array "end" (.scalar (.int "n")))
    let v : Value := .list [.list [], .list [.int 7]]
    rows.readAt ["end", "7", "end", "all"] 0 = .ok (v, 4) ∧
    ((∃ d w, v.Descends d w ∧ (w.list? = none ∨ w = .list []) ∧
      ∀ e u, v.Descends e u → (u.list? = none ∨ u = .list []) → e = d ∧ u = w) ∧
    (∀ d w, v.Descends d w → w.list? = none → v.type = rows.valueType) ∧
    (∀ d, v.Descends d (.list []) →
      v.type = .nested (d + 1) .str ∧ d + 1 ≤ rows.valueType.levels ∧
      (v.type = rows.valueType ↔ rows.valueType = .nested (d + 1) .str)) ∧
    v.type.isScalar = rows.valueType.isScalar) ∧
    v.Descends 1 (.list []) ∧ v.type = .list (.list .str) ∧
    rows.valueType = .list (.list .int) := by
  intro rows v
  have hread : rows.readAt ["end", "7", "end", "all"] 0 = .ok (v, 4) := by rfl
  exact ⟨hread, type_agrees_unless_empty hread, .down rfl (.stay _), rfl, rfl⟩

end Param

end CommandShell
