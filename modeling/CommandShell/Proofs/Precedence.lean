import CommandShell.Proofs.Ranking
import Mathlib.Data.List.Forall2
import Mathlib.Order.Defs.Unbundled

/-!
# Going before is a strict partial order

Two rows of parameters are compared at the first place where they are unlike. Being alike goes by
the description of a parameter, its priority by its constructor, and the comparison uses one after
the other. They fit together because a description shows all of a parameter but its names and end
words: these are what a `Shape` leaves out, and parameters are alike exactly if their shapes are
equal. Alike parameters then have the same priority, and a row can be replaced by an alike one
wherever it is compared.

The comparison is no total order, and rows that are not comparable need not be alike: two switches
with different words have the same priority, and a row is not comparable with any of its
beginnings. Not being comparable is not transitive either. Going before is, and so it makes sense
to ask which of several commands goes before all others.

Main results:

* `Shape.describe_inj` and `Param.alike_iff`: parameters are alike exactly if their shapes are
  equal;
* `Ranking.compareParams_eq_gt_iff_surpasses`: the comparison is decided at the first place where
  two rows are unlike;
* `Ranking.compareParams_congr`: alike rows compare alike;
* `Ranking.compareParams_trans`: going before is transitive;
* `Ranking.outranks_strict_partial_order`: all laws of the comparison.
-/

namespace CommandShell

/-! ## Shapes -/

/-- What is left of a parameter without its names and end words. -/
inductive Shape where
  | int
  | float
  | str
  | switch (word : String)
  | array (element : Shape)
deriving DecidableEq, Repr

namespace Shape

/-- The kind of the parameters of a shape. -/
def describe : Shape → String
  | .int => "int"
  | .float => "float"
  | .str => "str"
  | .switch word => "switch<" ++ word ++ ">"
  | .array element => "array<" ++ element.describe ++ ">"

/-- The rank of the parameters of a shape among unlike ones. -/
def priority : Shape → Nat
  | .str => 0
  | .float => 1
  | .int => 2
  | .switch _ => 3
  | .array _ => 4

/-- The second letter of a description. No two constructors share it. -/
def letter : Shape → Char
  | .int => 'n'
  | .float => 'l'
  | .str => 't'
  | .switch _ => 'w'
  | .array _ => 'r'

/-- Equal descriptions come of the same constructor. -/
theorem letter_eq_of_describe_eq {s t : Shape} (h : s.describe = t.describe) :
    s.letter = t.letter := by
  have hsecond : ∀ u : Shape, u.describe.toList[1]? = some u.letter := by
    intro u
    cases u <;> simp [describe, letter]
  have hst := congrArg (fun text => text.toList[1]?) h
  simp only [hsecond] at hst
  exact Option.some.inj hst

/-- **A description shows the whole shape.** -/
theorem describe_inj {s t : Shape} : s.describe = t.describe ↔ s = t := by
  refine ⟨fun h => ?_, congrArg describe⟩
  have hletter := letter_eq_of_describe_eq h
  -- the constructors are the same, and what stands between the angle brackets is the word of a
  -- switch, or the description of an element, to which the induction applies
  induction s generalizing t with
  | switch word =>
    cases t with
    | switch word' => simpa [describe] using h
    | _ => simp [letter] at hletter
  | array element ih =>
    cases t with
    | array element' =>
      have hinner : element.describe = element'.describe := by simpa [describe] using h
      rw [ih hinner (letter_eq_of_describe_eq hinner)]
    | _ => simp [letter] at hletter
  | int | float | str => cases t <;> simp [letter] at hletter ⊢

end Shape

/-- The shape of a scalar. -/
def Scalar.shape : Scalar → Shape
  | .int _ => .int
  | .float _ => .float
  | .str _ => .str
  | .switch word => .switch word

namespace Param

/-- The shape of a parameter. -/
def shape : Param → Shape
  | .scalar s => s.shape
  | .array _ element => .array element.shape

/-- A parameter is described by its shape. -/
theorem describe_shape (p : Param) : p.shape.describe = p.describe := by
  induction p with
  | scalar s => cases s <;> rfl
  | array endWord element ih => rw [shape, Shape.describe, ih, describe]

theorem priority_shape (p : Param) : p.shape.priority = p.priority := by
  cases p with
  | scalar s => cases s <;> rfl
  | array endWord element => rfl

/-- Parameters are alike exactly if they differ at most in names and end words. -/
theorem alike_iff {p q : Param} : p.alike q = true ↔ p.shape = q.shape := by
  rw [alike, beq_iff_eq, ← describe_shape, ← describe_shape, Shape.describe_inj]

theorem alike_eq_decide (p q : Param) : p.alike q = decide (p.shape = q.shape) := by
  rw [Bool.eq_iff_iff, alike_iff, decide_eq_true_eq]

/-- Alike parameters have the same priority. -/
theorem priority_eq_of_alike {p q : Param} (h : p.alike q = true) : p.priority = q.priority := by
  rw [← priority_shape, ← priority_shape, alike_iff.mp h]

end Param

/-! ## Alike rows -/

namespace Ranking

variable {ps ps' qs qs' rs : List Param}

/-- Two rows have parameters of the same kinds in the same order. -/
def Alike (ps qs : List Param) : Prop := List.Forall₂ (fun p q => p.alike q = true) ps qs

/-- Whatever it is that two parameters have to share to be alike, alike rows share it in order. -/
theorem alike_iff_map_eq {κ : Type} {f : Param → κ}
    (hf : ∀ p q : Param, p.alike q = true ↔ f p = f q) : Alike ps qs ↔ ps.map f = qs.map f := by
  rw [Alike, ← List.forall₂_eq_eq_eq, List.forall₂_map_left_iff, List.forall₂_map_right_iff]
  simp only [hf]

theorem alike_iff_map_shape : Alike ps qs ↔ ps.map Param.shape = qs.map Param.shape :=
  alike_iff_map_eq fun _ _ => Param.alike_iff

/-- A row may be replaced by an alike one on both sides of a comparison. -/
theorem compareParams_congr (hps : Alike ps ps') (hqs : Alike qs qs') :
    compareParams ps' qs' = compareParams ps qs := by
  -- along the rows: at each place the same question has the same answer
  induction hps generalizing qs qs' with
  | nil => rfl
  | @cons p p' ps ps' hp _ ih =>
    cases hqs with
    | nil => rw [compareParams_nil_right, compareParams_nil_right]
    | @cons q q' qs qs' hq hqs =>
      have halike : p'.alike q' = p.alike q := by
        rw [Param.alike_eq_decide, Param.alike_eq_decide, Param.alike_iff.mp hp,
          Param.alike_iff.mp hq]
      rw [compareParams_cons, compareParams_cons, halike, ih hqs, Param.priority_eq_of_alike hp,
        Param.priority_eq_of_alike hq]

/-- Alike beginnings do not matter. -/
theorem compareParams_append (h : Alike ps ps') (qs qs' : List Param) :
    compareParams (ps ++ qs) (ps' ++ qs') = compareParams qs qs' := by
  induction h with
  | nil => rfl
  | cons hp _ ih => rw [List.cons_append, List.cons_append, compareParams_cons, if_pos hp, ih]

theorem compareParams_of_alike (h : Alike ps qs) : compareParams ps qs = .eq := by
  have happend := compareParams_append h [] []
  rwa [List.append_nil, List.append_nil] at happend

/-- A row compares equal with what it begins alike. -/
theorem compareParams_of_alike_prefix (h : Alike ps ps') (qs : List Param) :
    compareParams ps (ps' ++ qs) = .eq := by
  have happend := compareParams_append h [] qs
  rwa [List.append_nil] at happend

/-- A row without parameters compares equal with all others, so comparing equal is not transitive:
some of them go before others. -/
example : compareParams [.scalar (.int "n")] [] = .eq ∧
    compareParams [] [.scalar (.str "s")] = .eq ∧
    compareParams [.scalar (.int "n")] [.scalar (.str "s")] = .gt := by decide

/-! ## The first difference -/

/-- One place of a comparison: a row goes before another if its parameter here has the higher
priority, or if there is no difference here and it goes before the other further on. -/
theorem compareParams_cons_eq_gt_iff {p q : Param} :
    compareParams (p :: ps) (q :: qs) = .gt ↔
      q.priority < p.priority ∨ (p.shape = q.shape ∧ compareParams ps qs = .gt) := by
  rw [compareParams_cons]
  by_cases halike : p.alike q = true
  · have hpriority : ¬ q.priority < p.priority := by
      rw [Param.priority_eq_of_alike halike]
      exact Nat.lt_irrefl _
    rw [if_pos halike]
    simp only [hpriority, Param.alike_iff.mp halike, false_or, true_and]
  · have hshape : ¬ p.shape = q.shape := fun h => halike (Param.alike_iff.mpr h)
    rw [if_neg halike, Nat.compare_eq_gt]
    simp only [hshape, false_and, or_false]

/-- Two rows begin alike, and where they first are unlike, the parameter of the first row has the
higher priority. -/
def Surpasses (ps qs : List Param) : Prop :=
  ∃ front front' p q back back', ps = front ++ p :: back ∧ qs = front' ++ q :: back' ∧
    Alike front front' ∧ q.priority < p.priority

/-- **The first difference decides.** -/
theorem compareParams_eq_gt_iff_surpasses : compareParams ps qs = .gt ↔ Surpasses ps qs := by
  constructor
  · intro h
    -- along both rows, up to the first place where they are unlike
    induction ps generalizing qs with
    | nil => cases h
    | cons p ps ih =>
      cases qs with
      | nil => cases h
      | cons q qs =>
        rcases compareParams_cons_eq_gt_iff.mp h with hlt | ⟨hshape, hrest⟩
        · exact ⟨[], [], p, q, ps, qs, rfl, rfl, .nil, hlt⟩
        · have halike : p.alike q = true := Param.alike_iff.mpr hshape
          obtain ⟨front, front', p₁, q₁, back, back', rfl, rfl, hfront, hlt⟩ := ih hrest
          exact ⟨p :: front, q :: front', p₁, q₁, back, back', rfl, rfl, .cons halike hfront, hlt⟩
  · rintro ⟨front, front', p, q, back, back', rfl, rfl, hfront, hlt⟩
    rw [compareParams_append hfront]
    exact compareParams_cons_eq_gt_iff.mpr (.inl hlt)

/-- **Going before is transitive.** -/
theorem compareParams_trans (hpq : compareParams ps qs = .gt) (hqr : compareParams qs rs = .gt) :
    compareParams ps rs = .gt := by
  -- all three rows are walked at once, and the first place where two of them differ decides
  induction ps generalizing qs rs with
  | nil => cases hpq
  | cons p ps ih =>
    cases qs with
    | nil => cases hpq
    | cons q qs =>
      cases rs with
      | nil => cases hqr
      | cons r rs =>
        rw [compareParams_cons_eq_gt_iff] at hpq hqr ⊢
        -- each of the two comparisons is decided here, or goes on behind parameters of the same
        -- shape
        rcases hpq with hpq | ⟨hpq, hps⟩
        · rcases hqr with hqr | ⟨hqr, -⟩
          · exact .inl (Nat.lt_trans hqr hpq)
          · have hpriority : q.priority = r.priority :=
              Param.priority_eq_of_alike (Param.alike_iff.mpr hqr)
            exact .inl (hpriority ▸ hpq)
        · rcases hqr with hqr | ⟨hqr, hqs⟩
          · have hpriority : p.priority = q.priority :=
              Param.priority_eq_of_alike (Param.alike_iff.mpr hpq)
            exact .inl (hpriority ▸ hqr)
          · exact .inr ⟨hpq.trans hqr, ih hps hqs⟩

theorem outranks_iff : outranks ps qs = true ↔ compareParams ps qs = .gt := beq_iff_eq

/-- To outrank is a strict order: no row outranks itself, and outranking is passed on. -/
theorem isStrictOrder_outranks : IsStrictOrder (List Param) fun ps qs => outranks ps qs = true where
  irrefl ps h := by
    have hfalse := asymmetric_outranks ps ps h
    rw [h] at hfalse
    exact Bool.noConfusion hfalse
  trans ps qs rs hpq hqr :=
    outranks_iff.mpr (compareParams_trans (outranks_iff.mp hpq) (outranks_iff.mp hqr))

/-- **Going before is a strict partial order.** One row of parameters goes before another exactly if
they begin alike up to a place where its parameter has the higher priority. Turning a comparison
around turns its result around. Rows that are alike compare equal, and so does a row with any row
that begins alike. Going before is transitive. Only the kinds of the parameters matter, so a row may
be replaced by an alike one, that is, by one that differs from it in names and end words only. -/
theorem outranks_strict_partial_order :
    (∀ ps qs, compareParams ps qs = .gt ↔ Surpasses ps qs) ∧
    (∀ ps qs, compareParams ps qs = (compareParams qs ps).swap) ∧
    (∀ ps qs, Alike ps qs → compareParams ps qs = .eq) ∧
    (∀ ps front back, Alike ps front →
      compareParams ps (front ++ back) = .eq ∧ compareParams (front ++ back) ps = .eq) ∧
    (∀ ps qs rs, compareParams ps qs = .gt → compareParams qs rs = .gt →
      compareParams ps rs = .gt) ∧
    (∀ ps ps' qs qs', Alike ps ps' → Alike qs qs' →
      compareParams ps' qs' = compareParams ps qs) ∧
    (∀ ps qs, Alike ps qs ↔ ps.map Param.shape = qs.map Param.shape) ∧
    IsStrictOrder (List Param) fun ps qs => outranks ps qs = true := by
  refine ⟨fun _ _ => compareParams_eq_gt_iff_surpasses, ?_, fun _ _ => compareParams_of_alike, ?_,
    fun _ _ _ => compareParams_trans, fun _ _ _ _ => compareParams_congr,
    fun _ _ => alike_iff_map_shape, isStrictOrder_outranks⟩
  · intro ps qs
    exact (compareParams_swap qs ps).symm
  · intro ps front back halike
    have heq := compareParams_of_alike_prefix halike back
    refine ⟨heq, ?_⟩
    rw [← compareParams_swap, heq]
    rfl

end Ranking

end CommandShell
