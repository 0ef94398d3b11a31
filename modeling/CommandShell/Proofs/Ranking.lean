import CommandShell.Resolution.Ranking
import Mathlib.Data.List.MinMax
import Mathlib.Data.List.Perm.Basic

/-!
# Leaders and contenders

The scan for a leader takes the first member that beats every other one, and the contenders are
listed in the order of the candidates. As long as no two members beat each other there is at most
one leader, so the scan says nothing about the order of the members, only about the members.
Comparing rows of parameters is such a relation: turning a comparison around turns its result
around.

Main results:

* `Ranking.leader?_eq_some_iff`: a leader stands somewhere in the list and beats all others;
* `Ranking.Leads.perm` / `Ranking.contenders_perm`: the order of a list does not matter;
* `Ranking.not_leads_iff_of_byKey`: where greater keys beat smaller ones, nobody leads exactly if
  two members share the greatest key;
* `Ranking.compareParams_swap`: the comparison of rows of parameters is antisymmetric.
-/

namespace CommandShell.Ranking

variable {α β : Type} {beats : α → α → Bool}

/-! ## Leaders -/

/-- No two members beat each other. -/
def Asymmetric (beats : α → α → Bool) : Prop := ∀ a b, beats a b = true → beats b a = false

/-- What makes a member the leader of a list. -/
def Leads (beats : α → α → Bool) (as : List α) (a : α) : Prop :=
  ∃ front back, as = front ++ a :: back ∧ ∀ b ∈ front ++ back, beats a b = true

theorem Leads.mem {as : List α} {a : α} (h : Leads beats as a) : a ∈ as := by
  obtain ⟨front, back, rfl, -⟩ := h
  exact List.mem_append_right front List.mem_cons_self

/-- The scan stops at the leader, wherever it stands: every member before it loses to it. -/
theorem leaderAfter?_of_leads (hasymm : Asymmetric beats) {seen front back : List α} {a : α}
    (h : ∀ b ∈ seen ++ front ++ back, beats a b = true) :
    leaderAfter? beats seen (front ++ a :: back) = some a := by
  -- the members that the scan has passed are those before the place where it stands
  induction front generalizing seen with
  | nil =>
    rw [List.nil_append, leaderAfter?, if_pos]
    rw [List.all_eq_true]
    simpa using h
  | cons c front ih =>
    -- `c` is beaten by `a` and so does not beat it, and the scan passes on
    have hc : beats c a = false := hasymm a c (h c (by simp))
    have hall : ¬ (seen ++ (front ++ a :: back)).all (beats c) = true := by
      intro hall
      have hca := List.all_eq_true.mp hall a (by simp)
      rw [hc] at hca
      exact Bool.noConfusion hca
    rw [List.cons_append, leaderAfter?, if_neg hall]
    apply ih
    intro b hb
    exact h b (by simpa [or_assoc, or_comm, or_left_comm] using hb)

/-- The scan finds a leader exactly if there is one. That no two members beat each other is needed:
of two that do, the scan would take the first. -/
theorem leader?_eq_some_iff (hasymm : Asymmetric beats) {as : List α} {a : α} :
    leader? beats as = some a ↔ Leads beats as a := by
  constructor
  · exact leader?_eq_some
  · rintro ⟨front, back, rfl, h⟩
    exact leaderAfter?_of_leads hasymm (by simpa using h)

/-- A leader beats all the members that are left when it is taken out. The place where it stands
does not occur in this form. -/
theorem leads_iff_perm {as : List α} {a : α} :
    Leads beats as a ↔ ∃ rest, as.Perm (a :: rest) ∧ ∀ b ∈ rest, beats a b = true := by
  constructor
  · rintro ⟨front, back, rfl, h⟩
    exact ⟨front ++ back, List.perm_middle, h⟩
  · rintro ⟨rest, hperm, h⟩
    obtain ⟨front, back, rfl⟩ := List.append_of_mem (hperm.mem_iff.mpr List.mem_cons_self)
    refine ⟨front, back, rfl, ?_⟩
    intro b hb
    -- taking out the leader from both sides leaves the same members
    have hrest : (front ++ back).Perm rest := (List.perm_middle.symm.trans hperm).cons_inv
    exact h b (hrest.mem_iff.mp hb)

/-- A leader leads every arrangement of the list. -/
theorem Leads.perm {as bs : List α} {a : α} (h : as.Perm bs) (hleads : Leads beats as a) :
    Leads beats bs a := by
  obtain ⟨rest, hperm, hbeats⟩ := leads_iff_perm.mp hleads
  exact leads_iff_perm.mpr ⟨rest, h.symm.trans hperm, hbeats⟩

/-! ## Contenders -/

/-- The members of a list that none beats. -/
def unbeaten (beats : α → α → Bool) (as : List α) : List α :=
  as.filter fun a => !as.any fun b => beats b a

theorem mem_unbeaten_iff {as : List α} {a : α} :
    a ∈ unbeaten beats as ↔ a ∈ as ∧ ∀ b ∈ as, beats b a = false := by
  simp [unbeaten, List.mem_filter]

/-- The contenders are the members that none beats, and all of them if each is beaten. -/
theorem contenders_eq_ite (beats : α → α → Bool) (as : List α) :
    contenders beats as =
      if (unbeaten beats as).isEmpty then as else unbeaten beats as :=
  rfl

/-- An arrangement of the list arranges the members that none beats. -/
theorem unbeaten_perm {as bs : List α} (h : as.Perm bs) :
    (unbeaten beats as).Perm (unbeaten beats bs) := by
  -- whether a member is beaten depends on the members only
  have hany : ∀ a, as.any (fun b => beats b a) = bs.any fun b => beats b a := by
    intro a
    rw [Bool.eq_iff_iff, List.any_eq_true, List.any_eq_true]
    simp only [h.mem_iff]
  unfold unbeaten
  simp only [hany]
  exact h.filter _

theorem contenders_perm {as bs : List α} (h : as.Perm bs) :
    (contenders beats as).Perm (contenders beats bs) := by
  rw [contenders_eq_ite, contenders_eq_ite, (unbeaten_perm h).isEmpty_eq]
  split
  · exact h
  · exact unbeaten_perm h

theorem contenders_sublist (beats : α → α → Bool) (as : List α) :
    (contenders beats as).Sublist as := by
  rw [contenders_eq_ite]
  split
  · exact List.Sublist.refl as
  · exact List.filter_sublist

/-! ## Images and parts of a list -/

/-- The scan may be made in a list or in its image, if the image keeps who beats whom. -/
theorem leader?_map {beats' : β → β → Bool} {f : α → β}
    (hf : ∀ a b, beats' (f a) (f b) = beats a b) (as : List α) :
    leader? beats' (as.map f) = (leader? beats as).map f := by
  -- the members seen before are images as well
  have hafter : ∀ seen, leaderAfter? beats' (seen.map f) (as.map f) =
      (leaderAfter? beats seen as).map f := by
    -- by the scan: what it has passed grows from the front of the list
    induction as with
    | nil => intro seen; rfl
    | cons a as ih =>
      intro seen
      have hall : (seen.map f ++ as.map f).all (beats' (f a)) = (seen ++ as).all (beats a) := by
        rw [← List.map_append, List.all_map]
        congr 1
        exact funext fun b => hf a b
      have hseen : seen.map f ++ [f a] = (seen ++ [a]).map f := by simp
      rw [List.map_cons, leaderAfter?, leaderAfter?, hall, hseen, ih]
      split <;> rfl
  exact hafter []

/-- The members of an image that none beats are the images of such members. -/
theorem unbeaten_map {beats' : β → β → Bool} {f : α → β}
    (hf : ∀ a b, beats' (f a) (f b) = beats a b) (as : List α) :
    unbeaten beats' (as.map f) = (unbeaten beats as).map f := by
  unfold unbeaten
  rw [List.filter_map]
  congr 1
  apply List.filter_congr
  intro a _
  simp [List.any_map, Function.comp_def, hf]

theorem contenders_map {beats' : β → β → Bool} {f : α → β}
    (hf : ∀ a b, beats' (f a) (f b) = beats a b) (as : List α) :
    contenders beats' (as.map f) = (contenders beats as).map f := by
  rw [contenders_eq_ite, contenders_eq_ite, unbeaten_map hf, List.isEmpty_map]
  split <;> rfl

/-- A leader of an image is the image of a leader. The image need not be injective: a member that
occurs twice is told apart by its places. -/
theorem leads_map_iff {beats' : β → β → Bool} {f : α → β}
    (hf : ∀ a b, beats' (f a) (f b) = beats a b) {as : List α} {b : β} :
    Leads beats' (as.map f) b ↔ ∃ a, Leads beats as a ∧ f a = b := by
  constructor
  · rintro ⟨front', back', hsplit, hbeats⟩
    -- the places before and after the leader are images of places in the list
    obtain ⟨front, rest, rfl, rfl, hrest⟩ := List.map_eq_append_iff.mp hsplit
    obtain ⟨a, back, rfl, rfl, rfl⟩ := List.map_eq_cons_iff.mp hrest
    refine ⟨a, ⟨front, back, rfl, ?_⟩, rfl⟩
    intro c hc
    rw [← hf]
    apply hbeats
    rw [← List.map_append]
    exact List.mem_map_of_mem hc
  · rintro ⟨a, ⟨front, back, rfl, hbeats⟩, rfl⟩
    refine ⟨front.map f, back.map f, by rw [List.map_append, List.map_cons], ?_⟩
    intro b hb
    rw [← List.map_append] at hb
    obtain ⟨c, hc, rfl⟩ := List.mem_map.mp hb
    rw [hf]
    exact hbeats c hc

/-- A member leads those with some property exactly if it has the property and beats all the others
that have it. -/
theorem leads_filter_iff {p : α → Bool} {as : List α} {a : α} :
    Leads beats (as.filter p) a ↔
      ∃ front back, as = front ++ a :: back ∧ p a = true ∧
        ∀ b ∈ front ++ back, p b = true → beats a b = true := by
  constructor
  · rintro ⟨front', back', hsplit, hbeats⟩
    obtain ⟨front, rest, rfl, rfl, hrest⟩ := List.filter_eq_append_iff.mp hsplit
    -- members that do not pass the test may stand right before the leader
    obtain ⟨dropped, back, rfl, hdropped, ha, rfl⟩ := List.filter_eq_cons_iff.mp hrest
    refine ⟨front ++ dropped, back, by rw [List.append_assoc], ha, ?_⟩
    intro b hb hpb
    apply hbeats
    rw [List.append_assoc, List.mem_append, List.mem_append] at hb
    rcases hb with hb | hb | hb
    · exact List.mem_append_left _ (List.mem_filter.mpr ⟨hb, hpb⟩)
    · exact absurd hpb (hdropped b hb)
    · exact List.mem_append_right _ (List.mem_filter.mpr ⟨hb, hpb⟩)
  · rintro ⟨front, back, rfl, ha, hbeats⟩
    refine ⟨front.filter p, back.filter p, ?_, ?_⟩
    · rw [List.filter_append, List.filter_cons_of_pos ha]
    · intro b hb
      rw [← List.filter_append] at hb
      obtain ⟨hmem, hpb⟩ := List.mem_filter.mp hb
      exact hbeats b hmem hpb

/-- Of two members of a list with some property, one is left when a member is taken out. -/
theorem exists_mem_of_pair_sublist {p : α → Bool} {as rest : List α} {a b m : α}
    (hpair : [a, b].Sublist as) (ha : p a = true) (hb : p b = true) (hperm : as.Perm (m :: rest)) :
    ∃ e ∈ rest, p e = true := by
  -- counted, and not looked up: the two may be equal, and so may be the one that is taken out
  have htwo : 2 ≤ as.countP p := by
    have hle := hpair.countP_le (p := p)
    simpa [List.countP_cons, ha, hb] using hle
  have hrest : as.countP p ≤ rest.countP p + 1 := by
    rw [hperm.countP_eq, List.countP_cons]
    split <;> omega
  exact List.countP_pos_iff.mp (by omega)

/-! ## Members with keys

If one member beats another exactly if its key is greater, the members of the greatest key decide:
a single one leads, and several are the contenders. -/

section Keys

variable {κ : Type} [LinearOrder κ] {key : α → κ} {as : List α}

/-- Among the members of a list, one beats another exactly if its key is greater. -/
def ByKey (beats : α → α → Bool) (key : α → κ) (as : List α) : Prop :=
  ∀ a ∈ as, ∀ b ∈ as, (beats a b = true ↔ key b < key a)

/-- A list with members has one of the greatest key. -/
theorem exists_greatest (key : α → κ) (hne : as ≠ []) : ∃ m ∈ as, ∀ a ∈ as, key a ≤ key m := by
  cases hmax : as.argmax key with
  | none => exact absurd (List.argmax_eq_none.mp hmax) hne
  | some m => exact ⟨m, List.argmax_mem hmax, fun a ha => List.le_of_mem_argmax ha hmax⟩

/-- None beats a member exactly if its key is the greatest. -/
theorem unbeaten_of_byKey (hkey : ByKey beats key as) {m : α} (hm : m ∈ as)
    (hmax : ∀ a ∈ as, key a ≤ key m) :
    unbeaten beats as = as.filter fun a => key a = key m := by
  apply List.filter_congr
  intro a ha
  rw [Bool.eq_iff_iff, Bool.not_eq_true', List.any_eq_false, decide_eq_true_eq]
  constructor
  · intro hnone
    -- a greatest member does not beat it
    have hle : ¬ key a < key m := fun hlt => hnone m hm ((hkey m hm a ha).mpr hlt)
    exact le_antisymm (hmax a ha) (not_lt.mp hle)
  · intro heq b hb hbeats
    have hlt := (hkey b hb a ha).mp hbeats
    rw [heq] at hlt
    exact absurd hlt (not_lt.mpr (hmax b hb))

/-- The contenders are the members of the greatest key. There is such a member, so the list is never
taken as a whole. -/
theorem contenders_of_byKey (hkey : ByKey beats key as) {m : α} (hm : m ∈ as)
    (hmax : ∀ a ∈ as, key a ≤ key m) :
    contenders beats as = as.filter fun a => key a = key m := by
  have hmem : m ∈ as.filter fun a => key a = key m := List.mem_filter.mpr ⟨hm, by simp⟩
  have hne : (as.filter fun a => key a = key m).isEmpty = false := by
    rw [List.isEmpty_eq_false_iff]
    exact List.ne_nil_of_mem hmem
  rw [contenders_eq_ite, unbeaten_of_byKey hkey hm hmax, hne]
  rfl

/-- The leader has a greater key than all the others. -/
theorem leads_iff_of_byKey (hkey : ByKey beats key as) {a : α} :
    Leads beats as a ↔
      ∃ front back, as = front ++ a :: back ∧ ∀ b ∈ front ++ back, key b < key a := by
  refine exists_congr fun front => exists_congr fun back => and_congr_right ?_
  rintro rfl
  -- the keys tell of members only, and those before and after the leader are
  refine forall₂_congr fun b hb => hkey a (by simp) b ?_
  exact List.perm_middle.mem_iff.mpr (List.mem_cons_of_mem a hb)

/-- There is no leader exactly if two places hold members of the greatest key. -/
theorem not_leads_iff_of_byKey (hkey : ByKey beats key as) (hne : as ≠ []) :
    (¬ ∃ a, Leads beats as a) ↔
      ∃ a b, [a, b].Sublist as ∧ key a = key b ∧ ∀ e ∈ as, key e ≤ key a := by
  constructor
  · intro hnone
    obtain ⟨m, hm, hmax⟩ := exists_greatest key hne
    obtain ⟨front, back, rfl⟩ := List.append_of_mem hm
    -- a greatest member does not lead, so there is another one that it does not beat
    obtain ⟨b, hb, hbeats⟩ : ∃ b ∈ front ++ back, ¬ beats m b = true := by
      by_contra hall
      push Not at hall
      exact hnone ⟨m, front, back, rfl, hall⟩
    have hmem : b ∈ front ++ m :: back :=
      List.perm_middle.mem_iff.mpr (List.mem_cons_of_mem m hb)
    have hle : ¬ key b < key m := fun hlt => hbeats ((hkey m hm b hmem).mpr hlt)
    have heq : key b = key m := le_antisymm (hmax b hmem) (not_lt.mp hle)
    -- the other one stands before or after, and the two are named in the order of the list
    rcases List.mem_append.mp hb with hfront | hback
    · refine ⟨b, m, ?_, heq, fun e he => heq ▸ hmax e he⟩
      have hpair := (List.singleton_sublist.mpr hfront).append
        (List.singleton_sublist.mpr (List.mem_cons_self (a := m) (l := back)))
      exact hpair
    · refine ⟨m, b, ?_, heq.symm, hmax⟩
      have hpair := (List.singleton_sublist.mpr hback).cons_cons m
      exact hpair.trans (List.sublist_append_right front (m :: back))
  · rintro ⟨a, b, hpair, heq, hmax⟩ ⟨l, hleads⟩
    obtain ⟨rest, hperm, hbeats⟩ := leads_iff_perm.mp hleads
    have hl : l ∈ as := hperm.mem_iff.mpr List.mem_cons_self
    -- besides the leader, another member has the greatest key
    obtain ⟨e, he, hkeye⟩ : ∃ e ∈ rest, decide (key e = key a) = true :=
      exists_mem_of_pair_sublist hpair (decide_eq_true rfl) (decide_eq_true heq.symm) hperm
    have hmem : e ∈ as := hperm.mem_iff.mpr (List.mem_cons_of_mem l he)
    have hlt : key e < key l := (hkey l hl e hmem).mp (hbeats e he)
    rw [of_decide_eq_true hkeye] at hlt
    exact absurd hlt (not_lt.mpr (hmax l hl))

end Keys

/-! ## Comparing rows of parameters -/

theorem alike_comm (p q : Param) : p.alike q = q.alike p := by
  rw [Param.alike, Param.alike, Bool.beq_comm]

theorem compareParams_nil_right (ps : List Param) : compareParams ps [] = .eq := by
  rw [compareParams, List.zip_nil_right]
  rfl

/-- Parameters that are alike are passed over, and the first two that are not decide by their
priority. -/
theorem compareParams_cons (p q : Param) (ps qs : List Param) :
    compareParams (p :: ps) (q :: qs) =
      if p.alike q then compareParams ps qs else compare p.priority q.priority := by
  rw [compareParams, List.zip_cons_cons, List.find?_cons]
  cases p.alike q <;> rfl

/-- A comparison from the other side has the opposite result. -/
theorem compareParams_swap (ps qs : List Param) :
    (compareParams ps qs).swap = compareParams qs ps := by
  induction ps generalizing qs with
  | nil =>
    rw [compareParams_nil_right]
    rfl
  | cons p ps ih =>
    cases qs with
    | nil =>
      rw [compareParams_nil_right]
      rfl
    | cons q qs =>
      rw [compareParams_cons, compareParams_cons, alike_comm q p]
      -- either both comparisons pass on, or both end here
      split
      · exact ih qs
      · exact Nat.compare_swap _ _

/-- No two rows go before each other. -/
theorem asymmetric_outranks : Asymmetric outranks := by
  intro ps qs h
  unfold outranks at h ⊢
  rw [← compareParams_swap ps qs, eq_of_beq h]
  rfl

end CommandShell.Ranking
