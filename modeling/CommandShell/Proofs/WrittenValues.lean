import CommandShell.Proofs.Locality
import CommandShell.Proofs.SingleArgument
import CommandShell.Value.Printer

/-!
# Written values

A value can be written down as an argument for a parameter: a list as its items one after the other
and then the end word of its array, anything else as the single word that shows it to readers. What
is written this way is read back, unless some item begins with the end word of the array that it is
an item of. Such an item closes the array instead, and the value is not read back at all. An empty
list begins with its own end word, so it can be an item if the array around it has another one.

Integers below zero are left out because no word is read as one. Double-precision numbers are left
out as well: whether a decimal that shows one is read as the same number is a question about
decimals and not about arguments.

Main definitions:

* `Param.Expresses`: the values that can be written for a parameter;
* `Param.written`: the words that write a value;
* `Param.Separates`: no item begins with the end word of its array.

Main results:

* `Param.derives_phrase`: the words that write a value with separated items are a phrase of it;
* `Param.separates_of_derives`: if the words that write a value are a phrase of it, its items are
  separated;
* `Param.readAt_written_iff`: which written values are read back, and which command they call.
-/

namespace CommandShell

namespace Param

/-- The values that can be written for a parameter. Texts are not restricted, they may be empty or
have blanks in them. -/
inductive Expresses : Param → Value → Prop where
  | int {name : String} {n : Int64} (nonneg : 0 ≤ n.toInt) :
      Expresses (.scalar (.int name)) (.int n)
  | str {name text : String} : Expresses (.scalar (.str name)) (.str text)
  | switch {word : String} : Expresses (.scalar (.switch word)) (.str word)
  | list {endWord : String} {element : Param} {items : List Value}
      (expressed : ∀ v ∈ items, Expresses element v) :
      Expresses (.array endWord element) (.list items)

/-- The words that write a value for a parameter. -/
def written : Param → Value → List String
  | .array endWord element, .list items => items.flatMap element.written ++ [endWord]
  | _, v => [v.display]

/-- No item of a list begins with the end word of the array that the list is written for, and the
same holds within each item. -/
def Separates : Param → Value → Prop
  | .array endWord element, .list items =>
    ∀ v ∈ items, (element.written v).head? ≠ some endWord ∧ element.Separates v
  | _, _ => True

instance decidableSeparates : (p : Param) → (v : Value) → Decidable (p.Separates v)
  | .array _ element, .list items =>
    have (v : Value) : Decidable (element.Separates v) := decidableSeparates element v
    inferInstanceAs (Decidable (∀ v ∈ items, _ ∧ _))
  | .scalar _, _ | .array _ _, .int _ | .array _ _, .float _ | .array _ _, .str _ => .isTrue trivial

variable {p element : Param} {endWord : String} {v : Value} {items : List Value} {t : Phrase}

theorem written_array :
    (array endWord element).written (.list items) = items.flatMap element.written ++ [endWord] :=
  rfl

/-- The items of a list are separated if none begins with the end word, and neither do theirs. -/
theorem separates_array :
    (array endWord element).Separates (.list items) ↔
      ∀ v ∈ items, (element.written v).head? ≠ some endWord ∧ element.Separates v :=
  Iff.rfl

/-! ## The phrase of a written value -/

/-- The derivation of a written value. -/
def phrase : Param → Value → Phrase
  | .scalar s, v => .word s v.display
  | .array endWord element, .list items => .items (items.map element.phrase) endWord
  | .array endWord _, _ => .items [] endWord

theorem phrase_array :
    (array endWord element).phrase (.list items) = .items (items.map element.phrase) endWord :=
  rfl

/-- The words of the derivation are those that write the value. -/
theorem words_phrase (hv : p.Expresses v) : (p.phrase v).words = p.written v := by
  -- along the value, item by item
  induction hv with
  | int | str | switch => rfl
  | list _ ih =>
    rw [phrase_array, written_array, Phrase.words_items, List.flatMap_map]
    congr 1
    exact List.flatMap_congr ih

/-- An integer that is not negative is shown as the numeral that spells it. -/
theorem spells_display {n : Int64} (h : 0 ≤ n.toInt) :
    Numeral.Spells (Value.int n).display.toList n.toInt.toNat := by
  have hdisplay : (Value.int n).display = toString n.toInt.toNat := by
    obtain ⟨m, hm⟩ := Int.eq_ofNat_of_zero_le h
    show toString n.toInt = toString n.toInt.toNat
    rw [hm]
    rfl
  rw [hdisplay]
  exact Numeral.spells_toString _

/-- No integer is larger than the largest one. -/
theorem toNat_toInt_le_maxInt (n : Int64) : n.toInt.toNat ≤ Scalar.maxInt := by
  have hlt := Int64.toInt_lt n
  unfold Scalar.maxInt
  omega

/-- The derivation stands for the value that was written. -/
theorem value_phrase (hv : p.Expresses v) : (p.phrase v).value = v := by
  induction hv with
  | @int name n nonneg =>
    -- the numeral is read as the number that it spells, and no other integer is that number
    obtain ⟨i, hvalue, hi⟩ : ∃ i : Int64, (Scalar.int name).value (Value.int n).display = .int i ∧
        i.toInt = n.toInt.toNat :=
      Scalar.value_int_of_spells (spells_display nonneg) (toNat_toInt_le_maxInt n)
    rw [Int.toNat_of_nonneg nonneg, Int64.toInt_inj] at hi
    exact hvalue.trans (congrArg Value.int hi)
  | str | switch => rfl
  | list _ ih =>
    rw [phrase_array, Phrase.value_items, List.map_map]
    congr 1
    exact (List.map_congr_left ih).trans (List.map_id _)

/-- **What is written is a phrase.** -/
theorem derives_phrase (hv : p.Expresses v) (hseparates : p.Separates v) :
    p.Derives (p.phrase v) := by
  -- along the value: the words of each item begin as they must, because the items are separated
  induction hv with
  | @int name n nonneg =>
    have hle := toNat_toInt_le_maxInt n
    exact .word (Scalar.accepts_int_iff.mpr ⟨_, spells_display nonneg, hle⟩)
  | str => exact .word rfl
  | switch => exact .word (beq_self_eq_true _)
  | list expressed ih =>
    rw [separates_array] at hseparates
    refine .items ?_ ?_
    · intro t ht
      obtain ⟨v, hv, rfl⟩ := List.mem_map.mp ht
      exact ih v hv (hseparates v hv).2
    · intro t ht
      obtain ⟨v, hv, rfl⟩ := List.mem_map.mp ht
      rw [words_phrase (expressed v hv)]
      exact (hseparates v hv).1

/-! ## Phrases that write their value -/

theorem flatMap_value_written (ts : List Phrase) :
    (ts.map Phrase.value).flatMap element.written = ts.flatMap fun t => element.written t.value :=
  List.flatMap_map _ _ _

/-- A value is written in as many words as it can be read from. -/
theorem length_written_value (ht : p.Derives t) : (p.written t.value).length = t.words.length := by
  -- along the phrase; its words may differ from those that are written, but not their number
  induction ht with
  | word => rfl
  | items _ _ ih =>
    rw [Phrase.value_items, written_array, Phrase.words_items, flatMap_value_written,
      List.length_append, List.length_append, List.length_flatMap, List.length_flatMap,
      List.map_congr_left ih]

/-- Rows that are equal as a whole are equal part by part, if the parts are as long. -/
theorem eq_of_flatMap_eq {f g : Phrase → List String} {ts : List Phrase}
    (hlength : ∀ t ∈ ts, (f t).length = (g t).length) (h : ts.flatMap f = ts.flatMap g) :
    ∀ t ∈ ts, f t = g t := by
  -- along the parts, each of which is cut off by its length
  induction ts with
  | nil => exact fun t ht => absurd ht List.not_mem_nil
  | cons t ts ih =>
    rw [List.flatMap_cons, List.flatMap_cons] at h
    obtain ⟨hfirst, hrest⟩ := List.append_inj h (hlength t List.mem_cons_self)
    exact List.forall_mem_cons.mpr
      ⟨hfirst, ih (fun u hu => hlength u (List.mem_cons_of_mem t hu)) hrest⟩

/-- **Only separated items are written as phrases.** -/
theorem separates_of_derives (ht : p.Derives t) (hwords : p.written t.value = t.words) :
    p.Separates t.value := by
  induction ht with
  | word => trivial
  | @items endWord element ts derived notEnd ih =>
    rw [Phrase.value_items, written_array, Phrase.words_items, flatMap_value_written] at hwords
    -- the words of each item are those that write its value, and none begins with the end word
    have hitems : ∀ t ∈ ts, element.written t.value = t.words :=
      eq_of_flatMap_eq (fun t ht => length_written_value (derived t ht))
        (List.append_cancel_right hwords)
    rw [Phrase.value_items, separates_array]
    intro v hv
    obtain ⟨t, ht, rfl⟩ := List.mem_map.mp hv
    refine ⟨?_, ih t ht (hitems t ht)⟩
    rw [hitems t ht]
    exact notEnd t ht

/-- A value that is read back from its words is separated. -/
theorem separates_of_readAt {front back : List String}
    (h : p.readAt (front ++ p.written v ++ back) front.length =
      .ok (v, front.length + (p.written v).length)) : p.Separates v := by
  obtain ⟨t, ht, hbegins, rfl, hend⟩ := readAt_eq_ok_iff.mp h
  rw [List.append_assoc, List.drop_left] at hbegins
  -- both are the first words behind the front, and there are as many of them
  have hlength : t.words.length = (p.written t.value).length := (Nat.add_left_cancel hend).symm
  have hwritten := List.prefix_of_prefix_length_le (List.prefix_append _ back) hbegins
    (Nat.le_of_eq hlength.symm)
  exact separates_of_derives ht (hwritten.eq_of_length hlength.symm)

/-! ## Reading back -/

/-- An array goes before whatever begins with a scalar. -/
theorem compareParams_array_scalar (s : Scalar) (ps qs : List Param) :
    Ranking.compareParams (array endWord element :: ps) (scalar s :: qs) = .gt := by
  refine Ranking.compareParams_cons_eq_gt_iff.mpr (.inl ?_)
  show s.priority < 4
  cases s <;> simp [Scalar.priority]

theorem written_ne_nil (p : Param) (v : Value) : p.written v ≠ [] := by
  cases p with
  | scalar s => exact List.cons_ne_nil _ _
  | array endWord element => cases v <;> simp [written]

/-- An array goes before all commands that take words and do not begin with an array. -/
theorem compareParams_array_of_fits {d : Command} {keyword : String} {words : List String}
    (hfits : d.Fits (keyword :: words)) (hne : words ≠ [])
    (hfirst : ∀ endWord' element' ps, d.params ≠ array endWord' element' :: ps) :
    Ranking.compareParams [array endWord element] d.params = .gt := by
  obtain ⟨ts, hts, hwords⟩ := Command.fits_cons_iff.mp hfits
  cases hparams : d.params with
  | nil =>
    -- a command without parameters fits the keyword alone
    rw [hparams] at hts
    cases hts
    exact absurd hwords.symm hne
  | cons q qs =>
    cases q with
    | scalar s => exact compareParams_array_scalar s [] qs
    | array endWord' element' => exact absurd hparams (hfirst endWord' element' qs)

/-- **Written values are read back.** A value that can be written for a parameter is read back from
its words in any surroundings exactly if none of its items, at any depth, begins with the end word
of its array. A command that has an array as its only parameter is then called with the list when
its keyword and the words of the list are given, if it is the only command of the keyword, and also
if no other one that fits begins with an array. -/
theorem readAt_written_iff (hv : p.Expresses v) :
    (p.Separates v ↔ ∀ front back, p.readAt (front ++ p.written v ++ back) front.length =
      .ok (v, front.length + (p.written v).length)) ∧
    ∀ endWord element, p = .array endWord element → p.Separates v →
      ∀ (catalog : Catalog) (keyword : String) (c : Command) (before behind : List Command),
        c.params = [p] → catalog.overloads keyword = before ++ c :: behind →
        (∀ d ∈ before ++ behind, d.Fits (keyword :: p.written v) →
          ∀ endWord' element' ps, d.params ≠ .array endWord' element' :: ps) →
        catalog.resolve (keyword :: p.written v) = .ok ⟨c, [v]⟩ := by
  refine ⟨⟨?_, fun h => separates_of_readAt (h [] [])⟩, ?_⟩
  · intro hseparates front back
    have hread := readAt_append_of_derives (derives_phrase hv hseparates) front back
    rwa [words_phrase hv, value_phrase hv] at hread
  · intro endWord element hp hseparates catalog keyword c before behind hparams hover hothers
    have hwords := words_phrase hv
    -- the words are a phrase, so the command is called unless another one stands in its way
    have hcall := Catalog.resolve_of_derives hparams (derives_phrase hv hseparates)
      (List.Perm.of_eq hover)
    rw [hwords, value_phrase hv] at hcall
    apply hcall
    intro d hd hfits
    rw [hparams, hp]
    exact compareParams_array_of_fits hfits (written_ne_nil p v) (hothers d hd hfits)

/-- A parameter for lists of rows of integers. -/
def rows : Param := .array "all" (.array ";" (.scalar (.int "n")))

/-- Two rows, and the second one is empty. -/
def someRows : Value := .list [.list [.int 1, .int 20], .list []]

/-- The rows are read back although the empty one begins with an end word, and they call their
command although five texts would do as well. -/
theorem readAt_written_iff_rows :
    rows.Expresses someRows ∧ rows.written someRows = ["1", "20", ";", ";", "all"] ∧
    (∀ front back, rows.readAt (front ++ rows.written someRows ++ back) front.length =
      .ok (someRows, front.length + 5)) ∧
    (Catalog.mk [.silent "put" (List.replicate 5 (.scalar (.str "s"))),
      .silent "put" [rows]]).resolve ["put", "1", "20", ";", ";", "all"] =
        .ok ⟨.silent "put" [rows], [someRows]⟩ := by
  have hexpresses : rows.Expresses someRows := by
    refine .list (List.forall_mem_cons.mpr ⟨.list ?_, List.forall_mem_singleton.mpr (.list ?_)⟩)
    · exact List.forall_mem_cons.mpr
        ⟨.int (by decide), List.forall_mem_singleton.mpr (.int (by decide))⟩
    · exact fun v hv => absurd hv List.not_mem_nil
  have hseparates : rows.Separates someRows := by decide +kernel
  obtain ⟨hread, hcall⟩ := readAt_written_iff hexpresses
  refine ⟨hexpresses, by decide +kernel, hread.mp hseparates, ?_⟩
  refine hcall "all" _ rfl hseparates _ "put" _ [_] [] rfl rfl ?_
  rintro d hd - endWord element ps heq
  obtain rfl := List.mem_singleton.mp hd
  simp [Command.silent] at heq

end Param

end CommandShell
