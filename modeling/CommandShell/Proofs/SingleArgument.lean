import CommandShell.Proofs.Numerals
import CommandShell.Proofs.Precedence
import CommandShell.Proofs.RegistrationOrder

/-!
# Commands with one parameter

A command with a single parameter fits a line exactly if what comes after the keyword is a phrase of
the parameter. It is called if the other commands of the keyword that fit do not stand in its way,
and for single words this comes down to priorities.

A keyword may have one command for integers, one for double-precision numbers and one for texts. A
word then finds the narrowest of them that takes it: digits that fit into an integer are an integer,
other digits and decimals are a double-precision number, and any other word is a text. Nothing is
refused, and the order in which the commands were registered is of no account.

Main results:

* `Catalog.resolve_of_derives`: the call of a command with one parameter;
* `Catalog.resolve_word`: the call among commands that take a single word;
* `Catalog.resolve_number`: which words are numbers, and which command they call.
-/

namespace CommandShell

/-! ## One phrase -/

namespace Command

variable {c : Command} {p : Param} {t : Phrase} {keyword word : String}

theorem deriveRow_of_derives (hparams : c.params = [p]) (ht : p.Derives t) :
    Param.DeriveRow c.params [t] t.words := by
  rw [hparams]
  exact ⟨.cons ht .nil, List.append_nil _⟩

/-- A command with one parameter fits the phrases of that. -/
theorem fits_of_derives (hparams : c.params = [p]) (ht : p.Derives t) :
    c.Fits (keyword :: t.words) :=
  fits_cons_iff.mpr ⟨[t], deriveRow_of_derives hparams ht⟩

theorem values_trial_of_derives (hparams : c.params = [p]) (ht : p.Derives t) :
    (c.trial (keyword :: t.words)).values = [t.value] := by
  rw [trial_of_deriveRow (deriveRow_of_derives hparams ht)]
  rfl

/-- A command with a scalar as its only parameter fits a single word only if the scalar takes it. -/
theorem accepts_of_fits {s : Scalar} (hparams : c.params = [.scalar s])
    (hfits : c.Fits [keyword, word]) : s.accepts word = true := by
  obtain ⟨ts, hts, hwords⟩ := fits_cons_iff.mp hfits
  rw [hparams] at hts
  cases hts with
  | cons ht hnil =>
    cases hnil
    cases ht with
    | word hs =>
      obtain ⟨rfl, -⟩ := List.cons.inj hwords
      exact hs

end Command

namespace Catalog

variable {catalog : Catalog} {keyword word : String} {c : Command} {front back : List Command}

/-- A command that takes a phrase as its only argument is called with its value, if it goes before
all other commands of the keyword that fit. -/
theorem resolve_of_derives {p : Param} {t : Phrase} (hparams : c.params = [p]) (ht : p.Derives t)
    (hover : (catalog.overloads keyword).Perm (front ++ c :: back))
    (hothers : ∀ d ∈ front ++ back, d.Fits (keyword :: t.words) →
      Ranking.compareParams c.params d.params = .gt) :
    catalog.resolve (keyword :: t.words) = .ok ⟨c, [t.value]⟩ := by
  have hleads : Ranking.Leads Command.beats
      ((front ++ c :: back).filter fun d => d.Fits (keyword :: t.words)) c := by
    refine Ranking.leads_filter_iff.mpr ⟨front, back, rfl, ?_, ?_⟩
    · exact decide_eq_true (Command.fits_of_derives hparams ht)
    · intro d hd hfits
      exact Command.beats_iff.mpr (hothers d hd (of_decide_eq_true hfits))
  refine resolve_eq_ok_iff.mpr ⟨keyword, rfl, ?_, ?_⟩
  · exact hleads.perm (hover.symm.filter _)
  · exact (Command.values_trial_of_derives hparams ht).symm

/-- Among commands that take a single word, the one of the highest priority that takes it is
called. -/
theorem resolve_word {s : Scalar} (hparams : c.params = [.scalar s]) (hs : s.accepts word = true)
    (hover : (catalog.overloads keyword).Perm (front ++ c :: back))
    (hothers : ∀ d ∈ front ++ back, ∃ r : Scalar, d.params = [.scalar r] ∧
      (r.accepts word = true → r.priority < s.priority)) :
    catalog.resolve [keyword, word] = .ok ⟨c, [s.value word]⟩ := by
  -- whoever else fits takes the word as well, and has the lower priority then
  refine resolve_of_derives hparams (.word hs) hover ?_
  intro d hd hfits
  obtain ⟨r, hdparams, hlt⟩ := hothers d hd
  rw [hparams, hdparams]
  have hr : r.accepts word = true := Command.accepts_of_fits hdparams hfits
  exact Ranking.compareParams_cons_eq_gt_iff.mpr (.inl (hlt hr))

/-! ## Numbers -/

/-- A keyword has three commands, in any order: one that takes a text, one that takes a
double-precision number and one that takes an integer. -/
structure TellsNumbers (catalog : Catalog) (keyword : String) (text fractional whole : Command) :
    Prop where
  overloads : (catalog.overloads keyword).Perm [text, fractional, whole]
  text : ∃ name, text.params = [.scalar (.str name)]
  fractional : ∃ name, fractional.params = [.scalar (.float name)]
  whole : ∃ name, whole.params = [.scalar (.int name)]

namespace TellsNumbers

variable {text fractional whole : Command} {n : Nat}

/-- A numeral up to the largest integer calls the command for integers. -/
theorem resolve_whole (h : catalog.TellsNumbers keyword text fractional whole)
    (hn : Numeral.Spells word.toList n) (hle : n ≤ Scalar.maxInt) :
    ∃ i : Int64, i.toInt = n ∧ catalog.resolve [keyword, word] = .ok ⟨whole, [.int i]⟩ := by
  obtain ⟨hover, ⟨r, htext⟩, ⟨s, hfractional⟩, ⟨t, hwhole⟩⟩ := h
  have hs : (Scalar.int t).accepts word = true := Scalar.accepts_int_iff.mpr ⟨n, hn, hle⟩
  have hsplit : (catalog.overloads keyword).Perm ([text, fractional] ++ whole :: []) := hover
  obtain ⟨i, hvalue, hi⟩ : ∃ i : Int64, (Scalar.int t).value word = .int i ∧ i.toInt = n :=
    Scalar.value_int_of_spells hn hle
  refine ⟨i, hi, ?_⟩
  rw [← hvalue]
  -- the other two have lower priorities, whether or not they take the word
  refine resolve_word hwhole hs hsplit ?_
  rw [List.append_nil, List.forall_mem_cons, List.forall_mem_singleton]
  exact ⟨⟨_, htext, fun _ => Nat.zero_lt_two⟩, ⟨_, hfractional, fun _ => Nat.one_lt_two⟩⟩

/-- Anything else of decimal form calls the command for double-precision numbers. -/
theorem resolve_fractional (h : catalog.TellsNumbers keyword text fractional whole)
    (hsmall : ¬ ∃ n, Numeral.Spells word.toList n ∧ n ≤ Scalar.maxInt)
    (hform : Numeral.HasDecimalForm word.toList) :
    catalog.resolve [keyword, word] =
      .ok ⟨fractional, [.float (Numeral.toBinary64 word.toList)]⟩ := by
  obtain ⟨hover, ⟨r, htext⟩, ⟨s, hfractional⟩, ⟨t, hwhole⟩⟩ := h
  have hs : (Scalar.float s).accepts word = true := Scalar.accepts_float_iff.mpr hform
  have hsplit : (catalog.overloads keyword).Perm ([text] ++ fractional :: [whole]) := hover
  refine resolve_word hfractional hs hsplit ?_
  rw [List.singleton_append, List.forall_mem_cons, List.forall_mem_singleton]
  -- the command for texts has a lower priority, and the one for integers does not take the word
  refine ⟨⟨_, htext, fun _ => Nat.zero_lt_one⟩, ⟨_, hwhole, fun hint => ?_⟩⟩
  exact absurd (Scalar.accepts_int_iff.mp hint) hsmall

/-- A word that is not of decimal form calls the command for texts. -/
theorem resolve_text (h : catalog.TellsNumbers keyword text fractional whole)
    (hform : ¬ Numeral.HasDecimalForm word.toList) :
    catalog.resolve [keyword, word] = .ok ⟨text, [.str word]⟩ := by
  obtain ⟨hover, ⟨r, htext⟩, ⟨s, hfractional⟩, ⟨t, hwhole⟩⟩ := h
  have hs : (Scalar.str r).accepts word = true := rfl
  have hsplit : (catalog.overloads keyword).Perm ([] ++ text :: [fractional, whole]) := hover
  refine resolve_word htext hs hsplit ?_
  rw [List.nil_append, List.forall_mem_cons, List.forall_mem_singleton]
  -- whatever is taken for a number has decimal form
  have hfloat : ¬ (Scalar.float s).accepts word = true :=
    fun hfloat => hform (Scalar.accepts_float_iff.mp hfloat)
  refine ⟨⟨_, hfractional, fun h => absurd h hfloat⟩, ⟨_, hwhole, fun hint => ?_⟩⟩
  exact absurd (Scalar.accepts_float_of_int hint) hfloat

/-- Every word calls one of the three. -/
theorem exists_call (h : catalog.TellsNumbers keyword text fractional whole) (word : String) :
    ∃ call, catalog.resolve [keyword, word] = .ok call := by
  by_cases hform : Numeral.HasDecimalForm word.toList
  · by_cases hsmall : ∃ n, Numeral.Spells word.toList n ∧ n ≤ Scalar.maxInt
    · obtain ⟨n, hn, hle⟩ := hsmall
      obtain ⟨i, -, hcall⟩ := h.resolve_whole hn hle
      exact ⟨_, hcall⟩
    · exact ⟨_, h.resolve_fractional hsmall hform⟩
  · exact ⟨_, h.resolve_text hform⟩

end TellsNumbers

/-- **A word that may be a number calls the narrowest command that takes it.** A parameter for an
integer takes the numerals up to the largest integer and makes the number of them that they spell; a
parameter for a double-precision number takes what has decimal form, all these numerals included. If
a keyword has one command for each of the two and one for texts, then a numeral up to the largest
integer calls the first with its number, anything else of decimal form, any larger numeral included,
the second, and any other word the third with the word itself. No word is refused. -/
theorem resolve_number :
    (∀ name word, (Scalar.int name).accepts word = true ↔
      ∃ n, Numeral.Spells word.toList n ∧ n ≤ 9223372036854775807) ∧
    (∀ name word n, Numeral.Spells word.toList n → n ≤ 9223372036854775807 →
      ∃ i : Int64, (Scalar.int name).convert? word = some (.int i) ∧ i.toInt = n) ∧
    (∀ name word, (Scalar.float name).accepts word = true ↔
      Numeral.HasDecimalForm word.toList) ∧
    (∀ name name' word, (Scalar.int name).accepts word = true →
      (Scalar.float name').accepts word = true) ∧
    ∀ (catalog : Catalog) (keyword : String) (text fractional whole : Command),
      catalog.TellsNumbers keyword text fractional whole → ∀ word,
        (∀ n, Numeral.Spells word.toList n → n ≤ 9223372036854775807 → ∃ i : Int64, i.toInt = n ∧
          catalog.resolve [keyword, word] = .ok ⟨whole, [.int i]⟩) ∧
        ((¬ ∃ n, Numeral.Spells word.toList n ∧ n ≤ 9223372036854775807) →
          Numeral.HasDecimalForm word.toList → catalog.resolve [keyword, word] =
            .ok ⟨fractional, [.float (Numeral.toBinary64 word.toList)]⟩) ∧
        (∀ n, Numeral.Spells word.toList n → 9223372036854775807 < n →
          catalog.resolve [keyword, word] =
            .ok ⟨fractional, [.float (Numeral.toBinary64 word.toList)]⟩) ∧
        (¬ Numeral.HasDecimalForm word.toList →
          catalog.resolve [keyword, word] = .ok ⟨text, [.str word]⟩) ∧
        ∃ call, catalog.resolve [keyword, word] = .ok call := by
  refine ⟨fun _ _ => Scalar.accepts_int_iff, ?_, fun _ _ => Scalar.accepts_float_iff,
    fun _ _ _ => Scalar.accepts_float_of_int, ?_⟩
  · intro name word n hn hle
    exact Scalar.convert?_int_of_spells hn hle
  · intro catalog keyword text fractional whole h word
    refine ⟨fun n => h.resolve_whole, h.resolve_fractional, ?_, h.resolve_text, h.exists_call word⟩
    -- a numeral spells one number only, so it is not one up to the largest integer as well
    intro n hn hlarge
    refine h.resolve_fractional ?_ (.inl ⟨n, hn⟩)
    rintro ⟨m, hm, hle⟩
    obtain rfl := hm.unique hn
    exact absurd hlarge (Nat.not_lt.mpr hle)

/-- A keyword with a command for each form that a word can have. -/
def measures : Catalog :=
  ⟨[.silent "n" [.scalar (.int "i")], .silent "n" [.scalar (.str "s")],
    .silent "n" [.scalar (.float "f")]]⟩

/-- The largest integer is one also with zeros in front of it, the number after it is not, and a
point without digits behind it makes a text. -/
theorem resolve_number_bounds :
    measures.TellsNumbers "n" (.silent "n" [.scalar (.str "s")])
      (.silent "n" [.scalar (.float "f")]) (.silent "n" [.scalar (.int "i")]) ∧
    (∃ i : Int64, i.toInt = 9223372036854775807 ∧
      measures.resolve ["n", "009223372036854775807"] =
        .ok ⟨.silent "n" [.scalar (.int "i")], [.int i]⟩) ∧
    measures.resolve ["n", "9223372036854775808"] =
      .ok ⟨.silent "n" [.scalar (.float "f")],
        [.float (Numeral.toBinary64 "9223372036854775808".toList)]⟩ ∧
    measures.resolve ["n", "1."] = .ok ⟨.silent "n" [.scalar (.str "s")], [.str "1."]⟩ := by
  have htells : measures.TellsNumbers "n" (.silent "n" [.scalar (.str "s")])
      (.silent "n" [.scalar (.float "f")]) (.silent "n" [.scalar (.int "i")]) :=
    ⟨(List.perm_append_singleton _ [_, _]).symm, ⟨"s", rfl⟩, ⟨"f", rfl⟩, ⟨"i", rfl⟩⟩
  have hlargest : Numeral.Spells "009223372036854775807".toList 9223372036854775807 :=
    Numeral.spells_iff.mpr ⟨by decide, by decide⟩
  have hlarger : Numeral.Spells "9223372036854775808".toList 9223372036854775808 :=
    Numeral.spells_iff.mpr ⟨by decide, by decide⟩
  have hopen : ¬ Numeral.HasDecimalForm "1.".toList := by
    rw [← Numeral.isDecimal_iff]
    decide
  obtain ⟨-, -, -, -, hcalls⟩ := resolve_number
  refine ⟨htells, ?_, ?_, ?_⟩
  · exact (hcalls _ _ _ _ _ htells _).1 _ hlargest (by decide)
  · exact (hcalls _ _ _ _ _ htells _).2.2.1 _ hlarger (by decide)
  · exact (hcalls _ _ _ _ _ htells _).2.2.2.1 hopen

end Catalog

end CommandShell
