import CommandShell.Param.Basic
import Mathlib.Data.List.Induction
import Mathlib.Data.Nat.Digits.Defs

/-!
# What numerals stand for

A word is taken for a number in two steps that look at it separately: one tells whether its
characters have the right form, the other computes a number from them and would do so from any
characters. Here numerals are told from their digits instead. A row of decimal digits stands for a
number as it does in writing, and a text spells the number if it consists of the characters of the
digits. Both steps are traced back to this, so that they cannot disagree: the form is right exactly
if there is a number that the text spells, and then it is this number that is computed.

There is no bound on the length of a numeral, and zeros may lead. So a numeral can stand for a
number that is too large for an integer, and then it is one for a double-precision number only.

Main results:

* `Numeral.spells_iff`: a text spells a number exactly if it has the form and this number comes out;
* `Numeral.isDecimal_iff`: what has the form of a decimal;
* `Numeral.spells_toString`: the written form of a number spells it;
* `Scalar.accepts_int_iff`, `Scalar.accepts_float_iff`: which words are taken for numbers.
-/

namespace CommandShell

namespace Numeral

variable {cs : List Char} {n : Nat}

/-- A text spells a number: it is a row of decimal digits, at least one, which stand for the number
with the most significant digit first. -/
def Spells (cs : List Char) (n : Nat) : Prop :=
  ∃ ds : List (Fin 10), ds ≠ [] ∧ cs = ds.map (fun d => d.val.digitChar) ∧
    n = Nat.ofDigits 10 (ds.reverse.map Fin.val)

/-- A text has decimal form: it is a numeral, or two numerals with a point between them. -/
def HasDecimalForm (cs : List Char) : Prop :=
  (∃ n, Spells cs n) ∨
    ∃ whole fraction m n, cs = whole ++ '.' :: fraction ∧ Spells whole m ∧ Spells fraction n

/-! ## Digits -/

theorem isDigit_digitChar (d : Fin 10) : d.val.digitChar.isDigit = true := by
  rw [Nat.isDigit_digitChar, decide_eq_true_eq]
  exact d.isLt

/-- There are no other characters for digits. -/
theorem exists_digitChar_eq {c : Char} (h : c.isDigit = true) :
    ∃ d : Fin 10, d.val.digitChar = c := by
  obtain ⟨hlo, hhi⟩ := Char.isDigit_iff_toNat.mp h
  have hzero : '0'.toNat = 48 := rfl
  have hnine : '9'.toNat = 57 := rfl
  have hlt : c.toNat - 48 < 10 := by omega
  refine ⟨⟨c.toNat - 48, hlt⟩, Char.toNat_inj.mp ?_⟩
  rw [Nat.toNat_digitChar_of_lt_ten hlt]
  omega

/-- A row of characters for digits is a row of digits. -/
theorem exists_map_digitChar_eq (h : cs.all Char.isDigit = true) :
    ∃ ds : List (Fin 10), ds.map (fun d => d.val.digitChar) = cs := by
  induction cs with
  | nil => exact ⟨[], rfl⟩
  | cons c cs ih =>
    rw [List.all_cons, Bool.and_eq_true] at h
    obtain ⟨d, rfl⟩ := exists_digitChar_eq h.1
    obtain ⟨ds, rfl⟩ := ih h.2
    exact ⟨d :: ds, rfl⟩

/-- Going over the digits from the left, each time ten times as much and the next digit, comes to
the sum of the digits at their places. -/
theorem ofDigits_map_digitChar (ds : List (Fin 10)) :
    ofDigits (ds.map fun d => d.val.digitChar) = Nat.ofDigits 10 (ds.reverse.map Fin.val) := by
  -- the induction takes digits off at the right, where the places begin
  induction ds using List.reverseRecOn with
  | nil => rfl
  | append_singleton ds d ih =>
    have hdigit : d.val.digitChar.toNat - '0'.toNat = d.val :=
      Nat.toNat_digitChar_sub_48_of_lt_ten d.isLt
    rw [List.map_append, List.map_singleton, ofDigits_append_digit, ih, hdigit, List.reverse_append,
      List.reverse_singleton, List.singleton_append, List.map_cons, Nat.ofDigits_cons, Nat.add_comm]

/-! ## Numerals -/

theorem isDigits_iff : isDigits cs = true ↔ cs ≠ [] ∧ cs.all Char.isDigit = true := by
  rw [isDigits, Bool.and_eq_true, Bool.not_eq_true', List.isEmpty_eq_false_iff]

/-- **The form and the number belong together.** -/
theorem spells_iff : Spells cs n ↔ isDigits cs = true ∧ ofDigits cs = n := by
  rw [isDigits_iff]
  constructor
  · rintro ⟨ds, hne, rfl, rfl⟩
    refine ⟨⟨?_, ?_⟩, ofDigits_map_digitChar ds⟩
    · rwa [Ne, List.map_eq_nil_iff]
    · rw [List.all_map, List.all_eq_true]
      exact fun d _ => isDigit_digitChar d
  · -- the characters are those of some digits, and the number is that of these
    rintro ⟨⟨hne, hall⟩, rfl⟩
    obtain ⟨ds, rfl⟩ := exists_map_digitChar_eq hall
    refine ⟨ds, ?_, rfl, ofDigits_map_digitChar ds⟩
    rwa [Ne, List.map_eq_nil_iff] at hne

/-- A text has the form of a numeral exactly if it spells some number. -/
theorem isDigits_iff_exists_spells : isDigits cs = true ↔ ∃ n, Spells cs n := by
  simp only [spells_iff, exists_and_left, exists_eq', and_true]

/-- A text spells one number at most. -/
theorem Spells.unique {m n : Nat} (hm : Spells cs m) (hn : Spells cs n) : m = n :=
  (spells_iff.mp hm).2.symm.trans (spells_iff.mp hn).2

theorem spells_toString (n : Nat) : Spells (toString n).toList n := by
  rw [Nat.toString_eq_ofList_toDigits, String.toList_ofList, spells_iff, isDigits_iff]
  refine ⟨⟨Nat.toDigits_ne_nil, ?_⟩, ?_⟩
  · rw [List.all_eq_true]
    intro c hc
    exact Nat.isDigit_of_mem_toDigits (by decide) (by decide) hc
  · rw [ofDigits, ← Nat.ofDigitChars_eq_foldl, Nat.ofDigitChars_ten_toDigits]

/-! ## Decimals -/

/-- Behind digits, the text is split at the first point. -/
theorem splitPoint_append {whole : List Char} (h : whole.all Char.isDigit = true)
    (fraction : List Char) : splitPoint (whole ++ '.' :: fraction) = (whole, some fraction) := by
  have hdrop : (whole ++ '.' :: fraction).dropWhile (· != '.') = '.' :: fraction := by
    rw [List.dropWhile_append, dropWhile_ne_point_of_all_isDigit h]
    rfl
  have htake : (whole ++ '.' :: fraction).takeWhile (· != '.') = whole := by
    have hsplit := List.takeWhile_append_dropWhile (p := (· != '.')) (l := whole ++ '.' :: fraction)
    rw [hdrop] at hsplit
    exact List.append_cancel_right hsplit
  rw [splitPoint, hdrop, htake]

/-- A text has no point, or it is split at one. -/
theorem splitPoint_cases (cs : List Char) :
    splitPoint cs = (cs, none) ∨
      ∃ whole fraction, splitPoint cs = (whole, some fraction) ∧ cs = whole ++ '.' :: fraction := by
  rw [splitPoint]
  cases hdrop : cs.dropWhile (· != '.') with
  | nil => exact .inl rfl
  | cons c fraction =>
    right
    -- the scan stopped at this character, so it is the point
    have hpoint : c = '.' := by
      have hhead := List.head?_dropWhile_not (· != '.') cs
      rw [hdrop] at hhead
      simpa using hhead
    have hsplit := List.takeWhile_append_dropWhile (p := (· != '.')) (l := cs)
    rw [hdrop, hpoint] at hsplit
    exact ⟨_, fraction, rfl, hsplit.symm⟩

/-- What has decimal form is a numeral, or two with a point between them. -/
theorem isDecimal_iff : isDecimal cs = true ↔ HasDecimalForm cs := by
  constructor
  · intro h
    -- with a point or without one
    rcases splitPoint_cases cs with hnone | ⟨whole, fraction, hsome, rfl⟩
    · rw [isDecimal, hnone] at h
      exact .inl (isDigits_iff_exists_spells.mp h)
    · rw [isDecimal, hsome, Bool.and_eq_true] at h
      obtain ⟨m, hm⟩ := isDigits_iff_exists_spells.mp h.1
      obtain ⟨n, hn⟩ := isDigits_iff_exists_spells.mp h.2
      exact .inr ⟨whole, fraction, m, n, rfl, hm, hn⟩
  · rintro (⟨n, hn⟩ | ⟨whole, fraction, m, n, rfl, hm, hn⟩)
    · exact isDecimal_of_isDigits (spells_iff.mp hn).1
    · have hwhole := (spells_iff.mp hm).1
      rw [isDecimal, splitPoint_append (isDigits_iff.mp hwhole).2, Bool.and_eq_true]
      exact ⟨hwhole, (spells_iff.mp hn).1⟩

end Numeral

/-! ## Words that are taken for numbers -/

namespace Scalar

open Numeral

variable {name word : String} {n : Nat}

/-- A word is taken for an integer exactly if it spells a number up to the largest one. -/
theorem accepts_int_iff :
    (int name).accepts word = true ↔ ∃ n, Spells word.toList n ∧ n ≤ maxInt := by
  rw [accepts, Bool.and_eq_true, decide_eq_true_eq]
  constructor
  · rintro ⟨hdigits, hle⟩
    exact ⟨_, spells_iff.mpr ⟨hdigits, rfl⟩, hle⟩
  · rintro ⟨n, hn, hle⟩
    obtain ⟨hdigits, rfl⟩ := spells_iff.mp hn
    exact ⟨hdigits, hle⟩

/-- The integer that a numeral becomes is the number that it spells. -/
theorem value_int_of_spells (hn : Spells word.toList n) (hle : n ≤ maxInt) :
    ∃ i : Int64, (int name).value word = .int i ∧ i.toInt = n := by
  obtain ⟨-, rfl⟩ := spells_iff.mp hn
  exact ⟨_, rfl, Int64.toInt_ofNat_of_lt (Nat.lt_succ_of_le hle)⟩

/-- A numeral up to the largest integer is converted to the number that it spells. -/
theorem convert?_int_of_spells (hn : Spells word.toList n) (hle : n ≤ maxInt) :
    ∃ i : Int64, (int name).convert? word = some (.int i) ∧ i.toInt = n := by
  obtain ⟨i, hvalue, hi⟩ : ∃ i : Int64, (int name).value word = .int i ∧ i.toInt = n :=
    value_int_of_spells hn hle
  refine ⟨i, ?_, hi⟩
  rw [convert?, if_pos (accepts_int_iff.mpr ⟨n, hn, hle⟩), hvalue]

/-- A word is taken for a double-precision number exactly if it has decimal form. -/
theorem accepts_float_iff : (float name).accepts word = true ↔ HasDecimalForm word.toList :=
  isDecimal_iff

/-- Every word that is taken for an integer can be taken for a double-precision number. -/
theorem accepts_float_of_int {name' : String} (h : (int name).accepts word = true) :
    (float name').accepts word = true := by
  obtain ⟨n, hn, -⟩ := accepts_int_iff.mp h
  exact accepts_float_iff.mpr (.inl ⟨n, hn⟩)

end Scalar

end CommandShell
