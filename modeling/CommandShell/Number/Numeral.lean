import CommandShell.Number.Binary64

/-!
# Numerals

The two forms of unsigned decimal numerals: a run of ASCII digits, and two such runs with a point
between them. Leading zeros are digits like any other; signs, exponents and the digits of other
scripts belong to no numeral.
-/

namespace CommandShell.Numeral

/-- Whether text is a non-empty run of ASCII digits. -/
def isDigits (cs : List Char) : Bool := !cs.isEmpty && cs.all Char.isDigit

/-- The number that a run of digits stands for. -/
def ofDigits (cs : List Char) : Nat := cs.foldl (fun n c => 10 * n + (c.toNat - '0'.toNat)) 0

/-- The text before the first point, and the text after it if there is a point. -/
def splitPoint (cs : List Char) : List Char × Option (List Char) :=
  match cs.dropWhile (· != '.') with
  | [] => (cs, none)
  | _ :: fraction => (cs.takeWhile (· != '.'), some fraction)

/-- Whether text is a run of digits, or two of them with a point in between. -/
def isDecimal (cs : List Char) : Bool :=
  match splitPoint cs with
  | (whole, none) => isDigits whole
  | (whole, some fraction) => isDigits whole && isDigits fraction

/-- The double-precision number nearest to a decimal. -/
def toBinary64 (cs : List Char) : Binary64 :=
  match splitPoint cs with
  | (whole, none) => .ofDecimal (ofDigits whole) 0
  | (whole, some fraction) => .ofDecimal (ofDigits (whole ++ fraction)) fraction.length

/-! ## Laws -/

theorem ofDigits_append_digit (cs : List Char) (c : Char) :
    ofDigits (cs ++ [c]) = 10 * ofDigits cs + (c.toNat - '0'.toNat) := by
  simp [ofDigits]

/-- A run of digits has no point. -/
theorem dropWhile_ne_point_of_all_isDigit {cs : List Char} (h : cs.all Char.isDigit = true) :
    cs.dropWhile (· != '.') = [] := by
  induction cs with
  | nil => rfl
  | cons c cs ih =>
    rw [List.all_cons, Bool.and_eq_true] at h
    have hc : (c != '.') = true := by
      rw [bne_iff_ne]
      rintro rfl
      exact absurd h.1 (by decide)
    rw [List.dropWhile_cons, if_pos hc, ih h.2]

theorem splitPoint_of_isDigits {cs : List Char} (h : isDigits cs = true) :
    splitPoint cs = (cs, none) := by
  rw [isDigits, Bool.and_eq_true] at h
  rw [splitPoint, dropWhile_ne_point_of_all_isDigit h.2]

/-- Every run of digits is also a decimal. -/
theorem isDecimal_of_isDigits {cs : List Char} (h : isDigits cs = true) : isDecimal cs = true := by
  simp [isDecimal, splitPoint_of_isDigits h, h]

end CommandShell.Numeral
