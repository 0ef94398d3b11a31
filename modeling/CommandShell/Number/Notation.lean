import CommandShell.Number.Shortest

/-!
# Writing numbers

A finite number is written with the digits of its shortest decimal. What is left to decide is how
the digits are laid out, and that is a value of `Layout`: whether a whole number shows that it has a
fraction, and for which places of the first digit the digits stand at their place instead of in
front of an exponent.

Main definitions:

* `Layout.plain`: the form for readers, always positional;
* `Layout.exact`: the form that shows a number as a number;
* `Binary64.write`.
-/

namespace CommandShell

/-- How the digits of a number are laid out. -/
structure Layout where
  /-- What follows the digits of a whole number in positional form. -/
  wholeEnd : String
  /-- The places of the first digit, from the first to before the second, for which the form is
  positional; without them it always is. -/
  positional : Option (Int × Int)
deriving DecidableEq, Repr

/-- Whole numbers have no point, and no number has an exponent. -/
def Layout.plain : Layout := ⟨"", none⟩

/-- Whole numbers end in `.0`, and numbers from `10^16` on or below `10^-4` have an exponent. -/
def Layout.exact : Layout := ⟨".0", some (-4, 16)⟩

namespace Decimal

/-- The digits of a decimal as characters. -/
def digitText (d : Decimal) : String := toString d.digits

/-- The place of the first digit: the exponent when a point follows that digit. -/
def firstPlace (d : Decimal) : Int := d.digitText.length - 1 + d.exponent

/-- A row of zeros. -/
def zeros (n : Nat) : String := String.ofList (List.replicate n '0')

/-- The digits at their places, with zeros where there are none. -/
def positional (wholeEnd : String) (d : Decimal) : String :=
  if 0 ≤ d.exponent then d.digitText ++ zeros d.exponent.toNat ++ wholeEnd
  else
    let digits := d.digitText.toList
    let whole := (digits.length : Int) + d.exponent
    if 0 < whole then
      String.ofList (digits.take whole.toNat) ++ "." ++ String.ofList (digits.drop whole.toNat)
    else "0." ++ zeros (-whole).toNat ++ d.digitText

/-- One digit, a point and the others if there are any, and the exponent. -/
def scientific (d : Decimal) : String :=
  let tail := d.digitText.toList.drop 1
  String.ofList (d.digitText.toList.take 1)
    ++ (if tail.isEmpty then "" else "." ++ String.ofList tail)
    ++ "e" ++ toString d.firstPlace

/-- A decimal in a given layout. -/
def write (layout : Layout) (d : Decimal) : String :=
  match layout.positional with
  | none => d.positional layout.wholeEnd
  | some (first, last) =>
    if first ≤ d.firstPlace ∧ d.firstPlace < last then d.positional layout.wholeEnd
    else d.scientific

end Decimal

namespace Binary64

/-- A number in a given layout. Zero keeps its sign, and what is not a number has none. -/
def write (layout : Layout) (x : Binary64) : String :=
  match x.parts with
  | .nan => "NaN"
  | .infinite negative => if negative then "-inf" else "inf"
  | .finite negative significand exponent =>
    let magnitude :=
      if significand = 0 then "0" ++ layout.wholeEnd
      else (Decimal.shortest significand exponent).write layout
    if negative then "-" ++ magnitude else magnitude

example : (ofDecimal 15 6).write .plain = "0.000015" ∧ (ofDecimal 15 6).write .exact = "1.5e-5" ∧
    (ofInt 7).write .plain = "7" ∧ (ofInt 7).write .exact = "7.0" ∧
    negZero.write .plain = "-0" := by decide +kernel

end Binary64

end CommandShell
