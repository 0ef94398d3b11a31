/-!
# Double-precision numbers

A number is its 64-bit pattern, so two numbers are equal when their patterns are, `-0` differs from
`0`, and every not-a-number keeps its payload. The arithmetic is exact on natural numbers and rounds
once: every finite number is a whole multiple of `2⁻¹⁰⁷⁴`, the *unit*, and `round` takes a fraction
of units to the nearest number, a tie to the even pattern. Reading a decimal, converting an integer
and adding are each an exact fraction followed by that one rounding.

Main definitions:

* `Binary64.parts`: what a pattern stands for;
* `Binary64.round`: the nearest number;
* `Binary64.ofDecimal`, `Binary64.ofInt`, `Binary64.add`.
-/

namespace CommandShell

/-- A double-precision number, given by its bit pattern. -/
structure Binary64 where
  bits : UInt64
deriving DecidableEq, Repr

namespace Binary64

/-! ## What a pattern stands for -/

/-- The three kinds of numbers. A finite one is `± significand · 2^exponent` units. -/
inductive Parts where
  | nan
  | infinite (negative : Bool)
  | finite (negative : Bool) (significand exponent : Nat)
deriving DecidableEq, Repr

/-- Whether the sign bit is set. -/
def isNegative (x : Binary64) : Bool := x.bits.toNat >>> 63 == 1

/-- The hidden bit of a significand, one more than the largest fraction. -/
def hiddenBit : Nat := 1 <<< 52

/-- Reads the sign, the eleven exponent bits and the fraction of a pattern. The least exponent has
no hidden bit, the greatest is kept for infinities and for what is not a number. -/
def parts (x : Binary64) : Parts :=
  let field := (x.bits.toNat >>> 52) % 2048
  let fraction := x.bits.toNat % hiddenBit
  if field = 2047 then
    if fraction = 0 then .infinite x.isNegative else .nan
  else if field = 0 then .finite x.isNegative fraction 0
  else .finite x.isNegative (hiddenBit + fraction) (field - 1)

/-! ## Rounding -/

/-- The pattern of infinity, and so the number of patterns of finite magnitudes. -/
def infinityBits : Nat := 2047 <<< 52

/-- Puts a sign on the pattern of a magnitude. -/
def ofMagnitude (negative : Bool) (magnitude : Nat) : Binary64 :=
  ⟨UInt64.ofNat (if negative then 1 <<< 63 + magnitude else magnitude)⟩

/-- The quotient rounded to the nearest natural number, a tie to the even one. -/
def roundDiv (num den : Nat) : Nat :=
  let q := num / den
  let twice := 2 * (num % den)
  if twice < den ∨ (twice = den ∧ q % 2 = 0) then q else q + 1

/-- The number nearest to `num / den` units, with the given sign. The exponent is the least that
leaves at most 53 bits. A significand that rounds up to `2⁵³` carries into the exponent bits by
itself, and whatever lies beyond the finite numbers becomes infinity. -/
def round (negative : Bool) (num den : Nat) : Binary64 :=
  let whole := num / den
  let exponent := if whole < 2 * hiddenBit then 0 else whole.log2 - 52
  let significand := roundDiv num (den <<< exponent)
  ofMagnitude negative (min (exponent <<< 52 + significand) infinityBits)

/-- How many units make one. -/
def unitsPerOne : Nat := 1 <<< 1074

/-- A power of ten. -/
def tenTo (n : Nat) : Nat := Nat.pow 10 n

/-- The number nearest to `digits / 10^places`. -/
def ofDecimal (digits places : Nat) : Binary64 :=
  round false (digits * unitsPerOne) (tenTo places)

/-- The number nearest to an integer. -/
def ofInt (n : Int) : Binary64 := round (decide (n < 0)) (n.natAbs * unitsPerOne) 1

/-! ## Addition -/

/-- The quiet pattern that an operation without a result gives. -/
def nan : Binary64 := ⟨0x7FF8000000000000⟩

/-- The signed number of units of a finite number. -/
def signedUnits (negative : Bool) (significand exponent : Nat) : Int :=
  if negative then -(Int.ofNat (significand <<< exponent)) else Int.ofNat (significand <<< exponent)

/-- The sum, rounded once. A sum of zero is negative only if both of its terms are. -/
def add (x y : Binary64) : Binary64 :=
  match x.parts, y.parts with
  | .nan, _ => x
  | _, .nan => y
  | .infinite s, .infinite t => if s = t then x else nan
  | .infinite _, .finite _ _ _ => x
  | .finite _ _ _, .infinite _ => y
  | .finite s m e, .finite t n f =>
    let total := signedUnits s m e + signedUnits t n f
    if total = 0 then ofMagnitude (s && t) 0
    else round (decide (total < 0)) total.natAbs 1

instance : Add Binary64 := ⟨add⟩

/-- The zero with the sign bit, which leaves every other number as it is under addition. -/
def negZero : Binary64 := ⟨0x8000000000000000⟩

example : ofDecimal 15 1 = ⟨0x3FF8000000000000⟩ := by decide +kernel
example : ofInt (-3) = ⟨0xC008000000000000⟩ := by decide +kernel
example : ofDecimal 1 1 + ofDecimal 2 1 = ⟨0x3FD3333333333334⟩ := by decide +kernel

end Binary64

end CommandShell
