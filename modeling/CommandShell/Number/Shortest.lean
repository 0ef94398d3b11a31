import CommandShell.Number.Binary64

/-!
# Shortest decimals

Among the decimals that read back as a given number, the shortest is the one with the fewest
digits, and of several with as few digits the nearest to the number.

A positive number is a significand times a power of two, in units. The decimals that read back as
it fill an interval around it: halfway to the number above, and halfway to the number below, which
is only half as far away where the exponent changes. The ends belong to the interval exactly when
the significand is even, because ties go there. All of it is kept in quarters of a unit, so that it
is whole.

For one digit, two digits, and so on, the decimals with that many digits lie on a grid. If any point
of the grid is in the interval, so is one of the number's two neighbours on the grid, so the first
grid that has one of the two in the interval gives the shortest decimal. Seventeen digits always
suffice. Of two neighbours that are as near, the upper one is taken.

Main definitions:

* `Decimal`: digits and the power of ten that they are multiplied by;
* `Decimal.shortest`: the shortest decimal for a significand and an exponent.
-/

namespace CommandShell

/-- The decimal number `digits · 10^exponent`. -/
structure Decimal where
  digits : Nat
  exponent : Int
deriving DecidableEq, Repr

namespace Decimal

/-! ## The interval -/

/-- What reads back as a number: `low ≤ x ≤ high`, or the strict inequalities, in quarters of a
unit; `value` is the number itself. -/
structure Interval where
  value : Nat
  low : Nat
  high : Nat
  closed : Bool
deriving DecidableEq, Repr

/-- The interval of the decimals that read back as `significand · 2^exponent` units. -/
def interval (significand exponent : Nat) : Interval :=
  let below := if significand = Binary64.hiddenBit ∧ exponent ≠ 0 then 1 else 2
  { value := (4 * significand) <<< exponent
    low := (4 * significand - below) <<< exponent
    high := (4 * significand + 2) <<< exponent
    closed := significand % 2 == 0 }

/-- Whether `num / den` quarters of a unit lie in an interval. -/
def Interval.contains (i : Interval) (num den : Nat) : Bool :=
  if i.closed then i.low * den ≤ num && num ≤ i.high * den
  else i.low * den < num && num < i.high * den

/-- How many quarters of a unit make one. -/
def quartersPerOne : Nat := 4 * Binary64.unitsPerOne

/-! ## The grid -/

/-- How many decimal digits a natural number has, none for zero. -/
def digitCount (n : Nat) : Nat := if n = 0 then 0 else (Nat.toDigits 10 n).length

/-- The place of the first digit of `value` quarters: the `p` with `10^p ≤ value < 10^(p + 1)`. -/
def leadingPlace (value : Nat) : Int :=
  if quartersPerOne ≤ value then (digitCount (value / quartersPerOne) : Int) - 1
  else -(digitCount ((quartersPerOne - 1) / value) : Int)

/-- The grid with a step of `10^place`, as a fraction of quarters: a point `d` of it stands for
`d · step.1 / step.2` quarters. -/
def gridStep (place : Int) : Nat × Nat :=
  if 0 ≤ place then (quartersPerOne * Binary64.tenTo place.toNat, 1)
  else (quartersPerOne, Binary64.tenTo (-place).toNat)

/-- The neighbour of the value on the grid that reads back as it and is nearer, if any does. -/
def onGrid? (i : Interval) (place : Int) : Option Decimal :=
  let (num, den) := gridStep place
  let d := i.value * den / num
  let rest := i.value * den % num
  let lower := i.contains (d * num) den
  let upper := i.contains ((d + 1) * num) den
  if lower && (!upper || 2 * rest < num) then some ⟨d, place⟩
  else if upper then some ⟨d + 1, place⟩
  else none

/-! ## The shortest decimal -/

/-- The same decimal without zeros at the end of its digits. At most `room` zeros are removed. -/
def dropZeros : Nat → Decimal → Decimal
  | 0, d => d
  | room + 1, d =>
    if d.digits ≠ 0 ∧ d.digits % 10 = 0 then dropZeros room ⟨d.digits / 10, d.exponent + 1⟩ else d

/-- The most digits that a shortest decimal can need. -/
def maxDigits : Nat := 17

/-- The shortest decimal that reads back as `significand · 2^exponent` units. -/
def shortest (significand exponent : Nat) : Decimal :=
  let i := interval significand exponent
  let first := leadingPlace i.value
  let found := (List.range maxDigits).findSome? fun (n : Nat) => onGrid? i (first - n)
  dropZeros maxDigits (found.getD ⟨0, 0⟩)

/-- The least positive number needs a single digit, and a tie goes up. -/
example : shortest 1 0 = ⟨5, -324⟩ ∧
    shortest Binary64.hiddenBit 997 = ⟨29802322387695313, -24⟩ := by decide +kernel

end Decimal

end CommandShell
