import SnapshotScript.Number.Binary64
import SnapshotScript.Number.Digits

/-!
# Decimal numbers and their binary neighbours

A decimal is a coefficient times a power of ten.  `Decimal.toField` rounds it to the nearest
binary number, and `shortest` finds, for a binary number, the decimal with the fewest digits among
those that are rounded to it.
-/

namespace SnapshotScript

/-- The number `coefficient * 10 ^ exponent`. -/
structure Decimal where
  coefficient : Nat
  exponent : Int
deriving DecidableEq, Repr

namespace Decimal

/-- The field of the binary number nearest to a decimal.  Numbers that are clearly too large or too
small are told from the exponent alone, so that the powers of ten stay of moderate size. -/
def toField (d : Decimal) : Nat :=
  if d.coefficient = 0 then 0
  else if 310 < d.exponent then Binary64.infinityField
  else if 3 * d.exponent + d.coefficient.log2 < -1080 then 0
  else if 0 ≤ d.exponent then Binary64.roundedField (d.coefficient * Nat.pow 10 d.exponent.toNat) 1
  else Binary64.roundedField d.coefficient (Nat.pow 10 (-d.exponent).toNat)

/-- Takes the zeros off the end of the coefficient.  No more than `bound` are taken. -/
def normalize : Nat → Decimal → Decimal
  | 0, d => d
  | bound + 1, d =>
    if d.coefficient ≠ 0 ∧ d.coefficient % 10 = 0 then
      normalize bound ⟨d.coefficient / 10, d.exponent + 1⟩
    else d

/-! ### The interval of a binary number -/

/-- The reals that are rounded to one binary number, in quarters of the unit: those between `low`
and `high`, with the two ends if it is `closed`. -/
structure Interval where
  low : Nat
  value : Nat
  high : Nat
  closed : Bool
deriving DecidableEq, Repr

/-- The interval of a positive finite number.  It reaches half way to both neighbours, and the
neighbour below a power of two is only half as far away as the one above it. -/
def Interval.ofField (field : Nat) : Interval :=
  let value := 4 * Binary64.magnitude field
  let gap := Binary64.spacing field
  let isPower := Binary64.fractionOf field = 0 ∧ 1 < Binary64.exponentOf field
  { low := if isPower then value - gap else value - 2 * gap
    value := value
    high := value + 2 * gap
    closed := field % 2 = 0 }

/-- The multiple of `10 ^ exponent` that is nearest to the number among its two neighbours on that
grid, provided that it lies in the interval.  Half way between the two the upper one is taken. -/
def Interval.nearestOnGrid? (i : Interval) (exponent : Int) : Option Nat :=
  let quarters := 4 * Binary64.unitsPerOne
  let (step, scale) :=
    if 0 ≤ exponent then (Nat.pow 10 exponent.toNat * quarters, 1)
    else (quarters, Nat.pow 10 (-exponent).toNat)
  let value := i.value * scale
  let below := value / step
  let rest := value % step
  let lowOk : Bool :=
    if i.closed then i.low * scale ≤ below * step else i.low * scale < below * step
  let highOk : Bool :=
    if i.closed then (below + 1) * step ≤ i.high * scale else (below + 1) * step < i.high * scale
  if highOk && (!lowOk || step ≤ 2 * rest) then some (below + 1)
  else if lowOk then some below
  else none

/-- The exponent of the leading digit of `num / den`. -/
def leadingExponent (num den : Nat) : Int :=
  if den ≤ num then (digitCount (num / den) : Int) - 1
  else -(digitCount ((den + num - 1) / num - 1) : Int)

/-- A finite binary number written out in full. -/
def exact (field : Nat) : Decimal :=
  ⟨Binary64.magnitude field * Nat.pow 5 1074, -1074⟩

/-- The decimal with the fewest digits that is rounded to the number with the given field, and the
nearest of those to it.  Seventeen digits are enough; beyond them the number would be written out
in full. -/
def shortest (field : Nat) : Decimal :=
  let i := Interval.ofField field
  let leading := leadingExponent (Binary64.magnitude field) Binary64.unitsPerOne
  let onGrid (digits : Nat) : Option Decimal :=
    let exponent := leading + 1 - digits
    (i.nearestOnGrid? exponent).map fun coefficient => ⟨coefficient, exponent⟩
  match (List.range' 1 17).findSome? onGrid with
  | some d => d.normalize 17
  | none => exact field

/-! ### Written forms -/

/-- The digits of a decimal with a point among them, and zeros where a place is not filled. -/
def positional (d : Decimal) : List Char :=
  let digits := decimalDigits d.coefficient
  if 0 ≤ d.exponent then digits ++ zeros d.exponent.toNat
  else
    let places := (-d.exponent).toNat
    if places < digits.length then
      digits.take (digits.length - places) ++ '.' :: digits.drop (digits.length - places)
    else '0' :: '.' :: zeros (places - digits.length) ++ digits

/-- The digits of a decimal with a point behind the first one, and the power of ten. -/
def scientific (d : Decimal) : List Char :=
  let digits := decimalDigits d.coefficient
  let exponent := d.exponent + digits.length - 1
  let mantissa :=
    match digits with
    | first :: second :: more => first :: '.' :: second :: more
    | digits => digits
  mantissa ++ 'E' :: (toString exponent).toList

end Decimal

end SnapshotScript
