/-!
# Binary floating-point numbers

A 64-bit floating-point number is a sign and a field of 63 bits.  The finite ones are the whole
multiples of `2 ^ (-1074)`, the *unit*, that the field can express; `magnitude` gives the multiple
as a natural number, and `roundedField` goes the other way, from a quotient of natural numbers to
the nearest field, a tie going to the even one.
-/

namespace SnapshotScript.Binary64

/-- The field of infinity: all bits of the exponent and none of the fraction. -/
def infinityField : Nat := 0x7FF0000000000000

/-- How many units make up one. -/
def unitsPerOne : Nat := Nat.pow 2 1074

/-- The exponent bits of a field. -/
def exponentOf (field : Nat) : Nat := field / Nat.pow 2 52

/-- The fraction bits of a field. -/
def fractionOf (field : Nat) : Nat := field % Nat.pow 2 52

/-- The distance, in units, from the number with the given field to the next larger one. -/
def spacing (field : Nat) : Nat := Nat.pow 2 (exponentOf field - 1)

/-- The finite number with the given field, in units. -/
def magnitude (field : Nat) : Nat :=
  if exponentOf field = 0 then fractionOf field
  else (Nat.pow 2 52 + fractionOf field) * spacing field

/-- The field of the number nearest to `num / den`.  Of two numbers equally near the one with the
even field is taken; what is too large for a finite number is infinite. -/
def roundedField (num den : Nat) : Nat :=
  let scaled := num * unitsPerOne
  let shift := (scaled / den).log2 - 52
  let step := den * Nat.pow 2 shift
  let floor := scaled / step
  let rest := scaled % step
  let nearest := if 2 * rest > step ∨ (2 * rest = step ∧ floor % 2 = 1) then floor + 1 else floor
  min (shift * Nat.pow 2 52 + nearest) infinityField

end Binary64

/-- What a floating-point number stands for. -/
inductive Binary64 where
  | nan
  | infinite (negative : Bool)
  /-- A finite number, given by its sign and its field. -/
  | finite (negative : Bool) (field : Nat)
deriving DecidableEq, Repr

namespace Binary64

/-- Takes a floating-point number apart. -/
def ofFloat (x : Float) : Binary64 :=
  let bits := x.toBits.toNat
  let negative : Bool := Nat.pow 2 63 ≤ bits
  let field := bits % Nat.pow 2 63
  if field < infinityField then .finite negative field
  else if field = infinityField then .infinite negative
  else .nan

/-- The floating-point number with the given sign and field. -/
def withSign (negative : Bool) (field : Nat) : Float :=
  Float.ofBits (UInt64.ofNat (if negative then field + Nat.pow 2 63 else field))

/-- Puts a floating-point number together. -/
def toFloat : Binary64 → Float
  | .nan => withSign false (infinityField + Nat.pow 2 51)
  | .infinite negative => withSign negative infinityField
  | .finite negative field => withSign negative field

end Binary64

end SnapshotScript
