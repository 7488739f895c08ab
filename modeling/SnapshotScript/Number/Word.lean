import SnapshotScript.Number.Binary64

/-!
# Integers of a program

An integer of a program has 64 bits.  Its arithmetic is done on whole numbers without a bound; a
result that does not fit is reported as such and never wrapped around.
-/

namespace SnapshotScript

/-- The least number that is too large for an integer. -/
def wordBound : Nat := Nat.pow 2 63

/-- The 64-bit integer with the given value, if there is one. -/
def word? (n : Int) : Option Int64 :=
  if -wordBound ≤ n ∧ n < wordBound then some (Int64.ofInt n) else none

/-- The floating-point number nearest to an integer. -/
def wordToFloat (n : Int64) : Float :=
  let size := n.toInt.natAbs.toUInt64.toFloat
  if n < 0 then -size else size

/-- A floating-point number without its fraction, if that is an integer of 64 bits. -/
def truncate? (x : Float) : Option Int64 :=
  match Binary64.ofFloat x with
  | .finite negative field =>
    let whole := Binary64.magnitude field / Binary64.unitsPerOne
    word? (if negative then -(whole : Int) else whole)
  | _ => none

/-- The power `base ^ exponent`, if it fits.  The powers of zero, one and minus one depend on the
parity of a positive exponent only; those of other numbers do not fit from the 64th on. -/
def wordPower? (base : Int64) (exponent : Nat) : Option Int64 :=
  let b := base.toInt
  if b.natAbs ≤ 1 then
    word? (b.pow (if 2 < exponent then 2 - exponent % 2 else exponent))
  else if exponent < 64 then word? (b.pow exponent)
  else none

/-- The exponents for which a power is taken among the integers. -/
def exponentBound : Nat := Nat.pow 2 32

/-- Compares two floating-point numbers; there is no order if one of them is not a number. -/
def compareFloats? (x y : Float) : Option Ordering :=
  if x < y then some .lt
  else if x == y then some .eq
  else if y < x then some .gt
  else none

/-! ### Whole numbers that fit -/

/-- A 64-bit integer is found for a whole number just if it has this value. -/
theorem word?_eq_some_iff {z : Int} {n : Int64} : word? z = some n ↔ n.toInt = z := by
  have hlow := n.le_toInt
  have hhigh := n.toInt_lt
  rw [word?, show (wordBound : Int) = 9223372036854775808 from rfl]
  constructor
  · intro h
    split at h
    · next hbound =>
      cases h
      exact Int64.toInt_ofInt_of_le (by omega) (by omega)
    · cases h
  · rintro rfl
    rw [if_pos (by omega), Int64.ofInt_toInt]

/-- A whole number that does not fit is the value of no 64-bit integer. -/
theorem word?_eq_none_iff {z : Int} : word? z = none ↔ ∀ n : Int64, n.toInt ≠ z := by
  rw [Option.eq_none_iff_forall_ne_some]
  exact forall_congr' fun n => not_congr word?_eq_some_iff

/-- What does not fit is too small or too large. -/
theorem lt_or_le_of_word?_eq_none {z : Int} (h : word? z = none) :
    z < -wordBound ∨ wordBound ≤ z := by
  rw [word?] at h
  split at h
  · cases h
  · omega

end SnapshotScript
