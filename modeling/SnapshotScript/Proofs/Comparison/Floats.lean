import Mathlib
import SnapshotScript.Number.Word

/-!
# The order of floating-point numbers

Two floating-point numbers are compared by their signs, exponents and mantissas.  The comparison
has no result if one of the two is not a number, and in no other case; and it turns around with its
operands.  The float nearest to an integer is a number.
-/

namespace SnapshotScript

open Float.Model Float.Model.UnpackedFloat

/-! ### Floats in their parts -/

/-- A comparison turns around with its operands. -/
theorem swap_compare_unpacked (a b : UnpackedFloat) :
    (a.compare b).map Ordering.swap = b.compare a := by
  have hsign (s t : Sign) : (compare s t).swap = compare t s := by
    cases s <;> cases t <;> rfl
  have hsize (e e' : Int) (m m' : Nat) : ((compare e e').then (compare m m')).swap =
      (compare e' e).then (compare m' m) := by
    rw [Ordering.swap_then, ← Std.OrientedCmp.eq_swap, ← Std.OrientedCmp.eq_swap]
  cases a with
  | notANumber => cases b <;> rfl
  | infinity s =>
    cases b with
    | infinity t => exact congrArg some (hsign s t)
    | notANumber => cases s <;> rfl
    | zero t => cases s <;> rfl
    | finite t _ _ _ => cases s <;> cases t <;> rfl
  | zero s =>
    cases b with
    | infinity t => cases t <;> rfl
    | notANumber => rfl
    | zero t => rfl
    | finite t _ _ _ => cases t <;> rfl
  | finite s m e _ =>
    cases b with
    | infinity t => cases s <;> cases t <;> rfl
    | notANumber => cases s <;> rfl
    | zero t => cases s <;> rfl
    | finite t m' e' _ =>
      cases s <;> cases t
      · exact congrArg (some ∘ Ordering.swap) (hsize e e' m m')
      · rfl
      · rfl
      · exact congrArg some (hsize e e' m m')

/-- There is no order only if one of the two is not a number. -/
theorem compare_unpacked_eq_none_iff (a b : UnpackedFloat) :
    a.compare b = none ↔ a.isNaN = true ∨ b.isNaN = true := by
  fun_cases UnpackedFloat.compare a b <;> simp_all [UnpackedFloat.isNaN]

/-! ### Floats of a program -/

/-- Two floats are compared by their parts. -/
theorem compareFloats?_eq (x y : Float) :
    compareFloats? x y = x.toModel.unpack.compare y.toModel.unpack := by
  have hlt (x y : Float) : x < y ↔ x.toModel.unpack.compare y.toModel.unpack = some .lt :=
    decide_eq_true_iff.trans beq_iff_eq
  have heq : (x == y) = true ↔ x.toModel.unpack.compare y.toModel.unpack = some .eq :=
    @beq_iff_eq _ _ _ (x.toModel.unpack.compare y.toModel.unpack) (some .eq)
  simp only [compareFloats?, hlt, heq, ← swap_compare_unpacked x.toModel.unpack y.toModel.unpack]
  rcases x.toModel.unpack.compare y.toModel.unpack with _ | _ | _ | _ <;> rfl

/-- A comparison turns around with its operands. -/
theorem swap_compareFloats? (x y : Float) :
    (compareFloats? x y).map Ordering.swap = compareFloats? y x := by
  rw [compareFloats?_eq, compareFloats?_eq, swap_compare_unpacked]

/-- There is no order only if one of the two is not a number. -/
theorem compareFloats?_eq_none_iff (x y : Float) :
    compareFloats? x y = none ↔ x.isNaN = true ∨ y.isNaN = true := by
  rw [compareFloats?_eq, compare_unpacked_eq_none_iff]
  rfl

/-! ### Integers as floats -/

/-- The bits of a number are not those that stand for what is none. -/
theorem unpackMantissa_pack {spec : Format} {a : UnpackedFloat} (h : a.isNaN = false) :
    unpackExponent (a.pack spec) = -1#_ → unpackMantissa (a.pack spec) = 0#_ := by
  fun_cases UnpackedFloat.pack with
  | case1 => cases h
  | case2 s => simp [packedInfinity]
  | case3 s => simp [packedZero]
  | case4 s => simp [packedInfinity]
  | case5 s m e hm bits exponent hlt hbits =>
    have hne : exponent % 2 ^ spec.exponentBits ≠ 2 ^ spec.exponentBits - 1 := by
      rw [Nat.mod_eq_of_lt (by omega)]
      omega
    simp [BitVec.neg_one_eq_allOnes, ← BitVec.toNat_inj, hne]
  | case6 s m e hm bits exponent hlt hbits => simp [Nat.ne_of_gt spec.he]

/-- Bits that do not stand for what is no number are those of a number. -/
theorem isNaN_unpack {spec : Format} {b : BitVec spec.numBits}
    (h : unpackExponent b = -1#_ → unpackMantissa b = 0#_) :
    (UnpackedFloat.unpack spec b).isNaN = false := by
  simp only [UnpackedFloat.unpack]
  split
  · next hexponent =>
    rw [if_pos (h hexponent)]
    rfl
  · split
    · split <;> rfl
    · rfl

/-- What is packed is a number if it was one before. -/
theorem isNaN_unpack_pack {a : UnpackedFloat} (h : a.isNaN = false) :
    (Float.Model.pack a).unpack.isNaN = false :=
  isNaN_unpack (unpackMantissa_pack h)

/-- Rounding an integer gives a number. -/
theorem isNaN_ofInt (spec : Format) (n : Int) : (UnpackedFloat.ofInt spec n).isNaN = false := by
  have hround (s : Sign) (m : Nat) (e : Int) : (UnpackedFloat.round spec s m e).isNaN = false := by
    simp only [UnpackedFloat.round, roundWithAccuracy]
    split <;> rfl
  unfold UnpackedFloat.ofInt UnpackedFloat.normalize
  cases compare n 0
  · exact hround ..
  · rfl
  · exact hround ..

/-- A number with its sign changed is a number. -/
theorem isNaN_neg (a : UnpackedFloat) : a.neg.isNaN = a.isNaN := by
  cases a <;> rfl

/-- The float nearest to an integer is a number. -/
theorem isNaN_wordToFloat (n : Int64) : (wordToFloat n).isNaN = false := by
  have hsize : n.toInt.natAbs.toUInt64.toFloat.isNaN = false :=
    isNaN_unpack_pack (isNaN_ofInt Format.binary64 _)
  rw [wordToFloat]
  split
  · refine isNaN_unpack_pack (a := UnpackedFloat.neg _) ?_
    rw [isNaN_neg]
    exact hsize
  · exact hsize

end SnapshotScript
