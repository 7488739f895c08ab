import Mathlib
import SnapshotScript.Number.Word
import SnapshotScript.Number.Decimal

/-!
# Rounding of whole numbers

From `2 ^ 52` on, the floating-point numbers are whole, and those from `2 ^ (52 + k)` to
`2 ^ (53 + k)` are the multiples of `2 ^ k`.  A whole number is rounded to a multiple that is
nearest to it, of two of them to the even one (`roundedField_whole`).

At the upper end of the 64-bit integers the distance changes from `2 ^ 10` to `2 ^ 11`.  So the
numbers from `2 ^ 63` to `2 ^ 63 + 2 ^ 10` are rounded to `2 ^ 63`, and larger ones to a number
beyond it.  Of all these, minus `2 ^ 63` is the only one that fits, with either sign
(`truncate?_of_le`).
-/

namespace SnapshotScript

namespace Binary64

open Float.Model in
/-- The bits of a number with given bits are these, unless they stand for no number. -/
theorem toBits_ofBits {bits : UInt64} (h : bits.toNat % Nat.pow 2 63 ≤ infinityField) :
    (Float.ofBits bits).toBits = bits := by
  have hnumber : @UnpackedFloat.isNaNBits Format.binary64 bits.toBitVec = false := by
    rw [UnpackedFloat.isNaNBits, decide_eq_false_iff_not, UnpackedFloat.unpackExponent_def,
      UnpackedFloat.unpackMantissa_def]
    rintro ⟨hexponent, hfraction⟩
    have hexponent := congrArg BitVec.toNat hexponent
    have hfraction := mt BitVec.eq_of_toNat_eq hfraction
    rw [infinityField] at h
    simp [Nat.shiftRight_eq_div_pow] at h hexponent hfraction
    omega
  have hpack := @UnpackedFloat.pack_unpack Format.binary64 bits.toBitVec
  rw [hnumber] at hpack
  exact UInt64.toBitVec_inj.1 hpack

/-- A number that is put together from a sign and a field is taken apart into them. -/
theorem ofFloat_withSign {negative : Bool} {field : Nat} (h : field ≤ infinityField) :
    ofFloat (withSign negative field) =
      if field < infinityField then .finite negative field else .infinite negative := by
  have hsmall : field < Nat.pow 2 63 := Nat.lt_of_le_of_lt h (by decide)
  have hbits : (UInt64.ofNat (if negative then field + Nat.pow 2 63 else field)).toNat =
      if negative then field + Nat.pow 2 63 else field := by
    rw [UInt64.toNat_ofNat']
    refine Nat.mod_eq_of_lt ?_
    have hsize : 2 ^ 64 = Nat.pow 2 63 + Nat.pow 2 63 := by decide
    split <;> omega
  have hfield : (if negative then field + Nat.pow 2 63 else field) % Nat.pow 2 63 = field := by
    split
    · rw [Nat.add_mod_right, Nat.mod_eq_of_lt hsmall]
    · exact Nat.mod_eq_of_lt hsmall
  have hsign : decide (Nat.pow 2 63 ≤ if negative then field + Nat.pow 2 63 else field) =
      negative := by
    cases negative <;> simp [hsmall]
  rw [ofFloat, withSign, toBits_ofBits (by rwa [hbits, hfield]), hbits]
  simp only [hfield, hsign]
  split
  · rfl
  · rw [if_pos (by omega)]

theorem unitsPerOne_pos : 0 < unitsPerOne := by
  decide +kernel

/-- The unit is a power of two.  The exponent is a variable here, so that the power is left
alone. -/
theorem exists_unitsPerOne_eq : ∃ k, k = 1074 ∧ unitsPerOne = 2 ^ k :=
  ⟨1074, rfl, by decide +kernel⟩

/-- The number whose field is put together from the exponent of its spacing and the multiple of
the spacing. -/
theorem magnitude_add {shift m : Nat} (hlow : 2 ^ 52 ≤ m) (hhigh : m ≤ 2 ^ 53) :
    magnitude (shift * 2 ^ 52 + m) = m * 2 ^ shift := by
  have hmagnitude (exponent fraction : Nat) (hfraction : fraction < 2 ^ 52) :
      magnitude ((exponent + 1) * 2 ^ 52 + fraction) = (2 ^ 52 + fraction) * 2 ^ exponent := by
    have hexponent : exponentOf ((exponent + 1) * 2 ^ 52 + fraction) = exponent + 1 := by
      rw [exponentOf]
      change _ / 2 ^ 52 = _
      omega
    have hrest : fractionOf ((exponent + 1) * 2 ^ 52 + fraction) = fraction := by
      rw [fractionOf]
      change _ % 2 ^ 52 = _
      omega
    rw [magnitude, spacing, hexponent, hrest, if_neg (Nat.succ_ne_zero _), Nat.add_sub_cancel]
    rfl
  obtain hlt | rfl := Nat.lt_or_eq_of_le hhigh
  · have hfield : shift * 2 ^ 52 + m = (shift + 1) * 2 ^ 52 + (m - 2 ^ 52) := by omega
    rw [hfield, hmagnitude _ _ (by omega), Nat.add_sub_cancel' hlow]
  · have hfield : shift * 2 ^ 52 + 2 ^ 53 = (shift + 1 + 1) * 2 ^ 52 + 0 := by omega
    rw [hfield, hmagnitude _ _ (by omega), Nat.pow_succ]
    omega

/-- `m` is a number nearest to `n / step`, and the even one of two such numbers. -/
structure IsNearest (n step m : Nat) : Prop where
  le : 2 * n ≤ 2 * (m * step) + step
  ge : 2 * (m * step) ≤ 2 * n + step
  even : 2 * n = 2 * (m * step) + step ∨ 2 * (m * step) = 2 * n + step → m % 2 = 0

/-- The nearest number is found from the quotient and the rest. -/
theorem isNearest_of_div {n step : Nat} (hstep : 0 < step) :
    IsNearest n step
      (if 2 * (n % step) > step ∨ (2 * (n % step) = step ∧ n / step % 2 = 1) then n / step + 1
      else n / step) := by
  have hdiv := Nat.div_add_mod' n step
  have hlt := Nat.mod_lt n hstep
  have hsucc : (n / step + 1) * step = n / step * step + step := Nat.succ_mul ..
  split
  · constructor <;> omega
  · constructor <;> omega

/-- A common factor has no effect. -/
theorem IsNearest.of_mul {n step m unit : Nat} (hunit : 0 < unit)
    (h : IsNearest (n * unit) (step * unit) m) : IsNearest n step m := by
  have hmultiple : m * (step * unit) = m * step * unit := (Nat.mul_assoc ..).symm
  obtain ⟨hle, hge, heven⟩ := h
  rw [hmultiple] at hle hge heven
  refine ⟨?_, ?_, fun htie => heven (htie.imp (fun h => ?_) fun h => ?_)⟩
  · exact Nat.le_of_mul_le_mul_right (by linarith) hunit
  · exact Nat.le_of_mul_le_mul_right (by linarith) hunit
  · linarith [congrArg (· * unit) h]
  · linarith [congrArg (· * unit) h]

/-- A multiple that is nearest to a number between two others lies between them too. -/
theorem IsNearest.between {n step m low high : Nat} (hstep : 0 < step) (h : IsNearest n step m)
    (hlow : low * step ≤ n) (hhigh : n ≤ high * step) : low ≤ m ∧ m ≤ high := by
  obtain ⟨hle, hge, -⟩ := h
  have hleft : 2 * low < 2 * m + 2 :=
    Nat.lt_of_mul_lt_mul_right (by linarith : _ * step < _ * step)
  have hright : 2 * m < 2 * high + 2 :=
    Nat.lt_of_mul_lt_mul_right (by linarith : _ * step < _ * step)
  omega

/-- A quotient is rounded to a nearest multiple of a power of two. -/
theorem exists_roundedField (num : Nat) {den : Nat} (hden : 0 < den) :
    let shift := (num * unitsPerOne / den).log2 - 52
    ∃ m, roundedField num den = min (shift * 2 ^ 52 + m) infinityField ∧
      IsNearest (num * unitsPerOne) (den * 2 ^ shift) m := by
  intro shift
  exact ⟨_, rfl, isNearest_of_div (Nat.mul_pos hden (Nat.two_pow_pos shift))⟩

theorem log2_mul_two_pow {n : Nat} (hn : n ≠ 0) (k : Nat) : (n * 2 ^ k).log2 = n.log2 + k := by
  have hpow := Nat.two_pow_pos k
  refine (Nat.log2_eq_iff (Nat.mul_ne_zero hn hpow.ne')).2 ⟨?_, ?_⟩
  · rw [Nat.pow_add]
    exact Nat.mul_le_mul_right _ (Nat.log2_self_le hn)
  · rw [Nat.add_right_comm, Nat.pow_add]
    exact Nat.mul_lt_mul_of_pos_right Nat.lt_log2_self hpow

/-- From `2 ^ 52` on a whole number is rounded to a multiple of a power of two. -/
theorem roundedField_whole {n : Nat} (hn : 2 ^ 52 ≤ n) :
    ∃ k m, roundedField n 1 = min ((1074 + k) * 2 ^ 52 + m) infinityField ∧
      2 ^ 52 * 2 ^ k ≤ n ∧ n < 2 ^ 53 * 2 ^ k ∧ IsNearest n (2 ^ k) m := by
  have hpos : n ≠ 0 := by omega
  obtain ⟨k, hk⟩ := Nat.exists_eq_add_of_le ((Nat.le_log2 hpos).2 hn)
  have hlow : 2 ^ (52 + k) ≤ n := hk ▸ Nat.log2_self_le hpos
  have hhigh : n < 2 ^ (53 + k) := by
    rw [show 53 + k = n.log2 + 1 by omega]
    exact Nat.lt_log2_self
  obtain ⟨units, hvalue, hunits⟩ := exists_unitsPerOne_eq
  have hscaled : (n * unitsPerOne / 1).log2 - 52 = units + k := by
    rw [Nat.div_one, hunits, log2_mul_two_pow hpos, hk]
    omega
  obtain ⟨m, hm, hnearest⟩ := exists_roundedField n Nat.one_pos
  rw [hscaled] at hm hnearest
  refine ⟨k, m, hvalue ▸ hm, (Nat.pow_add ..) ▸ hlow, (Nat.pow_add ..) ▸ hhigh, ?_⟩
  refine IsNearest.of_mul unitsPerOne_pos ?_
  rwa [Nat.one_mul, Nat.add_comm, Nat.pow_add, ← hunits] at hnearest

/-- The whole numbers from `2 ^ 63` on are rounded to whole numbers from `2 ^ 63` on, and to that
one just up to `2 ^ 63 + 2 ^ 10`. -/
theorem roundedField_of_two_pow_le {n : Nat} (hn : 2 ^ 63 ≤ n) :
    ∃ field whole, roundedField n 1 = min field infinityField ∧
      magnitude field = whole * unitsPerOne ∧ 2 ^ 63 ≤ whole ∧
      (whole = 2 ^ 63 ↔ n ≤ 2 ^ 63 + 2 ^ 10) ∧ (n ≤ 2 ^ 63 + 2 ^ 10 → field < infinityField) := by
  obtain ⟨k, m, hround, hlow, hhigh, hnearest⟩ := roundedField_whole (by omega : 2 ^ 52 ≤ n)
  have hm := hnearest.between (Nat.two_pow_pos k) hlow (Nat.le_of_lt hhigh)
  refine ⟨_, m * 2 ^ k, hround, ?_, ?_⟩
  · obtain ⟨units, hvalue, hunits⟩ := exists_unitsPerOne_eq
    rw [magnitude_add hm.1 hm.2, ← hvalue, hunits, Nat.add_comm, Nat.pow_add, Nat.mul_assoc]
  -- The numbers below `2 ^ 64` have the distance `2 ^ 11`, and for larger ones nothing is tight.
  · obtain hlt | rfl | ⟨k, rfl⟩ : k < 11 ∨ k = 11 ∨ ∃ more, k = 12 + more :=
      (Nat.lt_trichotomy k 11).imp_right (Or.imp_right Nat.exists_eq_add_of_le)
    · have hle : 2 ^ k ≤ 2 ^ 10 := Nat.pow_le_pow_right (by omega) (by omega)
      omega
    · obtain ⟨hle, hge, heven⟩ := hnearest
      rw [infinityField]
      omega
    · have hpos := Nat.two_pow_pos k
      rw [Nat.pow_add] at hlow ⊢
      have hwhole := Nat.mul_le_mul_right (2 ^ 12 * 2 ^ k) hm.1
      omega

end Binary64

/-! ### The upper end of the integers -/

open Binary64

/-- A finite number that is a whole number keeps its value without its fraction, if this has 64
bits. -/
theorem truncate?_withSign {negative : Bool} {field n : Nat} (hfinite : field < infinityField)
    (hwhole : magnitude field = n * unitsPerOne) :
    truncate? (withSign negative field) = word? (if negative then -(n : Int) else n) := by
  rw [truncate?, ofFloat_withSign (Nat.le_of_lt hfinite), if_pos hfinite]
  dsimp only
  rw [hwhole, Nat.mul_div_cancel n unitsPerOne_pos]

/-- What is infinite is no integer. -/
theorem truncate?_withSign_infinityField (negative : Bool) :
    truncate? (withSign negative infinityField) = none := by
  rw [truncate?, ofFloat_withSign (Nat.le_refl _), if_neg (Nat.lt_irrefl _)]

/-- Of the whole numbers that are too large for an integer, those up to `2 ^ 63 + 2 ^ 10` are taken
for `2 ^ 63`, which is the size of an integer with a minus.  All larger ones are taken for numbers
that do not fit with either sign. -/
theorem truncate?_of_le {n : Nat} (hn : 2 ^ 63 ≤ n) (negative : Bool) :
    truncate? (withSign negative (Decimal.toField ⟨n, 0⟩)) =
      if negative ∧ n ≤ 2 ^ 63 + 2 ^ 10 then some (-9223372036854775808) else none := by
  have hround : Decimal.toField ⟨n, 0⟩ = roundedField n 1 := by
    have hpos : n ≠ 0 := by omega
    simp [Decimal.toField, hpos]
  obtain ⟨field, whole, hfield, hwhole, hle, hiff, hfinite⟩ := roundedField_of_two_pow_le hn
  rw [hround, hfield]
  by_cases hlt : field < infinityField
  · rw [Nat.min_eq_left (Nat.le_of_lt hlt), truncate?_withSign hlt hwhole]
    by_cases h : negative ∧ n ≤ 2 ^ 63 + 2 ^ 10
    · rw [if_pos h, if_pos h.1, hiff.2 h.2]
      exact word?_eq_some_iff.2 rfl
    · rw [if_neg h]
      refine word?_eq_none_iff.2 fun m hm => ?_
      have hlow := m.le_toInt
      have hhigh := m.toInt_lt
      cases negative with
      | false =>
        rw [if_neg Bool.false_ne_true] at hm
        omega
      | true =>
        rw [if_pos rfl] at hm
        exact h ⟨rfl, hiff.1 (by omega)⟩
  · rw [Nat.min_eq_right (Nat.not_lt.1 hlt), truncate?_withSign_infinityField, if_neg]
    exact fun h => hlt (hfinite h.2)

end SnapshotScript
