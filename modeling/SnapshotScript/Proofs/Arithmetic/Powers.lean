import Mathlib.Algebra.Ring.Int.Defs
import SnapshotScript.Proofs.Arithmetic.Operations

/-!
# Powers of integers

A power of an integer with an exponent that is not negative is an integer where the true power has
64 bits, as long as the exponent is below `exponentBound` (`evaluate_power`).  No larger exponent is
tried.  That shows for zero, one and minus one only, since no other power with such an exponent has
64 bits; but the powers of these three all have (`power_of_one_inexact`).
-/

namespace SnapshotScript

variable {σ κ : Type}

/-! ### Powers that fit -/

/-- A number that is its own cube has no more powers than itself and its square. -/
theorem pow_of_cube_eq {b : Int} (hcube : b ^ 3 = b) {exponent : Nat} (hpos : 0 < exponent) :
    b ^ exponent = b ^ (2 - exponent % 2) := by
  induction exponent using Nat.strongRecOn with
  | ind n ih =>
    match n, hpos with
    | 1, _ => rfl
    | 2, _ => rfl
    | n + 3, _ =>
      calc b ^ (n + 3) = b ^ n * b ^ 3 := pow_add ..
        _ = b ^ (n + 1) := by rw [hcube, pow_succ]
        _ = b ^ (2 - (n + 1) % 2) := ih (n + 1) (by omega) (by omega)
        _ = b ^ (2 - (n + 3) % 2) := by rw [Nat.add_mod_right (n + 1) 2]

/-- No 64-bit integer is a high power of a number other than zero, one and minus one. -/
theorem word?_pow_eq_none {b : Int} {exponent : Nat} (hb : 1 < b.natAbs) (hhigh : 64 ≤ exponent) :
    word? (b ^ exponent) = none := by
  have hsize : 2 ^ 64 ≤ (b ^ exponent).natAbs := by
    rw [Int.natAbs_pow]
    exact Nat.le_trans (Nat.pow_le_pow_left hb 64) (Nat.pow_le_pow_right (by omega) hhigh)
  refine word?_eq_none_iff.2 fun n hn => ?_
  have hlow := n.le_toInt
  have hupper := n.toInt_lt
  omega

/-- The power that is found is the power among the whole numbers, if that one fits. -/
theorem wordPower?_eq (base : Int64) (exponent : Nat) :
    wordPower? base exponent = word? (base.toInt ^ exponent) := by
  rw [wordPower?]
  split
  · next hsmall =>
    have hcube : base.toInt ^ 3 = base.toInt := by
      obtain h | h | h : base.toInt = 0 ∨ base.toInt = 1 ∨ base.toInt = -1 := by omega
      all_goals rw [h]; rfl
    change word? (base.toInt ^ _) = _
    split
    · rw [← pow_of_cube_eq hcube (by omega)]
    · rfl
  · split
    · rfl
    · exact (word?_pow_eq_none (by omega) (by omega)).symm

/-! ### The operator -/

namespace Operator

/-- A power whose exponent is below the bound is exact. -/
theorem power_solves_of_lt {b n : Int64} (hbound : n.toInt < exponentBound) :
    (power (.ints b n) : Value κ).Solves fun z =>
      0 ≤ n.toInt ∧ z = b.toInt ^ n.toInt.toNat := by
  refine intOr_solves _ (fun m hm => ?_) fun hnone z hz => ?_
  · split at hm
    · next hexponent =>
      rw [wordPower?_eq] at hm
      exact ⟨hexponent.1, word?_eq_some_iff.1 hm⟩
    · cases hm
  · rw [if_pos ⟨hz.1, hbound⟩, wordPower?_eq] at hnone
    exact word?_eq_none_iff.1 hnone z hz.2

/-- A power whose exponent is not below the bound is one of floating-point numbers. -/
theorem power_of_le {b n : Int64} (hbound : exponentBound ≤ n.toInt) :
    (power (.ints b n) : Value κ) = .float ((wordToFloat b).pow (wordToFloat n)) := by
  rw [power, if_neg fun h => Int.not_lt.2 hbound h.2]
  rfl

/-- The powers that are not tried do not fit, unless the base is zero, one or minus one. -/
theorem power_solves {b n : Int64} (h : n.toInt < exponentBound ∨ 1 < b.toInt.natAbs) :
    (power (.ints b n) : Value κ).Solves fun z =>
      0 ≤ n.toInt ∧ z = b.toInt ^ n.toInt.toNat := by
  by_cases hbound : n.toInt < exponentBound
  · exact power_solves_of_lt hbound
  · have hbase := h.resolve_left hbound
    have hle := Int.not_lt.1 hbound
    have hexponent : 64 ≤ n.toInt.toNat := by
      rw [show (exponentBound : Int) = 4294967296 from rfl] at hle
      omega
    refine .inr ⟨fun z hz => ?_, _, power_of_le hle⟩
    exact word?_eq_none_iff.1 (word?_pow_eq_none hbase hexponent) z hz.2

end Operator

/-- The power of two integers never fails.  It is the integer `b ^ n` where `n` is not negative and
this number has 64 bits, and a floating-point number otherwise.  Only where `n` is not below
`2 ^ 32` and `b` is zero, one or minus one, the power is a floating-point number in any case. -/
theorem evaluate_power [Runtime σ κ] {limit steps : Nat} {left right : Expr} {b n : Int64}
    {s s₁ s₂ : σ} (hleft : evaluate limit steps left s = .ok (.int b) s₁)
    (hright : evaluate limit steps right s₁ = .ok (.int n) s₂) (position : Position) :
    ∃ v, evaluate limit (steps + 1) (.binary .power left right position) s = .ok v s₂ ∧
      if n.toInt < 2 ^ 32 ∨ 1 < b.toInt.natAbs then
        v.Solves fun z => 0 ≤ n.toInt ∧ z = b.toInt ^ n.toInt.toNat
      else ∃ x, v = .float x := by
  refine ⟨_, evaluate_binary (by decide) hleft hright position, ?_⟩
  split
  · next h => exact Operator.power_solves h
  · next h => exact ⟨_, Operator.power_of_le (Int.not_lt.1 fun hlt => h (.inl hlt))⟩

/-- The least integer is a power of minus two. -/
theorem evaluate_power_least :
    let p := Position.start
    let minusTwo := Expr.unary .minus (.literal (.int 2) p) p
    let exponent := Expr.literal (.int 63) p
    evaluate 1000 2 minusTwo Machine.initial = .ok (.int (-2)) Machine.initial ∧
      evaluate 1000 2 exponent Machine.initial = .ok (.int 63) Machine.initial ∧
      evaluate 1000 3 (.binary .power minusTwo exponent p) Machine.initial =
        .ok (.int (-9223372036854775808)) Machine.initial := by
  intro p minusTwo exponent
  have hminusTwo : evaluate 1000 2 minusTwo Machine.initial = .ok (.int (-2)) Machine.initial := rfl
  have hexponent : evaluate 1000 2 exponent Machine.initial = .ok (.int 63) Machine.initial := rfl
  obtain ⟨v, hresult, hpower⟩ := evaluate_power hminusTwo hexponent p
  have hvalue : (-2 : Int64).toInt ^ (63 : Int64).toInt.toNat = -9223372036854775808 := rfl
  rw [if_pos (by decide), hvalue] at hpower
  refine ⟨hminusTwo, hexponent, hresult.trans ?_⟩
  obtain ⟨m, rfl, -, hm⟩ | ⟨hnone, -⟩ := hpower
  · rw [← Int64.toInt_inj.1 (hm.trans (show _ = (-9223372036854775808 : Int64).toInt from rfl))]
  · exact absurd ⟨by decide, rfl⟩ (hnone (-9223372036854775808))

/-- One to the power of `2 ^ 32` is one, but the program gives a floating-point number. -/
theorem power_of_one_inexact :
    let p := Position.start
    ∃ v, evaluate 1000 2 (.binary .power (.literal (.int 1) p) (.literal (.int 4294967296) p) p)
        Machine.initial = .ok v Machine.initial ∧
      ¬ v.Solves fun z => 0 ≤ (4294967296 : Int) ∧ z = 1 ^ 4294967296 := by
  refine ⟨_, rfl, ?_⟩
  rintro (⟨n, hn, -⟩ | ⟨hnone, -⟩)
  · cases hn
  · exact hnone 1 ⟨by decide, (one_pow (M := Int) 4294967296).symm⟩

end SnapshotScript
