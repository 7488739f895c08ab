import SnapshotScript.Proofs.Arithmetic.Intervals

/-!
# The shortest decimal of a floating-point number

Whatever is found on a grid of decimals lies in the interval of the number, and so does the number
written out in full.  Hence the shortest decimal is rounded to the number that it was found for
(`Decimal.toField_shortest`), however many digits it has.
-/

namespace SnapshotScript

namespace Decimal

open Binary64

variable {field : Nat}

/-- A number itself is in its interval. -/
theorem Interval.contains_magnitude (hpos : 0 < field) (hfinite : field < infinityField) :
    (Interval.ofField field).Contains (magnitude field / unitsPerOne) := by
  obtain ⟨-, hlow, hhigh⟩ := ends hpos hfinite
  have hvalue : (Interval.ofField field).value = 4 * magnitude field := rfl
  rw [hvalue] at hlow hhigh
  have hlow := Nat.mul_lt_mul_of_pos_right hlow unitsPerOne_pos
  have hhigh := Nat.mul_lt_mul_of_pos_right hhigh unitsPerOne_pos
  rw [Nat.mul_assoc] at hlow hhigh
  exact (contains_div_iff unitsPerOne_pos).2 ⟨hlow.le, hhigh.le, fun _ => ⟨hlow, hhigh⟩⟩

/-! ### Grids -/

/-- The distance on the grid of the multiples of `10 ^ exponent`, as a fraction of the quarters of
the unit. -/
def gridStep (exponent : Int) : Nat × Nat :=
  if 0 ≤ exponent then (Nat.pow 10 exponent.toNat * (4 * unitsPerOne), 1)
  else (4 * unitsPerOne, Nat.pow 10 (-exponent).toNat)

theorem gridStep_pos (exponent : Int) : 0 < (gridStep exponent).1 ∧ 0 < (gridStep exponent).2 := by
  have hunits : 0 < 4 * unitsPerOne := Nat.mul_pos (by decide) unitsPerOne_pos
  have hpow (n : Nat) : 0 < Nat.pow 10 n := Nat.pow_pos (by decide)
  rw [gridStep]
  split
  · exact ⟨Nat.mul_pos (hpow _) hunits, Nat.one_pos⟩
  · exact ⟨hunits, hpow _⟩

/-- The multiples of `10 ^ exponent` are those of the distance. -/
theorem scaled_toRat (c : Nat) (exponent : Int) :
    4 * unitsPerOne * toRat ⟨c, exponent⟩ * (gridStep exponent).2 =
      (c * (gridStep exponent).1 : ℕ) := by
  have hscale : ((gridStep exponent).2 : ℚ) ≠ 0 := Nat.cast_ne_zero.2 (gridStep_pos exponent).2.ne'
  by_cases hexponent : 0 ≤ exponent
  · rw [toRat_of_nonneg hexponent, gridStep, if_pos hexponent]
    push_cast
    ring
  · rw [gridStep, if_neg hexponent] at hscale ⊢
    rw [toRat_of_nonpos (by dsimp only; omega), mul_assoc, div_mul_cancel₀ _ hscale]
    push_cast
    ring

/-- What is found on a grid is in the interval. -/
theorem Interval.contains_of_nearestOnGrid? {i : Interval} {exponent : Int} {c : Nat}
    (hlow : i.low ≤ i.value) (hhigh : i.value < i.high)
    (h : i.nearestOnGrid? exponent = some c) : i.Contains (toRat ⟨c, exponent⟩) := by
  obtain ⟨hstep, hscale⟩ := gridStep_pos exponent
  refine (contains_iff_scaled hscale (scaled_toRat c exponent)).2 ?_
  simp only [nearestOnGrid?] at h
  generalize hgrid : (if 0 ≤ exponent then (_, 1) else _ : Nat × Nat) = grid at h
  obtain rfl : gridStep exponent = grid := hgrid
  generalize (gridStep exponent).1 = step at *
  generalize (gridStep exponent).2 = scale at *
  have hlow := Nat.mul_le_mul_right scale hlow
  have hhigh := Nat.mul_lt_mul_of_pos_right hhigh hscale
  have hdiv := Nat.div_add_mod' (i.value * scale) step
  have hmod := Nat.mod_lt (i.value * scale) hstep
  have hsucc : (i.value * scale / step + 1) * step = i.value * scale / step * step + step :=
    Nat.succ_mul ..
  have hcompare {a b : Nat} :
      (if i.closed = true then decide (a ≤ b) else decide (a < b)) = true ↔
        a ≤ b ∧ (i.closed = false → a < b) := by
    cases i.closed with
    | true => simp
    | false => simpa using Nat.le_of_lt
  -- The two comparisons with the ends, whichever of them are strict, are named before the split.
  generalize hlowOk : (if i.closed = true then decide (i.low * scale ≤ _)
    else decide (i.low * scale < _)) = lowOk at h
  generalize hhighOk : (if i.closed = true then decide (_ ≤ i.high * scale)
    else decide (_ < i.high * scale)) = highOk at h
  split at h
  · next hfound =>
    obtain ⟨rfl, -⟩ := Bool.and_eq_true_iff.1 hfound
    obtain ⟨hle, hlt⟩ := hcompare.1 hhighOk
    cases h
    exact ⟨by omega, hle, fun hopen => ⟨by omega, hlt hopen⟩⟩
  · split at h
    · next hfound =>
      obtain ⟨hle, hlt⟩ := hcompare.1 (hlowOk.trans hfound)
      cases h
      exact ⟨hle, by omega, fun hopen => ⟨hlt hopen, by omega⟩⟩
    · cases h

/-- Zeros at the end of the coefficient are made up for by the exponent. -/
theorem toRat_normalize (bound : Nat) (d : Decimal) : (d.normalize bound).toRat = d.toRat := by
  induction bound generalizing d with
  | zero => rfl
  | succ bound ih =>
    rw [normalize]
    split
    · next h =>
      have hc : (d.coefficient : ℚ) = (d.coefficient / 10 : ℕ) * 10 := by
        exact_mod_cast (Nat.div_mul_cancel (Nat.dvd_of_mod_eq_zero h.2)).symm
      rw [ih, toRat, toRat, zpow_add₀ (by norm_num), zpow_one, hc]
      ring
    · rfl

/-- A number that is written out in full denotes itself. -/
theorem toRat_exact (field : Nat) : (exact field).toRat = magnitude field / unitsPerOne := by
  obtain ⟨k, hk, hunits⟩ := exists_unitsPerOne_eq
  have hexact : exact field = ⟨magnitude field * 5 ^ k, -k⟩ := by
    rw [exact, ← hk, show (-1074 : Int) = -k by omega]
    rfl
  rw [hexact, hunits, toRat, zpow_neg, zpow_natCast]
  push_cast
  rw [show (10 : ℚ) = 2 * 5 by norm_num, mul_pow]
  field_simp

/-- The shortest decimal is found on a grid, unless the number is written out in full. -/
theorem shortest_cases (field : Nat) :
    (∃ exponent c, (Interval.ofField field).nearestOnGrid? exponent = some c ∧
      shortest field = normalize 17 ⟨c, exponent⟩) ∨ shortest field = exact field := by
  unfold shortest
  dsimp only
  split
  · next d hfound =>
    obtain ⟨digits, -, hdigits⟩ := List.exists_of_findSome?_eq_some hfound
    obtain ⟨c, hc, rfl⟩ := Option.map_eq_some_iff.1 hdigits
    exact .inl ⟨_, c, hc, rfl⟩
  · exact .inr rfl

/-- The shortest decimal of a number is in its interval. -/
theorem Interval.contains_shortest (hpos : 0 < field) (hfinite : field < infinityField) :
    (Interval.ofField field).Contains (shortest field).toRat := by
  obtain ⟨exponent, c, hc, heq⟩ | heq := shortest_cases field
  · obtain ⟨-, hlow, hhigh⟩ := ends hpos hfinite
    rw [heq, toRat_normalize]
    exact contains_of_nearestOnGrid? hlow.le hhigh hc
  · rw [heq, toRat_exact]
    exact contains_magnitude hpos hfinite

/-- The shortest decimal of a number is rounded to that number. -/
theorem toField_shortest (hpos : 0 < field) (hfinite : field < infinityField) :
    (shortest field).toField = field :=
  toField_of_contains hpos hfinite (Interval.contains_shortest hpos hfinite)

end Decimal

end SnapshotScript
