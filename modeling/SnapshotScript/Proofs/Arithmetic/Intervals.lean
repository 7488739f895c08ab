import SnapshotScript.Proofs.Arithmetic.Rounding

/-!
# The interval of a floating-point number

A positive finite number is a multiple `m` of a power `2 ^ s` of two, with fewer than 54 binary
digits (`Binary64.exists_parts`).  The interval between the middles to both its neighbours is the
set of the reals that are rounded to it (`Decimal.Interval.Contains.roundedField_eq`).  The ends of
the interval are in the middle between an even and an odd multiple, and belong to the even one.

Below a power of two the neighbours are only half as far from one another as above it.  A real in
that half of the interval is rounded to a multiple of half the power, so this case is apart from
all others.
-/

namespace SnapshotScript

namespace Binary64

/-- There is one nearest number only, as of two neighbours one is odd. -/
theorem IsNearest.unique {n step m m' : Nat} (hstep : 0 < step) (h : IsNearest n step m)
    (h' : IsNearest n step m') : m = m' := by
  have hle {k k' : Nat} (hk : IsNearest n step k) (hk' : IsNearest n step k') : k ≤ k' := by
    by_contra! hlt
    have hnext : (k' + 1) * step ≤ k * step := Nat.mul_le_mul_right step hlt
    rw [Nat.succ_mul] at hnext
    have hge := hk.ge
    have hle := hk'.le
    have heven := hk.even (.inr (by omega))
    have heven' := hk'.even (.inl (by omega))
    have hsucc : k = k' + 1 := Nat.eq_of_mul_eq_mul_right hstep (by rw [Nat.succ_mul]; omega)
    omega
  exact Nat.le_antisymm (hle h h') (hle h' h)

/-- A quotient between two powers of two is rounded on the grid that belongs to them. -/
theorem roundedField_of_isNearest {num den s m : Nat} (hden : 0 < den)
    (hlow : s = 0 ∨ 2 ^ 52 * (den * 2 ^ s) ≤ num * unitsPerOne)
    (hhigh : num * unitsPerOne < 2 ^ 53 * (den * 2 ^ s))
    (hnearest : IsNearest (num * unitsPerOne) (den * 2 ^ s) m) :
    roundedField num den = min (s * 2 ^ 52 + m) infinityField := by
  have hbelow : num * unitsPerOne / den < 2 ^ (s + 53) := by
    rw [Nat.div_lt_iff_lt_mul hden, Nat.pow_add]
    calc num * unitsPerOne < 2 ^ 53 * (den * 2 ^ s) := hhigh
      _ = 2 ^ s * 2 ^ 53 * den := by ring
  have hshift : (num * unitsPerOne / den).log2 - 52 = s := by
    obtain rfl | hlow := hlow
    · by_cases hzero : num * unitsPerOne / den = 0
      · rw [hzero]
        rfl
      · have := (Nat.log2_lt hzero).2 hbelow
        omega
    · have habove : 2 ^ (s + 52) ≤ num * unitsPerOne / den := by
        rw [Nat.le_div_iff_mul_le hden, Nat.pow_add]
        calc 2 ^ s * 2 ^ 52 * den = 2 ^ 52 * (den * 2 ^ s) := by ring
          _ ≤ num * unitsPerOne := hlow
      have hne : num * unitsPerOne / den ≠ 0 := (Nat.lt_of_lt_of_le (Nat.two_pow_pos _) habove).ne'
      have hlog := (Nat.log2_lt hne).2 hbelow
      have hlog' := (Nat.le_log2 hne).2 habove
      omega
  obtain ⟨m', hround, hnearest'⟩ := exists_roundedField num hden
  rw [hshift] at hround hnearest'
  rw [hround, hnearest.unique (Nat.mul_pos hden (Nat.two_pow_pos s)) hnearest']

/-- A positive finite number in its parts: it is `m` times its spacing, which is `2 ^ s` units, and
its field is put together from the two. -/
structure Parts (field s m : Nat) : Prop where
  field_eq : field = s * 2 ^ 52 + m
  magnitude_eq : magnitude field = m * 2 ^ s
  spacing_eq : spacing field = 2 ^ s
  pos : 0 < m
  lt : m < 2 ^ 53
  le : s ≤ 2045
  normal : s = 0 ∨ 2 ^ 52 ≤ m
  power_iff : fractionOf field = 0 ∧ 1 < exponentOf field ↔ 0 < s ∧ m = 2 ^ 52

/-- A number has a spacing and a multiple of it. -/
theorem exists_parts {field : Nat} (hpos : 0 < field) (hfinite : field < infinityField) :
    ∃ s m, Parts field s m := by
  have hexponent : exponentOf field = field / 2 ^ 52 := rfl
  have hfraction : fractionOf field = field % 2 ^ 52 := rfl
  have hspacing : spacing field = 2 ^ (exponentOf field - 1) := rfl
  rw [infinityField] at hfinite
  by_cases hzero : exponentOf field = 0
  · have hmagnitude : magnitude field = fractionOf field := if_pos hzero
    rw [hzero] at hspacing
    refine ⟨0, field, by omega, by omega, hspacing, hpos, by omega, by omega, .inl rfl, ?_⟩
    omega
  · have hmagnitude : magnitude field = (2 ^ 52 + fractionOf field) * spacing field := if_neg hzero
    rw [hspacing] at hmagnitude
    refine ⟨exponentOf field - 1, 2 ^ 52 + fractionOf field, by omega, hmagnitude, hspacing,
      by omega, by omega, by omega, .inr (by omega), ?_⟩
    omega

/-- What is below a power of two, but nearer to it than a quarter of the distance above it, is
rounded up to the power. -/
theorem roundedField_of_lt_power {num den s : Nat} (hden : 0 < den)
    (hlow : 4 * (2 ^ 52 * (den * 2 ^ (s + 1))) ≤ 4 * (num * unitsPerOne) + den * 2 ^ (s + 1))
    (hlt : num * unitsPerOne < 2 ^ 52 * (den * 2 ^ (s + 1))) :
    roundedField num den = min ((s + 1) * 2 ^ 52 + 2 ^ 52) infinityField := by
  have hdouble : den * 2 ^ (s + 1) = 2 * (den * 2 ^ s) := by ring
  rw [hdouble] at hlow hlt
  have hnearest : IsNearest (num * unitsPerOne) (den * 2 ^ s) (2 ^ 53) :=
    ⟨by omega, by omega, fun _ => rfl⟩
  rw [Nat.succ_mul, Nat.add_assoc, ← Nat.two_mul, ← Nat.pow_succ']
  exact roundedField_of_isNearest hden (.inr (by omega)) (by omega) hnearest

/-- What a number is nearest to is rounded to it, unless this is below a power of two. -/
theorem Parts.roundedField_eq {field s m num den : Nat} (hparts : Parts field s m) (hden : 0 < den)
    (hnearest : IsNearest (num * unitsPerOne) (den * 2 ^ s) m)
    (hpower : 0 < s ∧ m = 2 ^ 52 → m * (den * 2 ^ s) ≤ num * unitsPerOne) :
    roundedField num den = min field infinityField := by
  have hmultiple {k k' : Nat} (hk : k ≤ k') : k * (den * 2 ^ s) ≤ k' * (den * 2 ^ s) :=
    Nat.mul_le_mul_right _ hk
  have hstep : 0 < den * 2 ^ s := Nat.mul_pos hden (Nat.two_pow_pos s)
  obtain ⟨hle, hge, -⟩ := id hnearest
  rw [hparts.field_eq]
  refine roundedField_of_isNearest hden ?_ ?_ hnearest
  · obtain hs | hs := Nat.eq_zero_or_pos s
    · exact .inl hs
    · obtain hlt | heq := Nat.lt_or_eq_of_le (hparts.normal.resolve_left hs.ne')
      · have := hmultiple hlt
        rw [Nat.succ_mul] at this
        exact .inr (by omega)
      · rw [heq]
        exact .inr (hpower ⟨hs, heq.symm⟩)
  · have := hmultiple hparts.lt
    rw [Nat.succ_mul] at this
    omega

end Binary64

namespace Decimal

open Binary64

/-- A number is in the interval, or is one of its ends and these belong to it. -/
structure Interval.Contains (i : Interval) (q : ℚ) : Prop where
  low_le : i.low ≤ 4 * unitsPerOne * q
  le_high : 4 * unitsPerOne * q ≤ i.high
  inside : i.closed = false → i.low < 4 * unitsPerOne * q ∧ 4 * unitsPerOne * q < i.high

/-- The ends of an interval lie half a spacing around the number, and at a power of two a quarter of
the spacing below it. -/
theorem Interval.ofField_eq {field s m : Nat} (h : Parts field s m) :
    Interval.ofField field =
      { low := 4 * (m * 2 ^ s) - (if 0 < s ∧ m = 2 ^ 52 then 2 ^ s else 2 * 2 ^ s)
        value := 4 * (m * 2 ^ s)
        high := 4 * (m * 2 ^ s) + 2 * 2 ^ s
        closed := decide (m % 2 = 0) } := by
  have hparity : field % 2 = m % 2 := by
    have := h.field_eq
    omega
  have hlow {value gap : Nat} :
      (if 0 < s ∧ m = 2 ^ 52 then value - gap else value - 2 * gap) =
        value - if 0 < s ∧ m = 2 ^ 52 then gap else 2 * gap := by
    split <;> rfl
  simp only [Interval.ofField, h.magnitude_eq, h.spacing_eq, h.power_iff, hparity, hlow]

/-- Whether a number is in an interval is told on any finer scale. -/
theorem Interval.contains_iff_scaled {i : Interval} {q : ℚ} {n scale : Nat} (hscale : 0 < scale)
    (hq : 4 * unitsPerOne * q * scale = n) :
    i.Contains q ↔ i.low * scale ≤ n ∧ n ≤ i.high * scale ∧
      (i.closed = false → i.low * scale < n ∧ n < i.high * scale) := by
  have hpos : (0 : ℚ) < scale := Nat.cast_pos.2 hscale
  have hle (bound : ℕ) : (bound : ℚ) ≤ 4 * unitsPerOne * q ↔ bound * scale ≤ n := by
    rw [← mul_le_mul_iff_left₀ hpos, hq]
    exact_mod_cast Iff.rfl
  have hge (bound : ℕ) : 4 * unitsPerOne * q ≤ bound ↔ n ≤ bound * scale := by
    rw [← mul_le_mul_iff_left₀ hpos, hq]
    exact_mod_cast Iff.rfl
  have hlt (bound : ℕ) : (bound : ℚ) < 4 * unitsPerOne * q ↔ bound * scale < n := by
    rw [← not_le, hge, not_le]
  have hgt (bound : ℕ) : 4 * unitsPerOne * q < bound ↔ n < bound * scale := by
    rw [← not_le, hle, not_le]
  rw [← hle, ← hge, ← hlt, ← hgt]
  exact ⟨fun h => ⟨h.low_le, h.le_high, h.inside⟩, fun h => ⟨h.1, h.2.1, h.2.2⟩⟩

/-- Whether a quotient is in the interval is told without dividing. -/
theorem Interval.contains_div_iff {i : Interval} {num den : Nat} (hden : 0 < den) :
    i.Contains (num / den) ↔ i.low * den ≤ 4 * (num * unitsPerOne) ∧
      4 * (num * unitsPerOne) ≤ i.high * den ∧ (i.closed = false →
        i.low * den < 4 * (num * unitsPerOne) ∧ 4 * (num * unitsPerOne) < i.high * den) := by
  have hne : (den : ℚ) ≠ 0 := Nat.cast_ne_zero.2 hden.ne'
  refine contains_iff_scaled hden ?_
  rw [mul_assoc, div_mul_cancel₀ _ hne]
  push_cast
  ring

/-- A quotient in the interval of a number lies between the ends, and on an end only if the multiple
is even. -/
theorem Interval.Contains.bounds {field s m num den : Nat} (hparts : Parts field s m)
    (hden : 0 < den) (h : (Interval.ofField field).Contains (num / den)) :
    4 * (m * (den * 2 ^ s)) ≤ 4 * (num * unitsPerOne) +
        (if 0 < s ∧ m = 2 ^ 52 then den * 2 ^ s else 2 * (den * 2 ^ s)) ∧
      2 * (num * unitsPerOne) ≤ 2 * (m * (den * 2 ^ s)) + den * 2 ^ s ∧
      (2 * (num * unitsPerOne) = 2 * (m * (den * 2 ^ s)) + den * 2 ^ s ∨
        2 * (m * (den * 2 ^ s)) = 2 * (num * unitsPerOne) + den * 2 ^ s → m % 2 = 0) := by
  obtain ⟨hlow, hhigh, hstrict⟩ := (contains_div_iff hden).1 h
  have hmultiple : 4 * (m * 2 ^ s) * den = 4 * (m * (den * 2 ^ s)) := by ring
  have hgap : 2 * 2 ^ s * den = 2 * (den * 2 ^ s) := by ring
  have hdistance : (if 0 < s ∧ m = 2 ^ 52 then 2 ^ s else 2 * 2 ^ s) * den =
      if 0 < s ∧ m = 2 ^ 52 then den * 2 ^ s else 2 * (den * 2 ^ s) := by
    split
    · exact Nat.mul_comm ..
    · exact hgap
  simp only [Interval.ofField_eq hparts, decide_eq_false_iff_not, Nat.sub_mul, Nat.add_mul,
    hmultiple, hgap, hdistance] at hlow hhigh hstrict
  generalize num * unitsPerOne = n at *
  generalize den * 2 ^ s = step at *
  generalize m * step = middle at *
  refine ⟨by omega, by omega, fun htie => ?_⟩
  by_contra hodd
  obtain ⟨habove, hbelow⟩ := hstrict hodd
  split at habove <;> omega

/-- The quotients in the interval of a number are rounded to it. -/
theorem Interval.Contains.roundedField_eq {field num den : Nat} (hden : 0 < den)
    (hpos : 0 < field) (hfinite : field < infinityField)
    (h : (Interval.ofField field).Contains (num / den)) : roundedField num den = field := by
  obtain ⟨s, m, hparts⟩ := exists_parts hpos hfinite
  obtain ⟨hlow, hhigh, heven⟩ := h.bounds hparts hden
  suffices hround : roundedField num den = min field infinityField by
    rw [hround, Nat.min_eq_left (Nat.le_of_lt hfinite)]
  by_cases hhalf : (0 < s ∧ m = 2 ^ 52) ∧ num * unitsPerOne < m * (den * 2 ^ s)
  -- Below a power of two the distance is half of that above it.
  · obtain ⟨hpower, hlt⟩ := hhalf
    rw [if_pos hpower] at hlow
    obtain ⟨hs, rfl⟩ := hpower
    obtain ⟨s, rfl⟩ : ∃ s', s = s' + 1 := ⟨s - 1, by omega⟩
    rw [hparts.field_eq]
    exact roundedField_of_lt_power hden hlow hlt
  · have hgap : (if 0 < s ∧ m = 2 ^ 52 then den * 2 ^ s else 2 * (den * 2 ^ s)) ≤
        2 * (den * 2 ^ s) := by
      split <;> omega
    exact hparts.roundedField_eq hden ⟨hhigh, by omega, heven⟩ fun hpower =>
      Nat.not_lt.1 fun hlt => hhalf ⟨hpower, hlt⟩

/-- The interval reaches to both sides of the number, and it leaves out zero. -/
theorem Interval.ends {field : Nat} (hpos : 0 < field) (hfinite : field < infinityField) :
    2 ≤ (Interval.ofField field).low ∧
      (Interval.ofField field).low < (Interval.ofField field).value ∧
      (Interval.ofField field).value < (Interval.ofField field).high := by
  obtain ⟨s, m, hparts⟩ := exists_parts hpos hfinite
  have hgap : 1 ≤ 2 ^ s := Nat.two_pow_pos s
  have hmultiple : 1 * 2 ^ s ≤ m * 2 ^ s := Nat.mul_le_mul_right _ hparts.pos
  rw [Interval.ofField_eq hparts]
  dsimp only
  split <;> omega

/-- A number with a whole number in its interval is whole. -/
theorem Interval.Contains.dvd {field n : Nat} (hpos : 0 < field) (hfinite : field < infinityField)
    (h : (Interval.ofField field).Contains n) : unitsPerOne ∣ magnitude field := by
  obtain ⟨s, m, hparts⟩ := exists_parts hpos hfinite
  obtain ⟨k, -, hunits⟩ := exists_unitsPerOne_eq
  rw [hparts.magnitude_eq]
  obtain hlt | hle := Nat.lt_or_ge s k
  · obtain ⟨j, rfl⟩ := Nat.exists_eq_add_of_le hlt.le
    have hn : (n : ℚ) = n / (1 : ℕ) := by rw [Nat.cast_one, div_one]
    rw [hn] at h
    obtain ⟨hlow, hhigh, -⟩ := h.bounds hparts Nat.one_pos
    have hscaled : n * unitsPerOne = n * 2 ^ j * 2 ^ s := by
      rw [hunits]
      ring
    rw [hscaled, Nat.one_mul] at hlow hhigh
    have hgap : (if 0 < s ∧ m = 2 ^ 52 then 2 ^ s else 2 * 2 ^ s) ≤ 2 * 2 ^ s := by
      split <;> omega
    have hstep := Nat.two_pow_pos s
    have hle : 2 * m ≤ 2 * (n * 2 ^ j) + 1 :=
      Nat.le_of_mul_le_mul_right (by linarith) hstep
    have hge : 2 * (n * 2 ^ j) ≤ 2 * m + 1 :=
      Nat.le_of_mul_le_mul_right (by linarith) hstep
    have hm : m = n * 2 ^ j := by omega
    rw [hm, ← hscaled]
    exact Nat.dvd_mul_left ..
  · rw [hunits]
    exact Dvd.dvd.mul_left (Nat.pow_dvd_pow 2 hle) m

/-! ### Decimals in the interval -/

/-- The number that a decimal denotes. -/
def toRat (d : Decimal) : ℚ :=
  d.coefficient * 10 ^ d.exponent

theorem toRat_of_nonneg {d : Decimal} (h : 0 ≤ d.exponent) :
    d.toRat = ((d.coefficient * Nat.pow 10 d.exponent.toNat : ℕ) : ℚ) / (1 : ℕ) := by
  obtain ⟨e, he⟩ := Int.eq_ofNat_of_zero_le h
  rw [toRat, he, Int.toNat_natCast, zpow_natCast, Nat.cast_one, div_one]
  exact_mod_cast rfl

theorem toRat_of_nonpos {d : Decimal} (h : d.exponent ≤ 0) :
    d.toRat = d.coefficient / (Nat.pow 10 (-d.exponent).toNat : ℕ) := by
  obtain ⟨e, he⟩ := Int.exists_eq_neg_ofNat h
  rw [toRat, he, Int.neg_neg, Int.toNat_natCast, zpow_neg, zpow_natCast, ← div_eq_mul_inv]
  exact_mod_cast rfl

section Positive

variable {field : Nat} {q : ℚ} {d : Decimal} (hpos : 0 < field) (hfinite : field < infinityField)

include hpos hfinite

/-- The numbers in the interval are not small. -/
theorem Interval.Contains.one_le (h : (Interval.ofField field).Contains q) :
    1 ≤ 2 * unitsPerOne * q := by
  have hlow : (2 : ℚ) ≤ (Interval.ofField field).low := by
    exact_mod_cast (Interval.ends hpos hfinite).1
  linarith [h.low_le]

/-- The numbers in the interval are not large. -/
theorem Interval.Contains.lt (h : (Interval.ofField field).Contains q) : q < 10 ^ 311 := by
  obtain ⟨s, m, hparts⟩ := exists_parts hpos hfinite
  obtain ⟨k, hk, hunits⟩ := exists_unitsPerOne_eq
  have hhigh : (Interval.ofField field).high ≤ 4 * 2 ^ k * 2 ^ 1024 := by
    have hmultiple : (m + 1) * 2 ^ s ≤ 2 ^ 53 * 2 ^ s := Nat.mul_le_mul_right _ hparts.lt
    have hpow : 2 ^ (53 + s) ≤ 2 ^ (k + 1024) := by
      have := hparts.le
      exact Nat.pow_le_pow_right Nat.two_pos (by omega)
    calc (Interval.ofField field).high = 4 * (m * 2 ^ s) + 2 * 2 ^ s := by
          rw [Interval.ofField_eq hparts]
      _ ≤ 4 * ((m + 1) * 2 ^ s) := by
          rw [Nat.succ_mul m]
          omega
      _ ≤ 4 * (2 ^ 53 * 2 ^ s) := Nat.mul_le_mul_left 4 hmultiple
      _ ≤ 4 * (2 ^ k * 2 ^ 1024) := by
          rw [← Nat.pow_add, ← Nat.pow_add]
          exact Nat.mul_le_mul_left 4 hpow
      _ = 4 * 2 ^ k * 2 ^ 1024 := (Nat.mul_assoc ..).symm
  have hbound := h.le_high
  rw [hunits] at hbound
  have hq : q ≤ 2 ^ 1024 := by
    refine le_of_mul_le_mul_left (hbound.trans ?_) (by positivity)
    exact_mod_cast hhigh
  have hten : 2 ^ 1024 < 10 ^ 311 := by decide +kernel
  exact hq.trans_lt (by exact_mod_cast hten)

/-- Zero is in no interval. -/
theorem Interval.Contains.coefficient_pos (h : (Interval.ofField field).Contains d.toRat) :
    0 < d.coefficient := by
  have hone := h.one_le hpos hfinite
  refine Nat.pos_of_ne_zero fun hzero => ?_
  rw [toRat, hzero, Nat.cast_zero, zero_mul, mul_zero] at hone
  exact absurd hone (by norm_num)

/-- A decimal in the interval is not told to be large from its exponent. -/
theorem Interval.Contains.exponent_le (h : (Interval.ofField field).Contains d.toRat) :
    d.exponent ≤ 310 := by
  by_contra! hlarge
  have hpow : (10 : ℚ) ^ (311 : ℤ) ≤ 10 ^ d.exponent := zpow_le_zpow_right₀ (by norm_num) hlarge
  have hc : (1 : ℚ) ≤ d.coefficient := by exact_mod_cast h.coefficient_pos hpos hfinite
  have hle : (10 : ℚ) ^ d.exponent ≤ d.toRat := le_mul_of_one_le_left (by positivity) hc
  exact absurd ((hpow.trans hle).trans_lt (h.lt hpos hfinite)) (lt_irrefl _)

/-- A decimal in the interval is not told to be small from its exponent, as `8 ^ n ≤ 10 ^ n`. -/
theorem Interval.Contains.le_exponent (h : (Interval.ofField field).Contains d.toRat) :
    -1080 ≤ 3 * d.exponent + d.coefficient.log2 := by
  by_contra! hsmall
  have hone := h.one_le hpos hfinite
  obtain ⟨k, hk, hunits⟩ := exists_unitsPerOne_eq
  have hden : (0 : ℚ) < Nat.pow 10 (-d.exponent).toNat :=
    Nat.cast_pos.2 (Nat.pow_pos (by decide))
  rw [toRat_of_nonpos (by omega), hunits, mul_div_assoc', one_le_div hden] at hone
  have hlt : 2 ^ (3 * (-d.exponent).toNat) < 2 ^ (1 + k + (d.coefficient.log2 + 1)) := by
    calc 2 ^ (3 * (-d.exponent).toNat) = 8 ^ (-d.exponent).toNat := Nat.pow_mul ..
      _ ≤ 10 ^ (-d.exponent).toNat := Nat.pow_le_pow_left (by decide) _
      _ ≤ 2 * 2 ^ k * d.coefficient := by exact_mod_cast hone
      _ < 2 * 2 ^ k * 2 ^ (d.coefficient.log2 + 1) :=
        Nat.mul_lt_mul_of_pos_left Nat.lt_log2_self (Nat.mul_pos Nat.two_pos (Nat.two_pow_pos k))
      _ = 2 ^ (1 + k + (d.coefficient.log2 + 1)) := by rw [Nat.pow_add 2 (1 + k), Nat.pow_add 2 1]
  have := (Nat.pow_lt_pow_iff_right Nat.one_lt_two).1 hlt
  omega

/-- The decimals in the interval of a number are rounded to it. -/
theorem toField_of_contains (h : (Interval.ofField field).Contains d.toRat) :
    d.toField = field := by
  have hlarge := h.exponent_le hpos hfinite
  have hsmall := h.le_exponent hpos hfinite
  rw [toField, if_neg (h.coefficient_pos hpos hfinite).ne', if_neg (by omega), if_neg (by omega)]
  split
  · next hexponent =>
    rw [toRat_of_nonneg hexponent] at h
    exact h.roundedField_eq Nat.one_pos hpos hfinite
  · next hexponent =>
    rw [toRat_of_nonpos (by omega)] at h
    exact h.roundedField_eq (Nat.pow_pos (by decide)) hpos hfinite

end Positive

end Decimal

end SnapshotScript
