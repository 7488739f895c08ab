import Mathlib.Data.List.Induction
import SnapshotScript.Proofs.Arithmetic.Decimals

/-!
# Written forms of decimals

A decimal is written with a point among its digits, or with an exponent behind them, or with both
(`FloatNumeral`).  Such a numeral is read as the decimal again, with or without a minus in front of
it, and it cannot be taken for the numeral of an integer.
-/

namespace SnapshotScript

open Lexical

/-- The numerals in which floating-point numbers are written, without their sign, and the decimals
that they denote. -/
inductive FloatNumeral : List Char → Decimal → Prop
  | point {whole fraction} : Digits whole → Digits fraction →
    FloatNumeral (whole ++ '.' :: fraction) ⟨decimalValue (whole ++ fraction), -fraction.length⟩
  | exponent {whole e} : Digits whole → Int.natAbs e < exponentCap →
    FloatNumeral (whole ++ 'E' :: (toString e).toList) ⟨decimalValue whole, e⟩
  | pointExponent {whole fraction e} : Digits whole → Digits fraction →
    Int.natAbs e < exponentCap →
    FloatNumeral (whole ++ '.' :: (fraction ++ 'E' :: (toString e).toList))
      ⟨decimalValue (whole ++ fraction), e - fraction.length⟩

/-! ### Exponents -/

/-- A small exponent is read in full. -/
theorem exponentSize_eq (digits : List Char) (h : decimalValue digits < exponentCap) :
    exponentSize digits = decimalValue digits := by
  induction digits using List.reverseRecOn with
  | nil => rfl
  | append_singleton digits c ih =>
    rw [decimalValue_concat] at h ⊢
    rw [exponentSize] at ih ⊢
    rw [List.foldl_append, ih (by omega), List.foldl_cons, List.foldl_nil, if_pos (by omega)]

/-- A number is written with digits, at least one. -/
theorem digits_decimalDigits (n : Nat) : Digits (decimalDigits n) :=
  ⟨decimalDigits_ne_nil n, fun _ => isDigit_of_mem_decimalDigits⟩

/-- An integer is written with its sign and its digits. -/
theorem toList_toString (e : Int) :
    (toString e).toList = (signText (decide (e < 0))).toList ++ decimalDigits e.natAbs := by
  rw [Int.toString_eq_repr, Int.repr_eq_if, decimalDigits]
  split
  · next hnonneg =>
    rw [decide_eq_false (by omega), Nat.toList_repr, show e.toNat = e.natAbs by omega]
    rfl
  · next hneg =>
    rw [decide_eq_true (by omega), String.toList_append, Nat.toList_repr,
      show (-e).toNat = e.natAbs by omega]
    rfl

/-- A small exponent is read back. -/
theorem readExponent?_toString {e : Int} (h : e.natAbs < exponentCap) :
    readExponent? ('E' :: (toString e).toList) = some e := by
  have hdigits := digits_decimalDigits e.natAbs
  have hsize : exponentSize (decimalDigits e.natAbs) = e.natAbs := by
    rw [exponentSize_eq _ (by rwa [decimalValue_decimalDigits]), decimalValue_decimalDigits]
  have hsign : splitSign (toString e).toList = (decide (e < 0), decimalDigits e.natAbs) := by
    rw [toList_toString]
    by_cases hneg : e < 0
    · rw [decide_eq_true hneg]
      rfl
    · rw [decide_eq_false hneg]
      exact hdigits.splitSign_eq
  rw [readExponent?, if_pos (.inr rfl), hsign]
  dsimp only
  rw [if_pos ⟨hdigits.1, List.all_eq_true.2 hdigits.2⟩, hsize]
  split
  · next hneg =>
    have := of_decide_eq_true hneg
    exact congrArg some (by omega)
  · next hneg =>
    have := of_decide_eq_false (Bool.eq_false_iff.2 hneg)
    exact congrArg some (by omega)

/-! ### Reading a numeral -/

namespace FloatNumeral

variable {cs : List Char} {d : Decimal}

/-- A numeral is read as the decimal that it denotes. -/
theorem readDecimal?_eq (h : FloatNumeral cs d) : readDecimal? cs = some d := by
  have hend {e : Int} : EndsDigits ('E' :: (toString e).toList) := by
    rintro c ⟨⟩
    decide
  cases h with
  | @point whole fraction hwhole hfraction =>
    have hread := @readDecimal?_point whole fraction [] hwhole.2 hfraction.2 (by simp [hwhole.1])
      nofun
    rwa [List.append_nil, readExponent?, Option.map_some, Int.zero_sub] at hread
  | exponent hwhole he =>
    rw [readDecimal?_whole hwhole.2 hwhole.1 hend (by simp), readExponent?_toString he,
      Option.map_some]
  | pointExponent hwhole hfraction he =>
    rw [readDecimal?_point hwhole.2 hfraction.2 (by simp [hwhole.1]) hend,
      readExponent?_toString he, Option.map_some]

/-- A numeral is read as the nearest number, with or without a minus. -/
theorem readFloat?_eq (h : FloatNumeral cs d) (negative : Bool) :
    readFloat? ((signText negative).toList ++ cs) =
      some (Binary64.withSign negative d.toField) := by
  have hfirst : ∃ c more, cs = c :: more ∧ isDigit c = true := by
    have hwhole {whole : List Char} (hwhole : Digits whole) (rest : List Char) :
        ∃ c more, whole ++ rest = c :: more ∧ isDigit c = true := by
      obtain ⟨hne, hall⟩ := hwhole
      obtain ⟨c, more, rfl⟩ := List.exists_cons_of_ne_nil hne
      exact ⟨c, more ++ rest, rfl, hall c List.mem_cons_self⟩
    cases h with
    | point h | exponent h | pointExponent h => exact hwhole h _
  obtain ⟨c, more, rfl, hc⟩ := hfirst
  rw [readFloat?_of_isDigit hc, h.readDecimal?_eq, Option.map_some]

/-- A numeral holds a point or the letter of an exponent. -/
theorem mem_or_mem (h : FloatNumeral cs d) : '.' ∈ cs ∨ 'E' ∈ cs := by
  cases h with
  | point | pointExponent => exact .inl (by simp)
  | exponent => exact .inr (by simp)

/-- What else there is in a numeral are digits and minuses. -/
theorem isDigit_or_mem (h : FloatNumeral cs d) {c : Char} (hc : c ∈ cs) :
    isDigit c = true ∨ c ∈ ['.', 'E', '-'] := by
  have hexponent {e : Int} (hc : c ∈ 'E' :: (toString e).toList) :
      isDigit c = true ∨ c ∈ ['.', 'E', '-'] := by
    have hsign : (signText (decide (e < 0))).toList ⊆ ['-'] := by
      cases decide (e < 0) <;> decide
    rw [toList_toString, List.mem_cons, List.mem_append] at hc
    obtain rfl | hc | hc := hc
    · exact .inr (by decide)
    · exact .inr (List.mem_cons_of_mem _ (List.mem_cons_of_mem _ (hsign hc)))
    · exact .inl (isDigit_of_mem_decimalDigits hc)
  cases h with
  | point hwhole hfraction =>
    obtain hc | rfl | hc := by simpa using hc
    · exact .inl (hwhole.2 c hc)
    · exact .inr (by decide)
    · exact .inl (hfraction.2 c hc)
  | exponent hwhole =>
    obtain hc | hc := List.mem_append.1 hc
    · exact .inl (hwhole.2 c hc)
    · exact hexponent hc
  | pointExponent hwhole hfraction =>
    rw [List.mem_append, List.mem_cons, List.mem_append] at hc
    obtain hc | rfl | hc | hc := hc
    · exact .inl (hwhole.2 c hc)
    · exact .inr (by decide)
    · exact .inl (hfraction.2 c hc)
    · exact hexponent hc

end FloatNumeral

/-! ### Writing a decimal -/

namespace Decimal

variable {d : Decimal}

/-- Zeros in front of digits do not count. -/
theorem decimalValue_zeros_append (count : Nat) (digits : List Char) :
    decimalValue (zeros count ++ digits) = decimalValue digits := by
  rw [decimalValue_eq, decimalValue_eq, numeralValue, Nat.ofDigitChars_append, zeros,
    Nat.ofDigitChars_replicate_zero, Nat.mul_zero, numeralValue]

/-- A decimal with places behind the point is written with a point. -/
theorem floatNumeral_positional (h : d.exponent < 0) : FloatNumeral d.positional d := by
  obtain ⟨places, hplaces⟩ : ∃ places : Nat, d.exponent = -places := ⟨d.exponent.natAbs, by omega⟩
  obtain ⟨c, e⟩ := d
  subst hplaces
  have hdigits := digits_decimalDigits c
  have hvalue := decimalValue_decimalDigits c
  rw [positional, if_neg (by omega), Int.neg_neg, Int.toNat_natCast]
  dsimp only
  generalize decimalDigits c = digits at hdigits hvalue ⊢
  have hpositive : 0 < places := by
    dsimp only at h
    omega
  split
  · next hlt =>
    have hwhole : Digits (digits.take (digits.length - places)) := by
      refine ⟨List.ne_nil_of_length_pos ?_, fun c hc => hdigits.2 c (List.mem_of_mem_take hc)⟩
      rw [List.length_take]
      omega
    have hlength : (digits.drop (digits.length - places)).length = places := by
      rw [List.length_drop]
      omega
    have hfraction : Digits (digits.drop (digits.length - places)) :=
      ⟨List.ne_nil_of_length_pos (by omega), fun c hc => hdigits.2 c (List.mem_of_mem_drop hc)⟩
    have hpoint := FloatNumeral.point hwhole hfraction
    rwa [List.take_append_drop, hvalue, hlength] at hpoint
  · next hle =>
    have hfraction : Digits (zeros (places - digits.length) ++ digits) := by
      refine ⟨List.append_ne_nil_of_right_ne_nil _ hdigits.1, fun c hc => ?_⟩
      obtain hc | hc := List.mem_append.1 hc
      · rw [List.eq_of_mem_replicate hc]
        decide
      · exact hdigits.2 c hc
    have hlength : (zeros (places - digits.length) ++ digits).length = places := by
      rw [List.length_append, zeros, List.length_replicate]
      omega
    have hpoint := FloatNumeral.point (digits_decimalDigits 0) hfraction
    rwa [show decimalDigits 0 = zeros 1 from rfl, decimalValue_zeros_append,
      decimalValue_zeros_append, hvalue, hlength] at hpoint

/-- A decimal is written with an exponent, if that is small. -/
theorem floatNumeral_scientific
    (h : (d.exponent + (decimalDigits d.coefficient).length - 1).natAbs < exponentCap) :
    FloatNumeral d.scientific d := by
  obtain ⟨c, e⟩ := d
  have hdigits := digits_decimalDigits c
  have hvalue := decimalValue_decimalDigits c
  rw [scientific]
  dsimp only at h ⊢
  generalize decimalDigits c = digits at h hdigits hvalue ⊢
  cases digits with
  | nil => exact absurd rfl hdigits.1
  | cons first rest =>
    cases rest with
    | nil =>
      have hplace : e + ([first].length : Int) - 1 = e := Int.add_sub_cancel ..
      have hnumeral := FloatNumeral.exponent hdigits h
      rw [hplace]
      rwa [hvalue, hplace] at hnumeral
    | cons second more =>
      have hwhole : Digits [first] := ⟨by simp, by simpa using hdigits.2 first List.mem_cons_self⟩
      have hfraction : Digits (second :: more) :=
        ⟨by simp, fun c hc => hdigits.2 c (List.mem_cons_of_mem _ hc)⟩
      have hplaces : e + ((first :: second :: more).length : Int) - 1 - (second :: more).length =
          e := by
        simp only [List.length_cons]
        omega
      have hnumeral := FloatNumeral.pointExponent hwhole hfraction h
      rwa [hplaces, List.singleton_append, List.singleton_append, hvalue] at hnumeral

end Decimal

end SnapshotScript
