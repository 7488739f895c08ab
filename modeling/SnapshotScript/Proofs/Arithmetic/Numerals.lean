import Mathlib.Data.List.TakeWhile
import SnapshotScript.Number.Numeral
import SnapshotScript.Proofs.Lexical.Lexeme

/-!
# Integer numerals

An integer numeral is a list of digits, with or without a sign in front.  It is read as the integer
that it denotes, of any size (`IntegerNumeral.readInteger?_eq`), and as the floating-point number to
which this integer is rounded (`IntegerNumeral.readFloat?_eq`).
-/

namespace SnapshotScript

open Lexical

/-- The number that digits denote. -/
def numeralValue (digits : List Char) : Nat :=
  Nat.ofDigitChars 10 digits 0

/-- The integer that a numeral denotes. -/
inductive IntegerNumeral : List Char → Int → Prop where
  | unsigned {digits} : Digits digits → IntegerNumeral digits (numeralValue digits)
  | plus {digits} : Digits digits → IntegerNumeral ('+' :: digits) (numeralValue digits)
  | minus {digits} : Digits digits → IntegerNumeral ('-' :: digits) (-numeralValue digits)

/-- The value of digits is found from either end. -/
theorem decimalValue_eq (digits : List Char) : decimalValue digits = numeralValue digits := by
  have hvalue (reversed : List Char) :
      decimalValue reversed.reverse = numeralValue reversed.reverse := by
    induction reversed with
    | nil => rfl
    | cons c cs ih =>
      rw [List.reverse_cons, decimalValue_concat, ih, numeralValue, numeralValue,
        Nat.ofDigitChars_append]
      rfl
  rw [← digits.reverse_reverse, hvalue]

/-! ### Digits without a sign -/

/-- A digit is neither a sign nor one of the letters with which names of numbers begin. -/
theorem not_mem_of_isDigit {c : Char} (h : isDigit c = true) : c ∉ ['+', '-', 'i', 'n'] := by
  intro hmem
  simp only [List.mem_cons, List.not_mem_nil, or_false] at hmem
  obtain rfl | rfl | rfl | rfl := hmem <;> exact absurd h (by decide)

/-- A digit has no case. -/
theorem toLower_of_isDigit {c : Char} (h : isDigit c = true) : c.toLower = c := by
  simp only [isDigit, Char.isDigit, Bool.and_eq_true, decide_eq_true_eq] at h
  have hcapital : ¬ (c.val ≥ 'A'.val ∧ c.val ≤ 'Z'.val) := by
    rintro ⟨hle, -⟩
    exact absurd (UInt32.le_trans hle h.2) (by decide)
  exact dif_neg hcapital

namespace Lexical.Digits

variable {digits : List Char}

theorem splitSign_eq (h : Digits digits) : splitSign digits = (false, digits) := by
  obtain ⟨hne, hall⟩ := h
  cases digits with
  | nil => exact absurd rfl hne
  | cons c cs =>
    have hc := not_mem_of_isDigit (hall c (List.mem_cons_self ..))
    simp only [List.mem_cons, not_or] at hc
    simp [splitSign, hc]

theorem readDigits?_eq (h : Digits digits) : readDigits? digits = some (numeralValue digits) := by
  rw [readDigits?, if_pos ⟨h.1, List.all_eq_true.2 h.2⟩, decimalValue_eq]

theorem readDecimal?_eq (h : Digits digits) :
    readDecimal? digits = some ⟨numeralValue digits, 0⟩ := by
  have hwhole : digits.takeWhile isDigit = digits := List.takeWhile_eq_self_iff.2 h.2
  have hrest : digits.dropWhile isDigit = [] := List.dropWhile_eq_nil_iff.2 h.2
  simp [readDecimal?, hwhole, hrest, h.1, readExponent?, decimalValue_eq]

/-- Digits are not the name of a number. -/
theorem map_toLower_ne (h : Digits digits) {c : Char} (hc : c ∈ ['+', '-', 'i', 'n'])
    (name : List Char) : digits.map Char.toLower ≠ c :: name := by
  intro heq
  obtain ⟨d, hd, rfl⟩ := List.mem_map.1 (heq ▸ List.mem_cons_self ..)
  have hdigit := h.2 d hd
  rw [toLower_of_isDigit hdigit] at hc
  exact not_mem_of_isDigit hdigit hc

end Lexical.Digits

/-! ### Reading a numeral -/

namespace IntegerNumeral

variable {cs : List Char} {z : Int}

/-- A numeral is read as the integer that it denotes. -/
theorem readInteger?_eq (h : IntegerNumeral cs z) : readInteger? cs = some z := by
  cases h with
  | unsigned h => simp [readInteger?, h.splitSign_eq, h.readDigits?_eq]
  | plus h => simp [readInteger?, splitSign, h.readDigits?_eq]
  | minus h => simp [readInteger?, splitSign, h.readDigits?_eq]

/-- A numeral is read as the floating-point number to which the integer is rounded. -/
theorem readFloat?_eq (h : IntegerNumeral cs z) :
    ∃ negative n, z = (if negative then -(n : Int) else n) ∧
      readFloat? cs = some (Binary64.withSign negative (Decimal.toField ⟨n, 0⟩)) := by
  have hread {digits : List Char} (hdigits : Digits digits) {negative : Bool}
      (hsign : splitSign cs = (negative, digits)) :
      readFloat? cs =
        some (Binary64.withSign negative (Decimal.toField ⟨numeralValue digits, 0⟩)) := by
    have hinf : digits.map Char.toLower ≠ "inf".toList := hdigits.map_toLower_ne (by decide) _
    have hinfinity : digits.map Char.toLower ≠ "infinity".toList :=
      hdigits.map_toLower_ne (by decide) _
    have hnan : digits.map Char.toLower ≠ "nan".toList := hdigits.map_toLower_ne (by decide) _
    rw [readFloat?, hsign]
    dsimp only
    rw [if_neg (not_or.2 ⟨hinf, hinfinity⟩), if_neg hnan, hdigits.readDecimal?_eq]
    rfl
  cases h with
  | unsigned h => exact ⟨false, _, rfl, hread h h.splitSign_eq⟩
  | plus h => exact ⟨false, _, rfl, hread h rfl⟩
  | minus h => exact ⟨true, _, rfl, hread h rfl⟩

end IntegerNumeral

end SnapshotScript
