import SnapshotScript.Proofs.Arithmetic.Numerals

/-!
# Decimal numerals

A numeral with a point or an exponent is taken apart into its digits and the characters that end
them.  What it denotes is told by all of its digits together and by how many of them stand behind
the point.
-/

namespace SnapshotScript

open Lexical

variable {whole fraction rest : List Char}

/-- No digit stands at the beginning. -/
def EndsDigits (rest : List Char) : Prop :=
  ∀ c ∈ rest.head?, isDigit c = false

/-- Digits are taken up to what ends them. -/
theorem takeWhile_isDigit (hwhole : ∀ c ∈ whole, isDigit c = true) (hrest : EndsDigits rest) :
    (whole ++ rest).takeWhile isDigit = whole ∧ (whole ++ rest).dropWhile isDigit = rest := by
  have hstop : rest.takeWhile isDigit = [] ∧ rest.dropWhile isDigit = rest := by
    cases rest with
    | nil => exact ⟨rfl, rfl⟩
    | cons c cs =>
      have hc : ¬ isDigit c = true := by simp [hrest c rfl]
      exact ⟨List.takeWhile_cons_of_neg hc, List.dropWhile_cons_of_neg hc⟩
  rw [List.takeWhile_append_of_pos hwhole, List.dropWhile_append_of_pos hwhole, hstop.1, hstop.2,
    List.append_nil]
  exact ⟨rfl, rfl⟩

/-- The digits of a numeral with a point are read as one number, and those behind the point lower
its exponent. -/
theorem readDecimal?_point (hwhole : ∀ c ∈ whole, isDigit c = true)
    (hfraction : ∀ c ∈ fraction, isDigit c = true) (hne : whole ++ fraction ≠ [])
    (hrest : EndsDigits rest) :
    readDecimal? (whole ++ '.' :: (fraction ++ rest)) = (readExponent? rest).map fun exponent =>
      ⟨decimalValue (whole ++ fraction), exponent - fraction.length⟩ := by
  have hpoint : EndsDigits ('.' :: (fraction ++ rest)) := by
    rintro c ⟨⟩
    decide
  obtain ⟨htake, hdrop⟩ := takeWhile_isDigit hwhole hpoint
  obtain ⟨htake', hdrop'⟩ := takeWhile_isDigit hfraction hrest
  simp only [readDecimal?, htake, hdrop, htake', hdrop', if_neg hne]

/-- The digits of a numeral without a point are read as a number, and what follows them as its
exponent. -/
theorem readDecimal?_whole (hwhole : ∀ c ∈ whole, isDigit c = true) (hne : whole ≠ [])
    (hrest : EndsDigits rest) (hpoint : rest.head? ≠ some '.') :
    readDecimal? (whole ++ rest) = (readExponent? rest).map fun exponent =>
      ⟨decimalValue whole, exponent⟩ := by
  obtain ⟨htake, hdrop⟩ := takeWhile_isDigit hwhole hrest
  rw [readDecimal?, htake, hdrop]
  split
  next fraction more heq =>
    split at heq
    · exact absurd rfl hpoint
    · cases heq
      simp [hne]

/-- A numeral that begins with a digit, or with a minus and a digit, is a decimal. -/
theorem readFloat?_of_isDigit {c : Char} (hc : isDigit c = true) (cs : List Char)
    (negative : Bool) :
    readFloat? ((signText negative).toList ++ c :: cs) =
      (readDecimal? (c :: cs)).map fun d => Binary64.withSign negative d.toField := by
  have hmem := not_mem_of_isDigit hc
  have hsplit : splitSign ((signText negative).toList ++ c :: cs) = (negative, c :: cs) := by
    cases negative with
    | true => rfl
    | false =>
      simp only [List.mem_cons, not_or] at hmem
      change splitSign (c :: cs) = _
      simp [splitSign, hmem]
  have hname {d : Char} (hd : d ∈ ['+', '-', 'i', 'n']) (name : List Char) :
      (c :: cs).map Char.toLower ≠ d :: name := by
    intro heq
    rw [List.map_cons, toLower_of_isDigit hc] at heq
    cases heq
    exact hmem hd
  have hinf : (c :: cs).map Char.toLower ≠ "inf".toList := hname (by decide) _
  have hinfinity : (c :: cs).map Char.toLower ≠ "infinity".toList := hname (by decide) _
  have hnan : (c :: cs).map Char.toLower ≠ "nan".toList := hname (by decide) _
  rw [readFloat?, hsplit]
  dsimp only
  rw [if_neg (not_or.2 ⟨hinf, hinfinity⟩), if_neg hnan]

end SnapshotScript
