import SnapshotScript.Number.Word
import SnapshotScript.Proofs.Arithmetic.Decimals
import SnapshotScript.Proofs.Lexical.Decomposition

/-!
# The numerals of a text

What the reader takes for a number is a number: an integer has digits that denote a number of 64
bits, and a floating-point number has digits on both sides of a point.
-/

namespace SnapshotScript

namespace Lexical

variable {source : List Char} {tokens : List Token} {t : Token}

/-- The digits stand in the text at the position, and no further digit follows them. -/
structure NumeralAt (source digits : List Char) (p : Position) : Prop where
  isDigits : Digits digits
  place : ∃ front tail, source = front ++ (digits ++ tail) ∧ p = .behind front ∧ EndsDigits tail

/-- No digit follows the longest lexeme if that is an integer. -/
theorem Longest.endsDigits {digits content rest : List Char}
    (h : Longest .int digits content (digits ++ rest)) (hdigits : Digits digits) :
    EndsDigits rest := by
  intro c hc
  rw [← Bool.not_eq_true]
  intro hdigit
  obtain ⟨tail, rfl⟩ := List.head?_eq_some_iff.1 hc
  have hmore : Digits (digits ++ [c]) :=
    ⟨by simp, List.forall_mem_append.2 ⟨hdigits.2, List.forall_mem_singleton.2 hdigit⟩⟩
  have hbeginning : digits ++ [c] <+: digits ++ c :: tail := ⟨tail, by simp⟩
  have hle := h.maximal .int _ _ (.int hmore) hbeginning
  rw [List.length_append, List.length_singleton] at hle
  omega

/-- An integer of a text consists of digits that stand in the text, and is not too large. -/
theorem Tokenizes.integer (h : Tokenizes [] source (.ok tokens)) (ht : t ∈ tokens)
    (hkind : t.kind = .int) :
    NumeralAt source t.text.toList t.first ∧ numeralValue t.text.toList ≤ largestInteger := by
  have hread : t.kind ≠ .endOfInput := by
    rw [hkind]
    decide
  obtain ⟨read, k, lexeme, content, rest, rfl, haccepted, rfl⟩ :=
    h.exists_accepted tokens rfl t ht hread
  obtain rfl : k = .int := hkind
  have hrange := haccepted.inRange rfl
  cases haccepted.isLexeme with
  | int hdigits =>
    rw [Lexical.token, String.toList_ofList, ← decimalValue_eq]
    exact ⟨⟨hdigits, read, rest, rfl, rfl, haccepted.toLongest.endsDigits hdigits⟩, hrange⟩
  | symbol hmem => exact absurd hmem (by decide)

/-- A floating-point number of a text has digits on both sides of its point. -/
theorem Tokenizes.float (h : Tokenizes [] source (.ok tokens)) (ht : t ∈ tokens)
    (hkind : t.kind = .float) :
    ∃ whole fraction, Digits whole ∧ Digits fraction ∧
      t.text.toList = whole ++ '.' :: fraction := by
  have hread : t.kind ≠ .endOfInput := by
    rw [hkind]
    decide
  obtain ⟨read, k, lexeme, content, rest, rfl, haccepted, rfl⟩ :=
    h.exists_accepted tokens rfl t ht hread
  obtain rfl : k = .float := hkind
  cases haccepted.isLexeme with
  | float hwhole hfraction => exact ⟨_, _, hwhole, hfraction, String.toList_ofList⟩
  | symbol hmem => exact absurd hmem (by decide)

end Lexical

/-- Digits that denote a number in the range are read as the integer that they denote. -/
theorem bind_word?_of_digits {digits : List Char} (h : Lexical.Digits digits)
    (hrange : numeralValue digits ≤ largestInteger) :
    ∃ n : Int64, (readInteger? digits).bind word? = some n ∧ n.toInt = numeralValue digits := by
  obtain ⟨n, hn⟩ : ∃ n, word? (numeralValue digits) = some n := by
    have hbound : largestInteger + 1 = wordBound := by decide
    rw [word?, if_pos (by omega)]
    exact ⟨_, rfl⟩
  rw [(IntegerNumeral.unsigned h).readInteger?_eq, Option.bind_some, hn]
  exact ⟨n, rfl, word?_eq_some_iff.1 hn⟩

end SnapshotScript
