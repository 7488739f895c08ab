import SnapshotScript.Proofs.Arithmetic.Conversion
import SnapshotScript.Proofs.Arithmetic.FloatNumerals
import SnapshotScript.Proofs.Arithmetic.Shortest
import SnapshotScript.Proofs.Lexical.Juxtaposition

/-!
# Texts of floating-point numbers

The text of a finite number is a numeral that is rounded to the number again, whichever of its forms
is chosen, and the names of the infinities are read as these.  So no two numbers have the same text,
and what is written is read back to the last bit.  A point, an exponent or a letter tells the text
from that of an integer (`float_texts_faithful`).
-/

namespace SnapshotScript

open Binary64

/-! ### A float and its field -/

namespace Binary64

open Float.Model in
/-- Without their sign, the bits of what is a number are not above those of infinity. -/
theorem mod_le_infinityField {x : Float} (h : x.isNaN = false) :
    x.toBits.toNat % Nat.pow 2 63 ≤ infinityField := by
  by_contra! hlt
  have hexponent : @UnpackedFloat.unpackExponent Format.binary64 x.toBits.toBitVec = -1#_ := by
    apply BitVec.eq_of_toNat_eq
    rw [UnpackedFloat.unpackExponent_def]
    rw [infinityField] at hlt
    have hlt64 := x.toBits.toNat_lt
    simp [Nat.shiftRight_eq_div_pow] at hlt hlt64 ⊢
    omega
  have hmantissa : @UnpackedFloat.unpackMantissa Format.binary64 x.toBits.toBitVec ≠ 0#_ := by
    intro hzero
    have hzero := congrArg BitVec.toNat hzero
    rw [UnpackedFloat.unpackMantissa_def] at hzero
    rw [infinityField] at hlt
    simp at hlt hzero
    omega
  have hnan : x.isNaN = true := by
    change (UnpackedFloat.unpack Format.binary64 x.toBits.toBitVec).isNaN = true
    simp only [UnpackedFloat.unpack, if_pos hexponent, if_neg hmantissa]
    rfl
  rw [hnan] at h
  cases h

/-- Floats with the same bits are the same. -/
theorem eq_of_toBits_eq {x y : Float} (h : x.toBits = y.toBits) : x = y := by
  obtain ⟨⟨bits, hvalid⟩⟩ := x
  obtain ⟨⟨bits', hvalid'⟩⟩ := y
  change bits = bits' at h
  subst h
  rfl

/-- What is a number is put together from a sign and a field. -/
theorem exists_withSign {x : Float} (h : x.isNaN = false) :
    ∃ negative field, field ≤ infinityField ∧ withSign negative field = x := by
  have hle := mod_le_infinityField h
  refine ⟨Nat.pow 2 63 ≤ x.toBits.toNat, x.toBits.toNat % Nat.pow 2 63, hle, ?_⟩
  have hbits : (if decide (Nat.pow 2 63 ≤ x.toBits.toNat) = true then
      x.toBits.toNat % Nat.pow 2 63 + Nat.pow 2 63 else x.toBits.toNat % Nat.pow 2 63) =
        x.toBits.toNat := by
    have hlt := x.toBits.toNat_lt
    have hsize : Nat.pow 2 63 = 2 ^ 63 := rfl
    simp only [decide_eq_true_eq, hsize]
    split <;> omega
  rw [withSign, hbits, UInt64.ofNat_toNat]
  exact eq_of_toBits_eq (toBits_ofBits hle)

/-- A finite number has a field below that of infinity. -/
theorem lt_of_ofFloat_eq_finite {x : Float} {negative : Bool} {field : Nat}
    (h : ofFloat x = .finite negative field) : field < infinityField := by
  unfold ofFloat at h
  dsimp only at h
  split at h
  · next hlt =>
    cases h
    exact hlt
  · split at h <;> cases h

end Binary64

/-! ### Sizes -/

/-- The number of digits tells between which powers of ten a number is. -/
theorem exists_length_decimalDigits {c : Nat} (hc : 0 < c) :
    ∃ n, (decimalDigits c).length = n + 1 ∧ 10 ^ n ≤ c ∧ c < 10 ^ (n + 1) := by
  have hlength {k : Nat} (hk : 0 < k) : (decimalDigits c).length ≤ k ↔ c < 10 ^ k :=
    Nat.length_toDigits_le_iff (by decide) hk
  obtain ⟨n, hn⟩ : ∃ n, (decimalDigits c).length = n + 1 :=
    Nat.exists_eq_succ_of_ne_zero (mt List.eq_nil_of_length_eq_zero (decimalDigits_ne_nil c))
  refine ⟨n, hn, ?_, (hlength n.succ_pos).1 hn.le⟩
  obtain rfl | hpos := Nat.eq_zero_or_pos n
  · exact hc
  · exact Nat.not_lt.1 fun hlt => absurd ((hlength hpos).2 hlt) (by omega)

namespace Decimal

variable {field : Nat} {d : Decimal}

/-- The exponent behind the digits of a number is small. -/
theorem Interval.Contains.natAbs_lt (hpos : 0 < field) (hfinite : field < infinityField)
    (h : (Interval.ofField field).Contains d.toRat) :
    (d.exponent + (decimalDigits d.coefficient).length - 1).natAbs < exponentCap := by
  have hone := h.one_le hpos hfinite
  have hlt := h.lt hpos hfinite
  obtain ⟨k, hk, hunits⟩ := exists_unitsPerOne_eq
  obtain ⟨n, hn, hlow, hhigh⟩ := exists_length_decimalDigits (h.coefficient_pos hpos hfinite)
  -- The exponent of the first digit is `n + d.exponent`.
  have hten : (0 : ℚ) < 10 ^ d.exponent := zpow_pos (by norm_num) _
  have hupper : (10 : ℚ) ^ (n + d.exponent) < 10 ^ (311 : ℤ) := by
    calc (10 : ℚ) ^ (n + d.exponent) = 10 ^ n * 10 ^ d.exponent := by
          rw [zpow_add₀ (by norm_num), zpow_natCast]
      _ ≤ d.toRat := mul_le_mul_of_nonneg_right (by exact_mod_cast hlow) hten.le
      _ < 10 ^ (311 : ℤ) := by exact_mod_cast hlt
  have hlower : (10 : ℚ) ^ (0 : ℤ) < 10 ^ ((1 + k : ℕ) + ((n + 1 : ℕ) + d.exponent)) := by
    have hunit : 2 * unitsPerOne ≤ 10 ^ (1 + k) := by
      rw [hunits, ← Nat.pow_succ', Nat.add_comm]
      exact Nat.pow_le_pow_left (by decide) _
    have hbelow : d.toRat < 10 ^ (n + 1) * 10 ^ d.exponent :=
      mul_lt_mul_of_pos_right (by exact_mod_cast hhigh) hten
    calc (10 : ℚ) ^ (0 : ℤ) ≤ 2 * unitsPerOne * d.toRat := hone
      _ ≤ 10 ^ (1 + k) * d.toRat :=
        mul_le_mul_of_nonneg_right (by exact_mod_cast hunit)
          (mul_nonneg (Nat.cast_nonneg _) hten.le)
      _ < 10 ^ (1 + k) * (10 ^ (n + 1) * 10 ^ d.exponent) :=
        mul_lt_mul_of_pos_left hbelow (pow_pos (by norm_num) _)
      _ = 10 ^ ((1 + k : ℕ) + ((n + 1 : ℕ) + d.exponent)) := by
        rw [zpow_add₀ (by norm_num), zpow_add₀ (by norm_num), zpow_natCast, zpow_natCast]
  have hupper := (zpow_lt_zpow_iff_right₀ (by norm_num)).1 hupper
  have hlower := (zpow_lt_zpow_iff_right₀ (by norm_num)).1 hlower
  rw [hn, exponentCap]
  change _ < 2 ^ 16
  push_cast
  omega

end Decimal

/-! ### Texts of finite numbers -/

/-- A whole number is read back from its digits and one place behind the point. -/
theorem toField_whole {field n : Nat} (hfinite : field < infinityField)
    (hn : magnitude field = unitsPerOne * n) : Decimal.toField ⟨10 * n, -1⟩ = field := by
  obtain rfl | hpos := Nat.eq_zero_or_pos field
  · have hzero : n = 0 :=
      (Nat.mul_eq_zero.1 hn.symm).resolve_left unitsPerOne_pos.ne'
    rw [hzero]
    rfl
  · refine Decimal.toField_of_contains hpos hfinite ?_
    have hvalue : Decimal.toRat ⟨10 * n, -1⟩ = magnitude field / unitsPerOne := by
      have hne : (unitsPerOne : ℚ) ≠ 0 := Nat.cast_ne_zero.2 unitsPerOne_pos.ne'
      rw [hn, Decimal.toRat, Nat.cast_mul, Nat.cast_mul, mul_div_cancel_left₀ _ hne]
      rw [zpow_neg_one]
      push_cast
      ring
    rw [hvalue]
    exact Decimal.Interval.contains_magnitude hpos hfinite

/-- A finite number is written as a numeral that is rounded to the number. -/
theorem exists_floatNumeral {field : Nat} (hfinite : field < infinityField) :
    ∃ d, FloatNumeral (finiteText field).toList d ∧ d.toField = field := by
  unfold finiteText
  dsimp only
  split
  · next hwhole =>
    obtain ⟨n, hn⟩ := Nat.dvd_of_mod_eq_zero hwhole.1
    have hnumeral := FloatNumeral.point (digits_decimalDigits n) (digits_decimalDigits 0)
    have hvalue : decimalValue (decimalDigits n ++ decimalDigits 0) = 10 * n := by
      rw [show decimalDigits 0 = ['0'] from rfl, decimalValue_concat, decimalValue_decimalDigits]
      rfl
    have htext : (toString (magnitude field / unitsPerOne) ++ ".0").toList =
        decimalDigits n ++ '.' :: decimalDigits 0 := by
      rw [hn, Nat.mul_div_cancel_left _ unitsPerOne_pos, String.toList_append,
        Nat.toString_eq_repr, Nat.toList_repr]
      rfl
    rw [hvalue] at hnumeral
    rw [htext]
    exact ⟨_, hnumeral, toField_whole hfinite hn⟩
  · next hwhole =>
    have hpos : 0 < field := by
      refine Nat.pos_of_ne_zero ?_
      rintro rfl
      exact hwhole (by decide +kernel)
    have hcontains := Decimal.Interval.contains_shortest hpos hfinite
    refine ⟨Decimal.shortest field, ?_, Decimal.toField_shortest hpos hfinite⟩
    split
    · rw [String.toList_ofList]
      exact Decimal.floatNumeral_scientific (hcontains.natAbs_lt hpos hfinite)
    · next hmiddle =>
      rw [String.toList_ofList]
      refine Decimal.floatNumeral_positional ?_
      -- Without places behind the point the decimal would be whole, and then the number too.
      by_contra! hexponent
      rw [Decimal.toRat_of_nonneg hexponent, Nat.cast_one, div_one] at hcontains
      have hdvd := hcontains.dvd hpos hfinite
      exact hwhole ⟨Nat.mod_eq_zero_of_dvd hdvd, Nat.not_le.1 (mt .inl hmiddle)⟩

/-- The text of a number that is put together from a sign and a field consists of a minus, if there
is one, and the text of the field. -/
theorem floatText_withSign {negative : Bool} {field : Nat} (h : field ≤ infinityField) :
    floatText (withSign negative field) =
      signText negative ++ if field < infinityField then finiteText field else "inf" := by
  rw [floatText, ofFloat_withSign h]
  by_cases hlt : field < infinityField
  · rw [if_pos hlt, if_pos hlt]
  · rw [if_neg hlt, if_neg hlt]

/-! ### Characters of the texts -/

/-- A float is written as `NaN`, as `inf` with or without a minus, or as a numeral with or without a
minus. -/
theorem floatText_cases (x : Float) :
    floatText x = "NaN" ∨ ∃ negative, floatText x = signText negative ++ "inf" ∨
      ∃ cs d, FloatNumeral cs d ∧ (floatText x).toList = (signText negative).toList ++ cs := by
  unfold floatText
  split
  · exact .inl rfl
  · exact .inr ⟨_, .inl rfl⟩
  · next negative field hfloat =>
    obtain ⟨d, hnumeral, -⟩ := exists_floatNumeral (lt_of_ofFloat_eq_finite hfloat)
    exact .inr ⟨negative, .inr ⟨_, d, hnumeral, String.toList_append⟩⟩

/-- The characters in texts of floats that are no digits. -/
def floatMarks : List Char :=
  ['.', 'E', '-', 'N', 'a', 'i', 'n', 'f']

/-- The text of a float consists of digits and of the characters in `floatMarks`. -/
theorem isDigit_or_mem_floatMarks {x : Float} {c : Char} (hc : c ∈ (floatText x).toList) :
    isDigit c = true ∨ c ∈ floatMarks := by
  have hsign (negative : Bool) : (signText negative).toList ⊆ floatMarks := by
    cases negative <;> decide
  have hname {name : List Char} (hname : name ⊆ floatMarks) (hc : c ∈ name) :
      isDigit c = true ∨ c ∈ floatMarks :=
    .inr (hname hc)
  obtain hnan | ⟨negative, hinf | ⟨cs, d, hnumeral, htext⟩⟩ := floatText_cases x
  · rw [hnan] at hc
    exact hname (by decide) hc
  · rw [hinf, String.toList_append, List.mem_append] at hc
    exact hc.elim (hname (hsign negative)) (hname (by decide))
  · rw [htext, List.mem_append] at hc
    exact hc.elim (hname (hsign negative)) fun hc =>
      (hnumeral.isDigit_or_mem hc).imp_right fun hmark => List.mem_append_left _ hmark

/-- There are no blanks in a text. -/
theorem isBlank_of_mem_floatText {x : Float} {c : Char} (hc : c ∈ (floatText x).toList) :
    isBlank c = false := by
  obtain hdigit | hmark := isDigit_or_mem_floatMarks hc
  · refine Lexical.isBlank_of_isNamePart ?_
    rw [isNamePart, hdigit, Bool.or_true]
  · have hall : floatMarks.all (fun c => !isBlank c) = true := by decide
    simpa using List.all_eq_true.1 hall c hmark

/-- Nothing is cut off a text without blanks. -/
theorem trimBlank_eq_self {cs : List Char} (h : ∀ c ∈ cs, isBlank c = false) :
    trimBlank cs = cs := by
  have hdrop {cs : List Char} (h : ∀ c ∈ cs, isBlank c = false) : cs.dropWhile isBlank = cs := by
    cases cs with
    | nil => rfl
    | cons c cs => exact List.dropWhile_cons_of_neg (by simp [h c List.mem_cons_self])
  rw [trimBlank, hdrop h, hdrop fun c hc => h c (List.mem_reverse.1 hc), List.reverse_reverse]

/-- A text has a character that belongs to no integer numeral. -/
theorem exists_mem_floatText (x : Float) :
    ∃ c ∈ (floatText x).toList, c ∈ ['.', 'E', 'N', 'i'] := by
  obtain hnan | ⟨negative, hinf | ⟨cs, d, hnumeral, htext⟩⟩ := floatText_cases x
  · rw [hnan]
    exact ⟨'N', by decide, by decide⟩
  · rw [hinf, String.toList_append]
    exact ⟨'i', List.mem_append_right _ (by decide), by decide⟩
  · rw [htext]
    obtain hmem | hmem := hnumeral.mem_or_mem
    · exact ⟨'.', List.mem_append_right _ hmem, by decide⟩
    · exact ⟨'E', List.mem_append_right _ hmem, by decide⟩

/-- An integer numeral consists of digits and a sign. -/
theorem IntegerNumeral.isDigit_or_mem {cs : List Char} {z : Int} (h : IntegerNumeral cs z)
    {c : Char} (hc : c ∈ cs) : isDigit c = true ∨ c ∈ ['+', '-'] := by
  cases h with
  | unsigned h => exact .inl (h.2 c hc)
  | plus h | minus h =>
    obtain rfl | hc := List.mem_cons.1 hc
    · exact .inr (by decide)
    · exact .inl (h.2 c hc)

/-- The text of a number, or of what is none, is no integer numeral. -/
theorem not_integerNumeral_floatText (x : Float) (z : Int) :
    ¬ IntegerNumeral (floatText x).toList z := by
  intro h
  obtain ⟨c, hc, hmark⟩ := exists_mem_floatText x
  have hall : ['.', 'E', 'N', 'i'].all (fun c => !(isDigit c || c ∈ ['+', '-'])) = true := by decide
  have hother := List.all_eq_true.1 hall c hmark
  obtain hdigit | hsign := h.isDigit_or_mem hc
  · simp [hdigit] at hother
  · simp [hsign] at hother

/-- An integer is written as an integer numeral. -/
theorem integerNumeral_toString (z : Int) : IntegerNumeral (toString z).toList z := by
  have hdigits := digits_decimalDigits z.natAbs
  have hvalue : numeralValue (decimalDigits z.natAbs) = z.natAbs := by
    rw [← decimalValue_eq, decimalValue_decimalDigits]
  rw [toList_toString]
  by_cases hneg : z < 0
  · have hnumeral := IntegerNumeral.minus hdigits
    rw [hvalue, show -(z.natAbs : Int) = z by omega] at hnumeral
    rwa [decide_eq_true hneg]
  · have hnumeral := IntegerNumeral.unsigned hdigits
    rw [hvalue, show (z.natAbs : Int) = z by omega] at hnumeral
    rwa [decide_eq_false hneg]

/-! ### Reading a text back -/

/-- The text of a number is read back as this number. -/
theorem readFloat?_floatText {x : Float} (h : x.isNaN = false) :
    readFloat? (trimBlank (floatText x).toList) = some x := by
  rw [trimBlank_eq_self fun _ => isBlank_of_mem_floatText]
  obtain ⟨negative, field, hle, rfl⟩ := exists_withSign h
  rw [floatText_withSign hle, String.toList_append]
  by_cases hlt : field < infinityField
  · obtain ⟨d, hnumeral, hd⟩ := exists_floatNumeral hlt
    rw [if_pos hlt, hnumeral.readFloat?_eq, hd]
  · rw [if_neg hlt, show field = infinityField by omega]
    cases negative <;> rfl

/-! ### Texts in a program -/

section Evaluation

variable {σ κ : Type} [Runtime σ κ]

/-- Text and number go together.  The conversion of a float to a text gives that which is shown of
it, and the conversion of this text gives the float back to the last bit, if it is a number.  So
numbers with different bits have different texts, also the two zeros.  And no text of a float, be it
a number or not, is that of an integer. -/
theorem float_texts_faithful :
    (∀ (x : Float) (limit steps : Nat) (callee callee' argument : Expr)
      (position position' : Position) (s s₁ s₂ s₃ : σ),
      evaluate limit (steps + 1) callee s = .ok (.builtin .float : Value κ) s₁ →
      evaluate limit steps callee' s₁ = .ok (.builtin .str : Value κ) s₂ →
      evaluate limit steps argument s₂ = .ok (.float x : Value κ) s₃ →
      let text := Expr.call callee' [⟨none, argument⟩] position'
      evaluate limit (steps + 1) text s₁ =
          .ok (.str ((.float x : Value κ).display (Runtime.cells s₃))) s₃ ∧
        (x.isNaN = false →
          evaluate limit (steps + 2) (.call callee [⟨none, text⟩] position) s =
            .ok (.float x : Value κ) s₃)) ∧
    (∀ (x y : Float) (cells cells' : Cells κ), x.isNaN = false → y.isNaN = false →
      x.toBits ≠ y.toBits → (Value.float x).display cells ≠ (Value.float y).display cells') ∧
    ∀ (x : Float) (n : Int64) (cells cells' : Cells κ),
      (Value.float x).display cells ≠ (Value.int n).display cells' := by
  refine ⟨?_, ?_, ?_⟩
  · intro x limit steps callee callee' argument position position' s s₁ s₂ s₃ hcallee hcallee'
      hargument text
    have htext : evaluate limit (steps + 1) text s₁ = .ok (.str (floatText x)) s₃ :=
      evaluate_builtin hcallee' hargument position'
    refine ⟨htext, fun hx => ?_⟩
    have hrun : Builtin.run (Runtime.cells s₃) .float [.str (floatText x)] =
        .ok (.float x, none) := by
      change (Builtin.toFloat (.str (floatText x)) >>= fun v => .ok (v, none)) = _
      rw [Builtin.toFloat, readFloat?_floatText hx]
      rfl
    rw [evaluate_builtin hcallee htext, hrun]
    rfl
  · intro x y cells cells' hx hy hbits htext
    change floatText x = floatText y at htext
    have hread := readFloat?_floatText hx
    rw [htext, readFloat?_floatText hy] at hread
    exact hbits (congrArg Float.toBits (Option.some.inj hread).symm)
  · intro x n cells cells' htext
    change floatText x = toString n.toInt at htext
    have hnumeral := integerNumeral_toString n.toInt
    rw [← htext] at hnumeral
    exact not_integerNumeral_floatText x _ hnumeral

end Evaluation

/-- Minus zero is converted to a text and back, and its text is not that of zero. -/
theorem float_texts_faithful_neg_zero :
    let p := Position.start
    let callee := Expr.identifier "float" p
    let callee' := Expr.identifier "str" p
    let argument := Expr.unary .minus (.literal (.float 0.0) p) p
    (-0.0 : Float).isNaN = false ∧
      evaluate 1000 3 callee Machine.initial = .ok (.builtin .float) Machine.initial ∧
      evaluate 1000 2 callee' Machine.initial = .ok (.builtin .str) Machine.initial ∧
      evaluate 1000 2 argument Machine.initial = .ok (.float (-0.0)) Machine.initial ∧
      evaluate 1000 4 (.call callee [⟨none, .call callee' [⟨none, argument⟩] p⟩] p)
        Machine.initial = .ok (.float (-0.0)) Machine.initial ∧
      (-0.0 : Float).toBits ≠ (0.0 : Float).toBits ∧
      (.float (-0.0) : Value FrameId).display #[] ≠ (.float 0.0 : Value FrameId).display #[] := by
  intro p callee callee' argument
  have hnumber : (-0.0 : Float).isNaN = false := by decide
  have hzero : (0.0 : Float).isNaN = false := by decide
  have hbits : (-0.0 : Float).toBits ≠ (0.0 : Float).toBits := by decide
  have hcallee : evaluate 1000 3 callee Machine.initial =
      .ok (.builtin .float) Machine.initial := rfl
  have hcallee' : evaluate 1000 2 callee' Machine.initial =
      .ok (.builtin .str) Machine.initial := rfl
  have hargument : evaluate 1000 2 argument Machine.initial =
      .ok (.float (-0.0)) Machine.initial := rfl
  obtain ⟨hround, hdistinct, -⟩ := @float_texts_faithful Machine FrameId _
  exact ⟨hnumber, hcallee, hcallee', hargument,
    (hround _ 1000 2 _ _ _ p p _ _ _ _ hcallee hcallee' hargument).2 hnumber, hbits,
    hdistinct _ _ _ _ hnumber hzero hbits⟩

end SnapshotScript
