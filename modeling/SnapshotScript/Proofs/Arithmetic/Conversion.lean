import Mathlib
import SnapshotScript.Proofs.Arithmetic.Numerals
import SnapshotScript.Proofs.Arithmetic.Operations
import SnapshotScript.Proofs.Arithmetic.Rounding

/-!
# Integers from texts

A text that is an integer numeral is converted to the integer that it denotes, if this has 64 bits.
A numeral that denotes a larger or a smaller one is rounded to a floating-point number before its
size is looked at.  Above the range this makes no difference, and the conversion fails.  Below it
the first `2 ^ 10` numerals are rounded to the least integer and converted to that
(`evaluate_int_of_numeral`).
-/

namespace SnapshotScript

open Lexical

variable {σ κ : Type}

/-- A text that is an integer numeral is converted as `evaluate_int_of_numeral` says of its
evaluation. -/
theorem Builtin.toInt_of_numeral {text : String} {z : Int}
    (h : IntegerNumeral (trimBlank text.toList) z) :
    if -2 ^ 63 ≤ z ∧ z < 2 ^ 63 then
      ∃ n : Int64, n.toInt = z ∧ toInt (.str text : Value κ) = .ok (.int n)
    else if -2 ^ 63 - 2 ^ 10 ≤ z ∧ z < 0 then
      toInt (.str text : Value κ) = .ok (.int (-9223372036854775808))
    else ∃ fault, fault.kind = .type ∧ toInt (.str text : Value κ) = .error fault := by
  rw [toInt, h.readInteger?_eq, Option.bind_some]
  cases hword : word? z with
  | some n =>
    have hvalue := word?_eq_some_iff.1 hword
    have hlow := n.le_toInt
    have hhigh := n.toInt_lt
    rw [if_pos (by omega)]
    exact ⟨n, hvalue, rfl⟩
  | none =>
    have hrange : z < -2 ^ 63 ∨ 2 ^ 63 ≤ z := lt_or_le_of_word?_eq_none hword
    obtain ⟨negative, n, hz, hread⟩ := h.readFloat?_eq
    have hsize : 2 ^ 63 ≤ n ∧ (negative ∧ n ≤ 2 ^ 63 + 2 ^ 10 ↔ -2 ^ 63 - 2 ^ 10 ≤ z ∧ z < 0) := by
      cases negative with
      | false =>
        rw [if_neg Bool.false_ne_true] at hz
        exact ⟨by omega, fun h => absurd h.1 Bool.false_ne_true, fun h => by omega⟩
      | true =>
        rw [if_pos rfl] at hz
        exact ⟨by omega, fun h => by omega, fun h => ⟨rfl, by omega⟩⟩
    obtain ⟨hn, hleast⟩ := hsize
    rw [if_neg (by omega), hread]
    dsimp only
    rw [truncate, truncate?_of_le hn]
    by_cases hnear : -2 ^ 63 - 2 ^ 10 ≤ z ∧ z < 0
    · rw [if_pos hnear, if_pos (hleast.2 hnear)]
    · rw [if_neg hnear, if_neg (mt hleast.1 hnear)]
      exact ⟨_, rfl, rfl⟩

/-- A call of a builtin function with one argument first evaluates the argument, and then prints and
gives what the function makes of its value. -/
theorem evaluate_builtin [Runtime σ κ] {limit steps : Nat} {callee argument : Expr} {b : Builtin}
    {v : Value κ} {s s₁ s₂ : σ} (hcallee : evaluate limit steps callee s = .ok (.builtin b) s₁)
    (hargument : evaluate limit steps argument s₁ = .ok v s₂) (position : Position) :
    evaluate limit (steps + 1) (.call callee [⟨none, argument⟩] position) s =
      (do
        let (w, printed) ← Action.ofExcept position (b.run (Runtime.cells s₂) [v])
        Action.print printed
        return w : Action σ κ (Value κ)) s₂ := by
  have hsupply : Evaluation.supply (evaluate limit steps) [⟨none, argument⟩] s₁ =
      .ok [⟨none, v, argument.position⟩] s₂ := by
    rw [Evaluation.supply, Action.bind_of_eq_ok hargument]
    rfl
  rw [evaluate, Evaluation.node, Action.bind_of_eq_ok hcallee, Action.bind_of_eq_ok hsupply]
  rfl

/-- A call of `int` evaluates its argument and converts the value. -/
theorem evaluate_int [Runtime σ κ] {limit steps : Nat} {callee argument : Expr} {v : Value κ}
    {s s₁ s₂ : σ} (hcallee : evaluate limit steps callee s = .ok (.builtin .int) s₁)
    (hargument : evaluate limit steps argument s₁ = .ok v s₂) (position : Position) :
    evaluate limit (steps + 1) (.call callee [⟨none, argument⟩] position) s =
      Action.ofExcept position (Builtin.toInt v) s₂ := by
  rw [evaluate_builtin hcallee hargument, show Builtin.run (Runtime.cells s₂) .int [v] =
    (Builtin.toInt v >>= fun w => .ok (w, none)) from rfl]
  cases Builtin.toInt v <;> rfl

/-- A text that is an integer numeral, with blanks around it or not, is converted to the integer
`z` that it denotes, if this has 64 bits.  No conversion of a larger number succeeds.  Of the
smaller numbers, those from `-2 ^ 63 - 2 ^ 10` on are converted to `-2 ^ 63`. -/
theorem evaluate_int_of_numeral [Runtime σ κ] {limit steps : Nat} {callee argument : Expr}
    {text : String} {z : Int} {s s₁ s₂ : σ}
    (hcallee : evaluate limit steps callee s = .ok (.builtin .int) s₁)
    (hargument : evaluate limit steps argument s₁ = .ok (.str text) s₂)
    (hnumeral : IntegerNumeral (trimBlank text.toList) z) (position : Position) :
    let result := evaluate limit (steps + 1) (.call callee [⟨none, argument⟩] position) s
    if -2 ^ 63 ≤ z ∧ z < 2 ^ 63 then ∃ n : Int64, n.toInt = z ∧ result = .ok (.int n) s₂
    else if -2 ^ 63 - 2 ^ 10 ≤ z ∧ z < 0 then result = .ok (.int (-9223372036854775808)) s₂
    else ∃ fault, fault.kind = .type ∧
      result = .error (.failed ⟨fault, position, (Runtime.calls s₂).toList⟩) s₂ := by
  intro result
  have hresult : result = _ := evaluate_int hcallee hargument position
  have hconversion := Builtin.toInt_of_numeral (κ := κ) hnumeral
  rw [hresult]
  split
  · next hrange =>
    rw [if_pos hrange] at hconversion
    obtain ⟨n, hn, hconverted⟩ := hconversion
    exact ⟨n, hn, by rw [hconverted]; rfl⟩
  · next hrange =>
    rw [if_neg hrange] at hconversion
    split
    · next hnear =>
      rw [if_pos hnear] at hconversion
      rw [hconversion]
      rfl
    · next hfar =>
      rw [if_neg hfar] at hconversion
      obtain ⟨fault, hkind, hconverted⟩ := hconversion
      exact ⟨fault, hkind, by rw [hconverted]; rfl⟩

/-- The numeral of the least integer, with blanks around it, is converted to the least integer. -/
theorem evaluate_int_of_numeral_least :
    let p := Position.start
    let callee := Expr.identifier "int" p
    let argument := Expr.literal (.str " -9223372036854775808 ") p
    evaluate 1000 1 callee Machine.initial = .ok (.builtin .int) Machine.initial ∧
      evaluate 1000 1 argument Machine.initial =
        .ok (.str " -9223372036854775808 ") Machine.initial ∧
      IntegerNumeral (trimBlank " -9223372036854775808 ".toList) (-9223372036854775808) ∧
      evaluate 1000 2 (.call callee [⟨none, argument⟩] p) Machine.initial =
        .ok (.int (-9223372036854775808)) Machine.initial := by
  intro p callee argument
  have hcallee : evaluate 1000 1 callee Machine.initial = .ok (.builtin .int) Machine.initial := rfl
  have hargument : evaluate 1000 1 argument Machine.initial =
      .ok (.str " -9223372036854775808 ") Machine.initial := rfl
  have hdigits : Digits "9223372036854775808".toList :=
    ⟨by decide, List.all_eq_true.1 (by decide)⟩
  have hnumeral : IntegerNumeral (trimBlank " -9223372036854775808 ".toList)
      (-9223372036854775808) := .minus hdigits
  have hresult := evaluate_int_of_numeral hcallee hargument hnumeral p
  rw [if_pos (by decide)] at hresult
  obtain ⟨n, hn, hresult⟩ := hresult
  rw [← show n = -9223372036854775808 from Int64.toInt_inj.1 hn]
  exact ⟨hcallee, hargument, hnumeral, hresult⟩

/-- The numeral of the number below the least integer is converted to the least integer. -/
theorem int_of_numeral_inexact :
    let p := Position.start
    IntegerNumeral (trimBlank "-9223372036854775809".toList) (-9223372036854775809) ∧
      evaluate 1000 2
        (.call (.identifier "int" p) [⟨none, .literal (.str "-9223372036854775809") p⟩] p)
        Machine.initial = .ok (.int (-9223372036854775808)) Machine.initial := by
  intro p
  have hdigits : Digits "9223372036854775809".toList :=
    ⟨by decide, List.all_eq_true.1 (by decide)⟩
  have hnumeral : IntegerNumeral (trimBlank "-9223372036854775809".toList)
      (-9223372036854775809) := .minus hdigits
  have hconversion := Builtin.toInt_of_numeral (κ := FrameId) hnumeral
  rw [if_neg (by decide), if_pos (by decide)] at hconversion
  have hcallee : evaluate 1000 1 (.identifier "int" p) Machine.initial =
      .ok (.builtin .int) Machine.initial := rfl
  have hargument : evaluate 1000 1 (.literal (.str "-9223372036854775809") p) Machine.initial =
      .ok (.str "-9223372036854775809") Machine.initial := rfl
  refine ⟨hnumeral, (evaluate_int hcallee hargument p).trans ?_⟩
  rw [hconversion]
  rfl

end SnapshotScript
