import SnapshotScript.Interpreter

/-!
# Operations on integers

A sum, a difference, a product or a quotient of two integers is computed without a bound.  It is an
integer exactly where the true result has 64 bits, and everywhere else it is a floating-point
number, so that a result that does not fit is seen by its type (`evaluate_arithmetic`).  Only a
division by zero fails.
-/

namespace SnapshotScript

variable {σ κ α β : Type}

/-- What an operation gives whose true result is a whole number with the property `P`: the 64-bit
integer with this property, or a floating-point number if none has it. -/
def Value.Solves (P : Int → Prop) (v : Value κ) : Prop :=
  (∃ n : Int64, v = .int n ∧ P n.toInt) ∨
    (∀ n : Int64, ¬ P n.toInt) ∧ ∃ x, v = .float x

/-! ### Results of operators -/

namespace Operator

/-- An integer that may be there, with a floating-point number in its place, solves what the integer
solves. -/
theorem intOr_solves {n? : Option Int64} {P : Int → Prop} (x : Float)
    (hsome : ∀ n, n? = some n → P n.toInt)
    (hnone : n? = none → ∀ n : Int64, ¬ P n.toInt) :
    (intOr n? x : Value κ).Solves P := by
  cases n? with
  | some n => exact .inl ⟨n, rfl, hsome n rfl⟩
  | none => exact .inr ⟨hnone rfl, x, rfl⟩

/-- A whole number solves the equation with itself, with a floating-point number in its place if it
does not fit. -/
theorem intOr_word?_solves (z : Int) (x : Float) :
    (intOr (word? z) x : Value κ).Solves (· = z) := by
  exact intOr_solves x (fun _ hn => word?_eq_some_iff.1 hn) fun hnone => word?_eq_none_iff.1 hnone

/-- A quotient is the number by which the divisor has to be multiplied. -/
theorem quotient_solves {m n : Int64} (hn : n ≠ 0) :
    ∃ v : Value κ, quotient (.ints m n) = .ok v ∧
      v.Solves fun q => n.toInt * q = m.toInt := by
  have hn' : n.toInt ≠ 0 := fun h => hn (Int64.toInt_inj.1 h)
  rw [quotient, if_neg hn]
  split
  · next hdvd =>
    refine ⟨_, rfl, intOr_solves _ (fun q hq => ?_) fun hnone q hq => ?_⟩
    · rw [word?_eq_some_iff.1 hq]
      exact Int.mul_ediv_cancel' hdvd
    · refine word?_eq_none_iff.1 hnone q ?_
      rw [← hq, Int.mul_ediv_cancel_left _ hn']
  · next hdvd => exact ⟨_, rfl, .inr ⟨fun q hq => hdvd ⟨q.toInt, hq.symm⟩, _, rfl⟩⟩

end Operator

/-! ### Evaluating operators -/

/-- Behind an action that has ended well the next one goes on with its result. -/
theorem Action.bind_of_eq_ok {x : Action σ κ α} {f : α → Action σ κ β} {s s' : σ} {a : α}
    (h : x s = .ok a s') : (x >>= f) s = f a s' := by
  change EStateM.bind x f s = f a s'
  unfold EStateM.bind
  rw [h]

section

variable [Runtime σ κ] {limit steps : Nat} {left right : Expr} {v w : Value κ} {s s₁ s₂ : σ}

/-- An operator is applied to the values of its two operands, the left one of which is evaluated
first. -/
theorem evaluate_binary {operator : BinaryOperator} (hoperator : operator ∉ [.and, .or])
    (hleft : evaluate limit steps left s = .ok v s₁)
    (hright : evaluate limit steps right s₁ = .ok w s₂) (position : Position) :
    evaluate limit (steps + 1) (.binary operator left right position) s =
      Action.ofExcept position (Operator.binary operator v w) s₂ := by
  have hnode : evaluate (σ := σ) limit (steps + 1) (.binary operator left right position) =
      evaluate limit steps left >>= fun v => evaluate limit steps right >>= fun w =>
        Action.ofExcept position (Operator.binary operator v w) := by
    cases operator with
    | and | or => exact absurd hoperator (by decide)
    | _ => rfl
  rw [hnode, Action.bind_of_eq_ok hleft, Action.bind_of_eq_ok hright]

/-- An operator in front of its operand is applied to the value of the operand. -/
theorem evaluate_unary (hleft : evaluate limit steps left s = .ok v s₁)
    (operator : UnaryOperator) (position : Position) :
    evaluate limit (steps + 1) (.unary operator left position) s =
      Action.ofExcept position (Operator.unary operator v) s₁ := by
  rw [evaluate]
  exact Action.bind_of_eq_ok hleft

/-- The arithmetic of integers.  Where both operands are integers, their sum, difference and product
are the true ones if these have 64 bits, and floating-point numbers otherwise.  The same holds for
an integer with its sign changed.  A division by zero fails, and every other one gives the integer
by which the divisor has to be multiplied, or a floating-point number if there is no such integer of
64 bits. -/
theorem evaluate_arithmetic {a b : Int64} (hleft : evaluate limit steps left s = .ok (.int a) s₁)
    (hright : evaluate limit steps right s₁ = .ok (.int b) s₂) (position : Position) :
    let result (operator : BinaryOperator) :=
      evaluate limit (steps + 1) (.binary operator left right position) s
    (∃ v, result .add = .ok v s₂ ∧ v.Solves (· = a.toInt + b.toInt)) ∧
    (∃ v, result .subtract = .ok v s₂ ∧ v.Solves (· = a.toInt - b.toInt)) ∧
    (∃ v, result .multiply = .ok v s₂ ∧ v.Solves (· = a.toInt * b.toInt)) ∧
    (∃ v, evaluate limit (steps + 1) (.unary .minus left position) s = .ok v s₁ ∧
      v.Solves (· = -a.toInt)) ∧
    if b = 0 then
      result .divide =
        .error (.failed ⟨.divisionByZero, position, (Runtime.calls s₂).toList⟩) s₂
    else ∃ v, result .divide = .ok v s₂ ∧ v.Solves fun q => b.toInt * q = a.toInt := by
  dsimp only
  refine ⟨⟨_, evaluate_binary (by decide) hleft hright position, ?_⟩,
    ⟨_, evaluate_binary (by decide) hleft hright position, ?_⟩,
    ⟨_, evaluate_binary (by decide) hleft hright position, ?_⟩,
    ⟨_, evaluate_unary hleft .minus position, ?_⟩, ?_⟩
  · exact Operator.intOr_word?_solves _ _
  · exact Operator.intOr_word?_solves _ _
  · exact Operator.intOr_word?_solves _ _
  · exact Operator.intOr_word?_solves _ _
  · rw [evaluate_binary (by decide) hleft hright position]
    change if b = 0 then Action.ofExcept position (Operator.quotient (.ints a b)) s₂ = _
      else ∃ v, Action.ofExcept position (Operator.quotient (.ints a b)) s₂ = .ok v s₂ ∧ _
    split
    · next hzero =>
      rw [Operator.quotient, if_pos hzero]
      rfl
    · next hzero =>
      obtain ⟨v, hv, hsolves⟩ := Operator.quotient_solves (κ := κ) (m := a) hzero
      rw [hv]
      exact ⟨v, rfl, hsolves⟩

end

/-- The least integer divided by minus one.  No integer of 64 bits is the quotient, and so the
division gives a floating-point number. -/
theorem evaluate_arithmetic_least :
    let p := Position.start
    let least := Expr.binary .subtract
      (.unary .minus (.literal (.int 9223372036854775807) p) p) (.literal (.int 1) p) p
    let minusOne := Expr.unary .minus (.literal (.int 1) p) p
    evaluate 1000 3 least Machine.initial = .ok (.int (-9223372036854775808)) Machine.initial ∧
      evaluate 1000 3 minusOne Machine.initial = .ok (.int (-1)) Machine.initial ∧
      ∃ x, evaluate 1000 4 (.binary .divide least minusOne p) Machine.initial =
        .ok (.float x) Machine.initial := by
  intro p least minusOne
  have hleast : evaluate 1000 3 least Machine.initial =
      .ok (.int (-9223372036854775808)) Machine.initial := rfl
  have hminusOne : evaluate 1000 3 minusOne Machine.initial = .ok (.int (-1)) Machine.initial := rfl
  have hdivide := (evaluate_arithmetic hleast hminusOne p).2.2.2.2
  rw [if_neg (by decide)] at hdivide
  obtain ⟨_, hresult, ⟨n, -, hn⟩ | ⟨-, x, rfl⟩⟩ := hdivide
  · have hlt := n.toInt_lt
    rw [show (-1 : Int64).toInt = -1 from rfl,
      show (-9223372036854775808 : Int64).toInt = -9223372036854775808 from rfl] at hn
    omega
  · exact ⟨hleast, hminusOne, x, hresult⟩

end SnapshotScript
