import SnapshotScript.Proofs.Arithmetic.Operations
import SnapshotScript.Proofs.Comparison.Floats

/-!
# The order of values

Two numbers or two texts have an order, unless one of them is the float that is not a number.  The
six comparisons all agree with this order.  Every other pair has none, and then `<`, `>`, `<=` and
`>=` are refused.
-/

namespace SnapshotScript

variable {κ : Type}

namespace Operator

/-- Wherever the operands have the values `v` and `w`, the operation has the value `r`. -/
def Gives (operator : BinaryOperator) (v w r : Value κ) : Prop :=
  ∀ {σ : Type} [Runtime σ κ] {limit steps : Nat} {left right : Expr} {s s₁ s₂ : σ},
    evaluate limit steps left s = .ok v s₁ → evaluate limit steps right s₁ = .ok w s₂ →
    ∀ position : Position,
      evaluate limit (steps + 1) (.binary operator left right position) s = .ok r s₂

/-- Wherever the operands have the values `v` and `w`, the operation ends with a fault of the given
kind, at its own position. -/
def Refuses (operator : BinaryOperator) (v w : Value κ) (kind : Fault.Kind) : Prop :=
  ∃ fault : Fault, fault.kind = kind ∧
    ∀ {σ : Type} [Runtime σ κ] {limit steps : Nat} {left right : Expr} {s s₁ s₂ : σ},
      evaluate limit steps left s = .ok v s₁ → evaluate limit steps right s₁ = .ok w s₂ →
      ∀ position : Position,
        evaluate limit (steps + 1) (.binary operator left right position) s =
          .error (.failed ⟨fault, position, (Runtime.calls s₂).toList⟩) s₂

variable {operator : BinaryOperator} {v w r : Value κ}

theorem gives_of_binary (hoperator : operator ∉ [.and, .or]) (h : binary operator v w = .ok r) :
    Gives operator v w r := by
  intro σ _ limit steps left right s s₁ s₂ hleft hright position
  rw [evaluate_binary hoperator hleft hright position, h]
  rfl

theorem refuses_of_binary {fault : Fault} (hoperator : operator ∉ [.and, .or])
    (h : binary operator v w = .error fault) : Refuses operator v w fault.kind := by
  refine ⟨fault, rfl, fun hleft hright position => ?_⟩
  rw [evaluate_binary hoperator hleft hright position, h]
  rfl

end Operator

namespace Value

/-- The value is the float that is not a number. -/
def isNaN : Value κ → Bool
  | .float x => x.isNaN
  | _ => false

/-- Two numbers, or two texts. -/
inductive Orderable : Value κ → Value κ → Prop
  | numbers {v w : Value κ} : v.isNumber = true → w.isNumber = true → Orderable v w
  | texts (s t : String) : Orderable (.str s) (.str t)

/-- The six comparisons of `v` with `w` tell that they stand in the order `o`. -/
structure Ordered (v w : Value κ) (o : Ordering) : Prop where
  less : Operator.Gives .less v w (.bool (o == .lt))
  equal : Operator.Gives .equal v w (.bool (o == .eq))
  greater : Operator.Gives .greater v w (.bool (o == .gt))
  notEqual : Operator.Gives .notEqual v w (.bool !(o == .eq))
  lessEqual : Operator.Gives .lessEqual v w (.bool !(o == .gt))
  greaterEqual : Operator.Gives .greaterEqual v w (.bool !(o == .lt))

/-! ### The order of numbers -/

/-- A comparison turns around with its operands. -/
theorem swap_compareNumbers? (v w : Value κ) :
    (v.compareNumbers? w).map Ordering.swap = w.compareNumbers? v := by
  cases v with
  | int m =>
    cases w with
    | int n => exact congrArg some Std.OrientedCmp.eq_swap.symm
    | float y => exact swap_compareFloats? _ y
    | _ => rfl
  | float x =>
    cases w with
    | int n => exact swap_compareFloats? x _
    | float y => exact swap_compareFloats? x y
    | _ => rfl
  | _ => cases w <;> rfl

/-- There is an order of two numbers only. -/
theorem compareNumbers?_eq_none_iff (v w : Value κ) : v.compareNumbers? w = none ↔
    ¬(v.isNumber = true ∧ w.isNumber = true) ∨ v.isNaN = true ∨ w.isNaN = true := by
  cases v with
  | int m =>
    cases w with
    | int n => simp [compareNumbers?, numericPair?, isNumber, isNaN]
    | float y =>
      refine (compareFloats?_eq_none_iff _ y).trans ?_
      simp only [isNaN_wordToFloat, isNumber, isNaN, Bool.false_eq_true, and_self,
        not_true_eq_false, false_or]
    | _ => simp [compareNumbers?, numericPair?, toFloat?, isNumber]
  | float x =>
    cases w with
    | int n =>
      refine (compareFloats?_eq_none_iff x _).trans ?_
      simp only [isNaN_wordToFloat, isNumber, isNaN, Bool.false_eq_true, and_self,
        not_true_eq_false, false_or, or_false]
    | float y =>
      refine (compareFloats?_eq_none_iff x y).trans ?_
      simp only [isNumber, isNaN, and_self, not_true_eq_false, false_or]
    | _ => simp [compareNumbers?, numericPair?, toFloat?, isNumber]
  | _ => cases w <;> simp [compareNumbers?, numericPair?, toFloat?, isNumber]

end Value

/-! ### What the operators find -/

namespace Operator

variable {v w : Value κ}

/-- An order of two values is the same for all comparisons. -/
theorem ordered_of_order {o : Ordering} (horder : order v w = .ok o)
    (hequal : areEqual v w = .ok (o == .eq)) : v.Ordered w o where
  less := gives_of_binary (by decide) (by rw [binary, horder]; rfl)
  equal := gives_of_binary (by decide) (by rw [binary, hequal]; rfl)
  greater := gives_of_binary (by decide) (by rw [binary, horder]; rfl)
  notEqual := gives_of_binary (by decide) (by rw [binary, hequal]; rfl)
  lessEqual := gives_of_binary (by decide) (by rw [binary, horder]; rfl)
  greaterEqual := gives_of_binary (by decide) (by rw [binary, horder]; rfl)

/-- The four comparisons that ask for an order. -/
def orderings : List BinaryOperator :=
  [.less, .greater, .lessEqual, .greaterEqual]

/-- Values without an order are refused. -/
theorem refuses_of_order {fault : Fault} (h : order v w = .error fault) :
    ∀ operator ∈ orderings, Refuses operator v w fault.kind := by
  have hbinary : ∀ operator ∈ orderings, binary operator v w = .error fault := by
    simp only [orderings, List.forall_mem_cons, binary, h]
    exact ⟨rfl, rfl, rfl, rfl, List.forall_mem_nil _⟩
  intro operator hoperator
  refine refuses_of_binary (fun hmem => ?_) (hbinary operator hoperator)
  revert operator
  decide

/-- Two numbers are ordered as numbers. -/
theorem order_of_numbers (hv : v.isNumber = true) (hw : w.isNumber = true) :
    order v w = match v.compareNumbers? w with
      | some o => .ok o
      | none => .error (.unordered v.typeName w.typeName) := by
  cases v <;> cases w <;> first | rfl | cases hv

/-- What is not `null` is compared as numbers, or by content or identity if the names of the types
are the same. -/
theorem areEqual_of_ne_null (hv : v ≠ .null) (hw : w ≠ .null) : areEqual v w =
    if v.isNumber && w.isNumber then .ok (v.compareNumbers? w == some .eq)
    else if v.typeName = w.typeName then .ok (v.same w)
    else .error (.incomparable v.typeName w.typeName) := by
  unfold areEqual
  split
  · exact absurd rfl hv
  · exact absurd rfl hw
  · rfl

/-- Two numbers are compared as numbers. -/
theorem areEqual_of_numbers (hv : v.isNumber = true) (hw : w.isNumber = true) :
    areEqual v w = .ok (v.compareNumbers? w == some .eq) := by
  rw [areEqual_of_ne_null (by rintro rfl; cases hv) (by rintro rfl; cases hw), hv, hw]
  rfl

/-- There is no order of any other values. -/
theorem order_of_not_orderable (h : ¬v.Orderable w) :
    order v w = .error (.unordered v.typeName w.typeName) := by
  have hnumbers : ¬(v.isNumber = true ∧ w.isNumber = true) := fun ⟨hv, hw⟩ => h (.numbers hv hw)
  have hnone := (v.compareNumbers?_eq_none_iff w).2 (.inl hnumbers)
  unfold order
  split
  · exact absurd (.texts _ _) h
  · rw [hnone]

/-- Numbers that have an order are ordered by it. -/
theorem ordered_of_numbers {o : Ordering} (hv : v.isNumber = true) (hw : w.isNumber = true)
    (h : v.compareNumbers? w = some o) : v.Ordered w o := by
  refine ordered_of_order ?_ ?_
  · rw [order_of_numbers hv hw, h]
  · rw [areEqual_of_numbers hv hw, h]
    rfl

/-- Texts are ordered by their characters, and equal if these are the same. -/
theorem ordered_of_texts (s t : String) : (.str s : Value κ).Ordered (.str t) (compare s t) := by
  refine ordered_of_order rfl ?_
  have hequal : (s == t) = (compare s t == .eq) := by
    rw [Bool.eq_iff_iff, beq_iff_eq, beq_iff_eq, Std.LawfulEqCmp.compare_eq_iff_eq]
  exact congrArg Except.ok hequal

end Operator

/-- Two numbers, or two texts, stand in an order, and all six comparisons tell this order, also with
the values exchanged; so exactly one of `<`, `==` and `>` holds.  The float that is not a number is
not equal to any number, and comparisons that ask for its order are refused.  They are refused too
for all other pairs of values. -/
theorem ordering_of_values (v w : Value κ) :
    (v.Orderable w → v.isNaN = false → w.isNaN = false →
      ∃ o, v.Ordered w o ∧ w.Ordered v o.swap) ∧
    (v.Orderable w → v.isNaN = true ∨ w.isNaN = true →
      Operator.Gives .equal v w (.bool false) ∧ Operator.Gives .notEqual v w (.bool true) ∧
      ∀ operator ∈ Operator.orderings, Operator.Refuses operator v w .type) ∧
    (¬v.Orderable w → ∀ operator ∈ Operator.orderings, Operator.Refuses operator v w .type) := by
  refine ⟨fun h hv hw => ?_, fun h hnan => ?_, fun h => ?_⟩
  · cases h with
    | numbers hv' hw' =>
      have hsome : v.compareNumbers? w ≠ none := by
        simp [Value.compareNumbers?_eq_none_iff, hv, hw, hv', hw']
      obtain ⟨o, ho⟩ := Option.ne_none_iff_exists'.1 hsome
      have hswap : w.compareNumbers? v = some o.swap := by
        rw [← Value.swap_compareNumbers?, ho, Option.map_some]
      exact ⟨o, Operator.ordered_of_numbers hv' hw' ho, Operator.ordered_of_numbers hw' hv' hswap⟩
    | texts s t =>
      have hswap : (compare s t).swap = compare t s := Std.OrientedCmp.eq_swap.symm
      exact ⟨compare s t, Operator.ordered_of_texts s t, hswap ▸ Operator.ordered_of_texts t s⟩
  · cases h with
    | numbers hv' hw' =>
      have hnone : v.compareNumbers? w = none := (v.compareNumbers?_eq_none_iff w).2 (.inr hnan)
      have hequal := Operator.areEqual_of_numbers hv' hw'
      have horder := Operator.order_of_numbers hv' hw'
      rw [hnone] at hequal horder
      refine ⟨Operator.gives_of_binary (by decide) (by rw [Operator.binary, hequal]; rfl),
        Operator.gives_of_binary (by decide) (by rw [Operator.binary, hequal]; rfl),
        Operator.refuses_of_order horder⟩
    | texts s t => simp [Value.isNaN] at hnan
  · exact Operator.refuses_of_order (Operator.order_of_not_orderable h)

/-- An integer and a float stand in an order. -/
theorem ordering_of_one_and_a_half :
    let p := Position.start
    let one := Expr.literal (.int 1) p
    let half := Expr.literal (.float 0.5) p
    let v : Value := .int 1
    let w : Value := .float 0.5
    v.Orderable w ∧ v.isNaN = false ∧ w.isNaN = false ∧ ∃ o, v.Ordered w o ∧ w.Ordered v o.swap ∧
      evaluate 1000 2 (.binary .less one half p) Machine.initial =
        .ok (.bool (o == .lt)) Machine.initial := by
  intro p one half v w
  have horderable : v.Orderable w := .numbers rfl rfl
  have hnumber : w.isNaN = false := by decide +kernel
  obtain ⟨o, h, hswap⟩ := (ordering_of_values v w).1 horderable rfl hnumber
  exact ⟨horderable, rfl, hnumber, o, h, hswap, h.less rfl rfl p⟩

/-- A program can make the float that is not a number, and its comparison with a number by `<` is
an error. -/
theorem nan_without_order :
    let p := Position.start
    let nan := Expr.call (.identifier "float" p) [⟨none, .literal (.str "nan") p⟩] p
    ∃ x m, evaluate 1000 2 nan Machine.initial = .ok (.float x) m ∧
      evaluate 1000 3 (.binary .less nan (.literal (.float 1) p) p) Machine.initial =
        .error (.failed ⟨.unordered "float" "float", p, []⟩) m :=
  ⟨_, _, rfl, rfl⟩

end SnapshotScript
