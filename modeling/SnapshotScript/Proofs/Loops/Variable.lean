import SnapshotScript.Evaluation

/-!
# The variable of a loop over numbers

Whatever the body of a loop over numbers has put into the variable, what comes out when the step is
added to it is a number, since the step has been found to be one before.  So the check that the
variable is still a number always succeeds (`Evaluation.forRounds_succ`).
-/

namespace SnapshotScript

variable {σ κ α β : Type}

namespace Operator

/-- A loop has a direction only if its step is a number. -/
theorem isNumber_of_stepDirection {step : Value κ} {direction : Ordering}
    (h : stepDirection step = .ok direction) : step.isNumber = true := by
  unfold stepDirection at h
  split at h
  · assumption
  · cases h

/-- The sum of two numbers is a number. -/
theorem isNumber_sum (pair : NumericPair) : (sum pair : Value κ).isNumber = true := by
  cases pair with
  | ints m n =>
    change (intOr _ _ : Value κ).isNumber = true
    unfold intOr
    split <;> rfl
  | floats x y => rfl

/-- What can be added to a number is a number again. -/
theorem isNumber_of_add {held step counter : Value κ} (hstep : step.isNumber = true)
    (h : binary .add held step = .ok counter) : counter.isNumber = true := by
  simp only [binary] at h
  split at h
  · cases hstep
  · unfold onNumbers at h
    split at h
    · cases h
      exact isNumber_sum _
    · cases h

end Operator

namespace Evaluation

variable [Runtime σ κ] {recur : Expr → Action σ κ (Value κ)}

/-- Behind a fault nothing is done any more. -/
theorem ofExcept_bind_congr {position : Position} {result : Except Fault α}
    {f g : α → Action σ κ β} (h : ∀ a, result = .ok a → f a = g a) :
    Action.ofExcept position result >>= f = Action.ofExcept position result >>= g := by
  cases result with
  | ok a => exact (pure_bind a f).trans ((h a rfl).trans (pure_bind a g).symm)
  | error fault => rfl

/-- In a round of a loop over numbers the variable needs no check. -/
theorem forRounds_succ (loop : Loop κ) (rounds : Nat) (direction : Ordering)
    (counter last : Value κ) :
    forRounds recur loop (rounds + 1) direction counter last =
      if counter.compareNumbers? loop.bound = some direction then do
        Action.define loop.name counter
        let last ← recur loop.body
        let step ← loopStep recur loop
        let direction ← Action.ofExcept loop.position (Operator.stepDirection step)
        let held := (← Action.lookupHere loop.name).getD counter
        let counter ← Action.ofExcept loop.position (Operator.binary .add held step)
        forRounds recur loop rounds direction counter last
      else return last := by
  rw [forRounds]
  refine ite_congr rfl (fun _ => ?_) fun _ => rfl
  refine bind_congr fun _ => bind_congr fun last => bind_congr fun step => ?_
  refine ofExcept_bind_congr fun direction hdirection => bind_congr fun held => ?_
  refine ofExcept_bind_congr fun next hnext => ?_
  have hstep := Operator.isNumber_of_stepDirection hdirection
  rw [Operator.isNumber_of_add hstep hnext, if_pos rfl]

end Evaluation

end SnapshotScript
