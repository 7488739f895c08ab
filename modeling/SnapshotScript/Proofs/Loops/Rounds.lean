import SnapshotScript.Proofs.Arithmetic.Operations
import SnapshotScript.Proofs.Notes

/-!
# The rounds of a loop over integers

In a round of a loop the variable is bound to the counter, then the body is evaluated and then the
step.  If the variable still holds the counter afterwards, the next counter is the sum of the two.
So how many rounds there are can be found out by counting alone (`Counted`), and a loop is the
sequence of its rounds (`forRounds_of_rounds`).
-/

namespace SnapshotScript

open Evaluation

variable {σ κ : Type}

/-- A round of a loop over integers. -/
structure Round (σ κ : Type) where
  counter : Int64
  /-- The state in which the body starts. -/
  start : σ
  /-- The value of the body. -/
  value : Value κ
  /-- The state in which the step starts. -/
  after : σ
  /-- The state that the step leaves. -/
  finish : σ

section

variable [Runtime σ κ] (recur : Expr → Action σ κ (Value κ)) (loop : Loop κ) (s : Int64)

/-- The round is made in the state `t`: the body starts with the variable bound to the counter and
ends with a value, the step starts where the body has ended and gives `s`, and then the variable is
still bound to the counter. -/
structure Round.Runs (t : σ) (r : Round σ κ) : Prop where
  start : r.start = Runtime.define loop.name (.int r.counter) t
  body : recur loop.body r.start = .ok r.value r.after
  step : loopStep recur loop r.after = .ok (.int s) r.finish
  held : Runtime.lookupHere r.finish loop.name = some (.int r.counter)

/-- The rounds are made one after another, the first one in the state `t`. -/
inductive Rounds : σ → List (Round σ κ) → σ → Prop
  | done {t : σ} : Rounds t [] t
  | round {t t' : σ} {r : Round σ κ} {rounds : List (Round σ κ)} : r.Runs recur loop s t →
    Rounds r.finish rounds t' → Rounds t (r :: rounds) t'

end

/-- The value of the last round, or `last` if there is none. -/
def lastValue (last : Value κ) : List (Round σ κ) → Value κ
  | [] => last
  | r :: rounds => lastValue r.value rounds

/-- In which direction a loop with the step `s` runs. -/
def stepOrder (s : Int64) : Ordering :=
  if 0 < s then .lt else .gt

/-- The counters of a loop that runs from `n` to the bound by steps of `s`.  A round is made while
the counter stands to the bound as the direction says, and from then on the step tells the
direction. -/
inductive Counted (bound s : Int64) : Ordering → Int64 → List Int64 → Prop
  | done {direction : Ordering} {n : Int64} : compare n bound ≠ direction →
    Counted bound s direction n []
  | round {direction : Ordering} {n n' : Int64} {ns : List Int64} : compare n bound = direction →
    n'.toInt = n.toInt + s.toInt → Counted bound s (stepOrder s) n' ns →
    Counted bound s direction n (n :: ns)

/-- A step that is not zero has a direction. -/
theorem stepDirection_int {s : Int64} (hs : s ≠ 0) :
    Operator.stepDirection (.int s : Value κ) = .ok (stepOrder s) := by
  have hcompare : (Value.int s : Value κ).compareNumbers? (.int 0) = some (compare s 0) := rfl
  have hnumber : (Value.int s : Value κ).isNumber = true := rfl
  rw [Operator.stepDirection, if_pos hnumber, hcompare]
  cases horder : compare s 0 with
  | lt => rw [stepOrder, if_neg (Std.not_gt_of_lt (Std.compare_eq_lt.1 horder))]
  | eq => exact absurd (Std.compare_eq_iff_eq.1 horder) hs
  | gt => rw [stepOrder, if_pos (Std.compare_eq_gt.1 horder)]

/-- The sum of a counter and a step that fits is the next counter. -/
theorem binary_add_int {n n' s : Int64} (h : n'.toInt = n.toInt + s.toInt) :
    Operator.binary .add (.int n : Value κ) (.int s) = .ok (.int n') := by
  change (.ok (Operator.intOr (word? (n.toInt + s.toInt)) _) : Except Fault (Value κ)) = _
  rw [word?_eq_some_iff.2 h]
  rfl

variable [Runtime σ κ] {recur : Expr → Action σ κ (Value κ)} {loop : Loop κ} {bound s : Int64}

/-- No round is made if the counter does not stand to the bound as the direction says. -/
theorem forRounds_done {t : σ} {direction : Ordering} {n : Int64} (hbound : loop.bound = .int bound)
    (hdone : compare n bound ≠ direction) (steps : Nat) (last : Value κ) :
    forRounds recur loop (steps + 1) direction (.int n) last t = .ok last t := by
  have hcompare : (Value.int n : Value κ).compareNumbers? loop.bound = some (compare n bound) := by
    rw [hbound]
    rfl
  rw [forRounds, hcompare, if_neg fun h => hdone (Option.some.inj h)]
  rfl

/-- A loop goes on behind a round with the next counter. -/
theorem forRounds_round {t : σ} {r : Round σ κ} {direction : Ordering} {n : Int64} (hs : s ≠ 0)
    (hbound : loop.bound = .int bound) (hr : r.Runs recur loop s t)
    (hgoes : compare r.counter bound = direction) (hnext : n.toInt = r.counter.toInt + s.toInt)
    (steps : Nat) (last : Value κ) :
    forRounds recur loop (steps + 1) direction (.int r.counter) last t =
      forRounds recur loop steps (stepOrder s) (.int n) r.value r.finish := by
  have hcompare : (Value.int r.counter : Value κ).compareNumbers? loop.bound = some direction := by
    rw [hbound, ← hgoes]
    rfl
  have hdefine : Action.define loop.name (.int r.counter) t = .ok () r.start := by
    rw [hr.start]
    rfl
  have hdirection : Action.ofExcept loop.position (Operator.stepDirection (.int s : Value κ))
      r.finish = .ok (stepOrder s) r.finish := by
    rw [stepDirection_int hs]
    rfl
  have hheld : Action.lookupHere loop.name r.finish = .ok (some (.int r.counter)) r.finish :=
    congrArg (EStateM.Result.ok · r.finish) hr.held
  have hsum : Action.ofExcept loop.position (Operator.binary .add
      ((some (.int r.counter)).getD (.int r.counter) : Value κ) (.int s)) r.finish =
        .ok (.int n) r.finish := by
    rw [Option.getD_some, binary_add_int hnext]
    rfl
  rw [forRounds, if_pos hcompare, Action.bind_of_eq_ok hdefine, Action.bind_of_eq_ok hr.body,
    Action.bind_of_eq_ok hr.step, Action.bind_of_eq_ok hdirection, Action.bind_of_eq_ok hheld,
    Action.bind_of_eq_ok hsum]
  rfl

/-- A loop is the sequence of its rounds, if its counters are those that are counted. -/
theorem forRounds_of_rounds {t t' : σ} {rounds : List (Round σ κ)} (hs : s ≠ 0)
    (hbound : loop.bound = .int bound) (h : Rounds recur loop s t rounds t')
    {direction : Ordering} {n : Int64}
    (hcounted : Counted bound s direction n (rounds.map Round.counter)) {steps : Nat}
    (hsteps : rounds.length < steps) (last : Value κ) :
    forRounds recur loop steps direction (.int n) last t = .ok (lastValue last rounds) t' := by
  induction h generalizing direction n steps last with
  | done =>
    obtain ⟨steps, rfl⟩ := Nat.exists_eq_add_one_of_ne_zero (Nat.ne_of_gt hsteps)
    cases hcounted with
    | done hdone => exact forRounds_done hbound hdone steps last
  | @round _ _ r rounds hr _ ih =>
    obtain ⟨steps, rfl⟩ :=
      Nat.exists_eq_add_one_of_ne_zero (Nat.ne_of_gt (Nat.zero_lt_of_lt hsteps))
    cases hcounted with
    | round hgoes hnext hcounted =>
      rw [forRounds_round hs hbound hr hgoes hnext]
      exact ih hcounted (Nat.lt_of_succ_lt_succ hsteps) r.value

/-! ### The whole loop -/

/-- In which direction a loop runs at first. -/
def boundOrder (first bound : Int64) : Ordering :=
  if bound < first then .gt else .lt

/-- A loop between two integers. -/
def intLoop (name : String) (first bound : Int64) (step : Option Expr) (body : Expr)
    (position : Position) : Loop κ :=
  { name, bound := .int bound, step, body, position
    defaultStep := if bound < first then -1 else 1 }

/-- The rounds of a loop between two integers are made in a frame of their own. -/
theorem forLoop_int (name : String) (first bound : Int64) (step : Option Expr) (body : Expr)
    (position : Position) (steps : Nat) :
    forLoop recur steps name (.int first) (.int bound) step body position =
      Action.inFrame (forRounds recur (intLoop name first bound step body position) steps
        (boundOrder first bound) (.int first) .null) := by
  have hascending : ((.int bound : Value κ).compareNumbers? (.int first) ≠ some .lt) ↔
      ¬bound < first :=
    not_congr ((Option.some_inj (a := compare bound first)).trans Std.compare_eq_lt)
  simp only [forLoop, intLoop, boundOrder, hascending, ite_not, Value.isNumber, Bool.and_self,
    if_true]

/-- A loop between two integers is the sequence of its rounds. -/
theorem node_forLoop_of_rounds {limit steps : Nat} {name : String} {first bound body : Expr}
    {step : Option Expr} {position : Position} {a b s : Int64} {t t₁ t₂ t' : σ}
    {rounds : List (Round σ κ)} (hs : s ≠ 0) (hfirst : recur first t = .ok (.int a) t₁)
    (hbound : recur bound t₁ = .ok (.int b) t₂)
    (h : Rounds recur (intLoop name a b step body position) s (Runtime.enterFrame t₂) rounds t')
    (hcounted : Counted b s (boundOrder a b) a (rounds.map Round.counter))
    (hsteps : rounds.length < steps) :
    node recur limit steps (.forLoop name first bound step body position) t =
      .ok (lastValue .null rounds) (Runtime.leaveFrame (Runtime.place t₂) t') := by
  have hrounds := forRounds_of_rounds hs rfl h hcounted hsteps .null
  rw [node, Action.bind_of_eq_ok hfirst, Action.bind_of_eq_ok hbound, forLoop_int]
  unfold Action.inFrame
  dsimp only
  rw [hrounds]

/-! ### Notes of what is evaluated -/

/-- Evaluates an expression, and notes it together with the state in which this starts.  What is
evaluated on the way is not noted. -/
def noting (limit steps : Nat) (e : Expr) : Action (Noted σ (Expr × σ)) κ (Value κ) := fun b =>
  evaluate limit steps e (b.note (e, b.state))

/-- What is evaluated in a round: the body, and then the step if there is one. -/
def Round.starts (loop : Loop κ) (r : Round σ κ) : List (Expr × σ) :=
  (loop.body, r.start) :: (loop.step.map fun e => (e, r.after)).toList

/-- The round with notes of what is evaluated in it. -/
def Round.noted (loop : Loop κ) (notes : List (Expr × σ)) (r : Round σ κ) :
    Round (Noted σ (Expr × σ)) κ where
  counter := r.counter
  start := ⟨r.start, notes⟩
  value := r.value
  after := ⟨r.after, (loop.body, r.start) :: notes⟩
  finish := ⟨r.finish, (r.starts loop).reverse ++ notes⟩

variable {limit steps : Nat}

/-- What an expression gives, it also gives with a note. -/
theorem noting_of_evaluate {e : Expr} {v : Value κ} {t t' : σ}
    (h : evaluate limit steps e t = .ok v t') (notes : List (Expr × σ)) :
    noting limit steps e ⟨t, notes⟩ = .ok v ⟨t', (e, t) :: notes⟩ := by
  refine (Noted.evaluate_eq limit steps e t ((e, t) :: notes)).trans ?_
  rw [h]
  rfl

/-- A round is made in the same way when notes are taken. -/
theorem Round.Runs.noted {t : σ} {r : Round σ κ} (h : r.Runs (evaluate limit steps) loop s t)
    (notes : List (Expr × σ)) :
    (r.noted loop notes).Runs (noting limit steps) loop s ⟨t, notes⟩ where
  start := by
    rw [Round.noted, h.start]
    rfl
  body := noting_of_evaluate h.body notes
  step := by
    have hstep := h.step
    simp only [loopStep, Round.noted, Round.starts] at hstep ⊢
    cases hloop : loop.step with
    | none =>
      rw [hloop] at hstep
      obtain ⟨hdefault, hafter⟩ := EStateM.Result.ok.inj hstep
      rw [← hdefault, ← hafter]
      rfl
    | some e =>
      rw [hloop] at hstep
      exact noting_of_evaluate hstep _
  held := h.held

/-- Rounds are made in the same way when notes are taken. -/
theorem Rounds.noted {t t' : σ} {rounds : List (Round σ κ)}
    (h : Rounds (evaluate limit steps) loop s t rounds t') (notes : List (Expr × σ)) :
    ∃ rounds' : List (Round (Noted σ (Expr × σ)) κ),
      Rounds (noting limit steps) loop s ⟨t, notes⟩ rounds'
          ⟨t', (rounds.flatMap (Round.starts loop)).reverse ++ notes⟩ ∧
        rounds'.map Round.counter = rounds.map Round.counter ∧
        ∀ last, lastValue last rounds' = lastValue last rounds := by
  induction h generalizing notes with
  | done => exact ⟨[], .done, rfl, fun _ => rfl⟩
  | @round t t' r rounds hr _ ih =>
    obtain ⟨rounds', hrounds, hcounters, hvalue⟩ := ih ((r.starts loop).reverse ++ notes)
    refine ⟨r.noted loop notes :: rounds', ?_, ?_, fun _ => hvalue r.value⟩
    · rw [List.flatMap_cons, List.reverse_append, List.append_assoc]
      exact .round (hr.noted notes) hrounds
    · rw [List.map_cons, List.map_cons, hcounters]
      rfl

end SnapshotScript
