import SnapshotScript.Proofs.Judgement
import SnapshotScript.Proofs.Programs

/-!
# The limits of a run

How many calls may be active at once is decided in one place only, where a function is called.  So
two runs with different limits go together up to the first call that exceeds the lower limit, and
there the run with the lower limit fails.  No expression takes a failure of another one back, and
so the whole program fails in this way.  Hence a program that does not fail in this way does the
same under every higher limit (`Interpreter.run_depth_mono`).

The number of steps is looked at where an expression begins, and where a round of a loop does.  A
run that has used up its steps stops there, and again no expression takes that back.  So as soon as
the steps suffice, it makes no difference how many they are (`Interpreter.evaluateAll_eq_of_ends`).
-/

namespace SnapshotScript

variable {σ κ α β : Type}

/-- The outcome is an early end for one of the reasons. -/
def StopsFor (reason : Unwind κ → Prop) (outcome : EStateM.Result (Unwind κ) σ α) : Prop :=
  ∃ u s, outcome = .error u s ∧ reason u

namespace Action

/-- From every state the second action does what the first one does, unless the first one ends early
for one of the reasons. -/
def ExtendedBy (reason : Unwind κ → Prop) (x y : Action σ κ α) : Prop :=
  ∀ s, StopsFor reason (x s) ∨ y s = x s

variable {reason : Unwind κ → Prop} {x y : Action σ κ α}

namespace ExtendedBy

theorem refl (x : Action σ κ α) : ExtendedBy reason x x :=
  fun _ => .inr rfl

/-- Every action extends one that has used up its steps. -/
theorem exhausted (y : Action σ κ α) : ExtendedBy (· = .exhausted) (throw .exhausted) y :=
  fun s => .inl ⟨_, s, rfl, rfl⟩

/-- One action after another is extended if both are.  Behind an early end nothing is done any more.
-/
theorem bind {f g : α → Action σ κ β} (hx : ExtendedBy reason x y)
    (hf : ∀ a, ExtendedBy reason (f a) (g a)) : ExtendedBy reason (x >>= f) (y >>= g) := by
  intro s
  change StopsFor reason (EStateM.bind x f s) ∨ EStateM.bind y g s = EStateM.bind x f s
  unfold EStateM.bind
  rcases hx s with ⟨u, t, hstop, hreason⟩ | hsame
  · rw [hstop]
    exact .inl ⟨u, t, rfl, hreason⟩
  · rw [hsame]
    cases x s with
    | ok a t => exact hf a t
    | error u t => exact .inr rfl

variable [Runtime σ κ]

/-- What runs in a frame of its own is extended. -/
theorem inFrame (hx : ExtendedBy reason x y) : ExtendedBy reason (inFrame x) (inFrame y) := by
  intro s
  unfold Action.inFrame
  rcases hx (Runtime.enterFrame s) with ⟨u, t, hstop, hreason⟩ | hsame
  · rw [hstop]
    exact .inl ⟨u, _, rfl, hreason⟩
  · rw [hsame]
    exact .inr rfl

variable (hreturned : ∀ v, ¬ reason (.returned v))

include hreturned

/-- A call is extended if the body of its function is.  A `return` ends the body only, and so it
must not be a reason. -/
theorem inCall {body body' : Action σ κ (Value κ)} (f : Function κ) (names : Bindings κ)
    (site : Position) (hbody : ExtendedBy reason body body') :
    ExtendedBy reason (inCall f names site body) (inCall f names site body') := by
  intro s
  unfold Action.inCall
  rcases hbody (Runtime.enterCall f names site s) with ⟨u, t, hstop, hreason⟩ | hsame
  · rw [hstop]
    cases u with
    | returned v => exact absurd hreason (hreturned v)
    | failed e => exact .inl ⟨_, _, rfl, hreason⟩
    | exhausted => exact .inl ⟨_, _, rfl, hreason⟩
  · rw [hsame]
    exact .inr rfl

/-- The body of a function is extended by one with a higher limit.  This is the only place at which
the limit is looked at. -/
theorem enter {recur recur' : Expr → Action σ κ (Value κ)} {limit limit' : Nat}
    (hlimit : limit ≤ limit') (hexceeds : limit < limit' → ∀ e : RuntimeError,
      e.fault = .recursionLimit limit → reason (.failed e))
    (h : ∀ e, ExtendedBy reason (recur e) (recur' e)) (f : Function κ) (names : Bindings κ)
    (site : Position) :
    ExtendedBy reason (Evaluation.enter recur limit f names site)
      (Evaluation.enter recur' limit' f names site) := by
  refine (refl _).bind fun depth => ?_
  by_cases hdepth : limit ≤ depth
  · rcases Nat.eq_or_lt_of_le hlimit with rfl | hlt
    · rw [if_pos hdepth, if_pos hdepth]
      exact refl _
    · rw [if_pos hdepth]
      exact fun s => .inl ⟨_, s, rfl, hexceeds hlt _ rfl⟩
  · have hdepth' : ¬limit' ≤ depth := fun hle => hdepth (Nat.le_trans hlimit hle)
    rw [if_neg hdepth, if_neg hdepth']
    exact inCall hreturned f names site (h f.body)

end ExtendedBy

end Action

variable [Runtime σ κ]

/-- That an action extends another passes on from their parts. -/
def Judgement.extension (reason : Unwind κ → Prop) : Judgement σ κ where
  holds := Action.ExtendedBy reason
  faulty _ := True
  bind := .bind
  inFrame := .inFrame
  look _ := .refl _
  fail _ _ := .refl _
  returned _ := .refl _
  exhausted := .refl _
  record _ := .refl _
  define _ _ := .refl _
  freshId := .refl _
  capture := .refl _
  object _ _ := .refl _
  readField _ _ := .refl _
  writeField _ _ _ := .refl _

/-! ### The limit on active calls -/

/-- The reason is a fault: a call would have exceeded the limit. -/
def ExceedsLimit (u : Unwind κ) : Prop :=
  ∃ e, u = .failed e ∧ e.fault.kind = .recursionLimit

/-- With a higher limit an expression does the same, unless it fails with the lower limit because it
exceeds that one. -/
theorem evaluate_extended {limit limit' : Nat} (hlimit : limit ≤ limit') (steps : Nat) (e : Expr) :
    Action.ExtendedBy ExceedsLimit (evaluate (σ := σ) limit steps e) (evaluate limit' steps e) := by
  induction steps generalizing e with
  | zero => exact .refl _
  | succ steps ih =>
    refine (Judgement.extension ExceedsLimit).node (.refl steps) (fun c _ => ih c)
      (fun _ _ => trivial) fun _ _ p _ f names =>
        .enter nofun hlimit (fun _ e he => ?_) ih f names p
    exact ⟨e, rfl, congrArg Fault.kind he⟩

/-- The limit on active calls shows only where a program fails because it exceeds the limit.  A
program that ends in any other way, or does not end, does the same under every higher limit: it has
the same value, or the same fault at the same position with the same active calls, and it leaves the
same state. -/
theorem Interpreter.run_depth_mono (i : Interpreter σ) (program : Expr) {depth : Nat}
    (hdepth : i.depth ≤ depth)
    (hresult : ∀ e, (i.run program).1 = .error (.runtime e) → e.fault.kind ≠ .recursionLimit) :
    ({ i with depth }.run program).1 = (i.run program).1 ∧
      ({ i with depth }.run program).2.machine = (i.run program).2.machine := by
  have hsame : evaluate depth i.steps program i.machine =
      evaluate i.depth i.steps program i.machine := by
    rcases evaluate_extended hdepth i.steps program i.machine with
      ⟨_, s, hstop, e, rfl, hkind⟩ | hsame
    · refine absurd hkind (hresult e ?_)
      unfold run
      rw [hstop]
    · exact hsame
  unfold run
  dsimp only
  rw [hsame]
  cases evaluate i.depth i.steps program i.machine with
  | ok v s => exact ⟨rfl, rfl⟩
  | error u s => cases u <;> exact ⟨rfl, rfl⟩

/-- A fault in a function that is called from outside of every function.  No more than one call is
active, and so it is the same fault under the limits 1 and 1000. -/
theorem Interpreter.run_depth_mono_single :
    let i : Interpreter Machine := ⟨.initial, 1, 10⟩
    let program := Expr.block
      [.function (some "f") [] (.identifier "x" ⟨1, 8⟩) ⟨1, 1⟩,
        .call (.identifier "f" ⟨2, 1⟩) [] ⟨2, 1⟩] .start
    (i.run program).1 =
        .error (.runtime ⟨.undefinedVariable "x", ⟨1, 8⟩, [⟨"f", ⟨2, 1⟩⟩]⟩) ∧
      ({ i with depth := 1000 }.run program).1 = (i.run program).1 ∧
      ({ i with depth := 1000 }.run program).2.machine = (i.run program).2.machine := by
  refine ⟨rfl, Interpreter.run_depth_mono _ _ (by decide) fun e he => ?_⟩
  cases he
  decide

/-! ### The number of steps -/

/-- With more steps an expression does the same, unless the fewer ones do not suffice. -/
theorem evaluate_extended_steps {steps steps' : Nat} (hsteps : steps ≤ steps') (limit : Nat)
    (e : Expr) :
    Action.ExtendedBy (· = .exhausted) (evaluate (σ := σ) limit steps e)
      (evaluate limit steps' e) := by
  induction steps generalizing steps' e with
  | zero => exact .exhausted _
  | succ steps ih =>
    cases steps' with
    | zero => exact absurd hsteps (Nat.not_succ_le_zero steps)
    | succ steps' =>
      have hle := Nat.le_of_succ_le_succ hsteps
      have houtlasts : (Judgement.extension (σ := σ) (· = .exhausted)).Outlasts steps steps' :=
        ⟨hle, fun y _ => .exhausted y⟩
      exact (Judgement.extension _).node houtlasts (fun c _ => ih hle c) (fun _ _ => trivial)
        fun _ _ p _ f names =>
          .enter nofun (Nat.le_refl limit) (fun hlt => absurd hlt (Nat.lt_irrefl limit))
            (ih hle) f names p

namespace Interpreter

variable {i : Interpreter σ} {steps : Nat}

/-- A program that ends does the same with more steps. -/
theorem run_steps_mono (hsteps : i.steps ≤ steps) {program : Expr}
    (hends : (i.run program).1 ≠ .error .exhausted) :
    { i with steps }.run program = ((i.run program).1, { (i.run program).2 with steps }) := by
  have hsame : evaluate i.depth steps program i.machine =
      evaluate i.depth i.steps program i.machine := by
    rcases evaluate_extended_steps hsteps i.depth program i.machine with
      ⟨_, s, hstop, rfl⟩ | hsame
    · refine absurd ?_ hends
      rw [run_eq_finish, hstop]
      rfl
    · exact hsame
  rw [run_eq_finish, run_eq_finish]
  dsimp only
  rw [hsame]
  cases evaluate i.depth i.steps program i.machine with
  | ok v s => rfl
  | error u s => cases u <;> rfl

/-- A source text whose program ends does the same with more steps. -/
theorem evaluateSource_steps_mono (hsteps : i.steps ≤ steps) {source : String}
    (hends : (i.evaluateSource source).1 ≠ .error .exhausted) :
    { i with steps }.evaluateSource source =
      ((i.evaluateSource source).1, { (i.evaluateSource source).2 with steps }) := by
  unfold evaluateSource at *
  split at hends
  · rfl
  · dsimp only at hends ⊢
    split at hends
    · rfl
    · exact run_steps_mono (i := (i.log _).log _) hsteps hends

/-- How many steps are allowed shows only where they do not suffice.  Source texts whose programs
all end do the same with more steps: they have the same results, and leave the same state. -/
theorem evaluateAll_steps_mono (hsteps : i.steps ≤ steps) {sources : List String}
    (hends : ∀ result ∈ (i.evaluateAll sources).1, result ≠ .error .exhausted) :
    { i with steps }.evaluateAll sources =
      ((i.evaluateAll sources).1, { (i.evaluateAll sources).2 with steps }) := by
  induction sources generalizing i with
  | nil => rfl
  | cons source sources ih =>
    obtain ⟨hfirst, hrest⟩ := List.forall_mem_cons.1 hends
    have hsource := evaluateSource_steps_mono hsteps hfirst
    have hsteps' : (i.evaluateSource source).2.steps ≤ steps :=
      Nat.le_trans (Nat.le_of_eq (evaluateSource_limits i source).2) hsteps
    rw [evaluateAll, evaluateAll, hsource]
    dsimp only
    rw [ih hsteps' hrest]

/-- All numbers of steps that suffice lead to the same results and the same state. -/
theorem evaluateAll_eq_of_ends {m : σ} {depth steps' : Nat} {sources : List String}
    (h : ∀ result ∈ ((mk m depth steps).evaluateAll sources).1, result ≠ .error .exhausted)
    (h' : ∀ result ∈ ((mk m depth steps').evaluateAll sources).1, result ≠ .error .exhausted) :
    ((mk m depth steps).evaluateAll sources).1 = ((mk m depth steps').evaluateAll sources).1 ∧
      ((mk m depth steps).evaluateAll sources).2.machine =
        ((mk m depth steps').evaluateAll sources).2.machine := by
  rcases Nat.le_total steps steps' with hle | hle
  · have hmore := evaluateAll_steps_mono (i := mk m depth steps) hle h
    dsimp only at hmore
    rw [hmore]
    exact ⟨rfl, rfl⟩
  · have hmore := evaluateAll_steps_mono (i := mk m depth steps') hle h'
    dsimp only at hmore
    rw [hmore]
    exact ⟨rfl, rfl⟩

end Interpreter

end SnapshotScript
