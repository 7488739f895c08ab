import SnapshotScript.Proofs.Judgement
import SnapshotScript.Proofs.Observer

/-!
# The expression that fails

A fault carries a position but not the expression in which it arose.  So here the state of a run
also holds that expression: the innermost one whose evaluation has failed.  Apart from this, the
evaluation is the ordinary one.

A fault that no inner evaluation has raised is attributed to the expression itself or to an argument
of it (`Evaluation.node_attributes`).  Hence every fault is at one of the few positions that belong
to the expression that fails (`evaluateBlaming_attributes`).
-/

namespace SnapshotScript

/-! ### Runs that tell which expression has failed -/

/-- A state of a run, with the expression that has failed. -/
structure Blamed (σ : Type) where
  state : σ
  /-- The innermost expression whose evaluation has failed, if one has. -/
  culprit : Option Expr

namespace Blamed

variable {σ κ : Type}

/-- Changes the state. -/
def update (b : Blamed σ) (s : σ) : Blamed σ :=
  { b with state := s }

/-- The expression that has failed is held beside the state, and operations do not see it. -/
def observer : Observer (Blamed σ) σ κ where
  state := Blamed.state
  notice _ s b := b.update s
  state_notice _ _ _ := rfl

instance [Runtime σ κ] : Runtime (Blamed σ) κ :=
  observer.runtime

end Blamed

/-- If the action fails, so does the expression, unless one inside of it has failed before. -/
def blaming {σ κ α : Type} (e : Expr) (x : Action (Blamed σ) κ α) :
    Action (Blamed σ) κ α := fun b =>
  match x b with
  | .error (.failed error) b => .error (.failed error) { b with culprit := b.culprit.getD e }
  | result => result

/-- Evaluates an expression and tells which one has failed. -/
def evaluateBlaming {σ κ : Type} [Runtime σ κ] (limit : Nat) :
    Nat → Expr → Action (Blamed σ) κ (Value κ)
  | 0, _ => throw .exhausted
  | steps + 1, e => blaming e (Evaluation.node (evaluateBlaming limit steps) limit steps e)

/-- The expression that fails when the interpreter evaluates the text, if one does. -/
def Interpreter.culprit? {σ κ : Type} [Runtime σ κ] (i : Interpreter σ) (source : String) :
    Option Expr :=
  match tokenize source with
  | .error _ => none
  | .ok tokens =>
    let i := i.log (.tokenized tokens.length)
    match parseTokens tokens with
    | .error _ => none
    | .ok program =>
      let i := i.log (.parsed (Interpreter.itemCount program))
      match evaluateBlaming i.depth i.steps program (Blamed.mk i.machine none) with
      | .error (.failed _) b => b.culprit
      | _ => none

/-! ### Positions of faults -/

section

variable {σ κ α β : Type} {P : Position → Prop} {Q : α → Prop} {R : β → Prop}

/-- How an action ends before which nothing has failed.  It has a result of which `Q` holds, or
there is a fault: its own, at a position of which `P` holds, or that of an expression inside, at one
of the positions of this expression. -/
inductive Attributed (P : Position → Prop) (Q : α → Prop) :
    EStateM.Result (Unwind κ) (Blamed σ) α → Prop
  | ok {a b} : Q a → b.culprit = none → Attributed P Q (.ok a b)
  | returned {v b} : b.culprit = none → Attributed P Q (.error (.returned v) b)
  | exhausted {b} : Attributed P Q (.error .exhausted b)
  | own {e b} : P e.position → b.culprit = none → Attributed P Q (.error (.failed e) b)
  | inner {e b n} : b.culprit = some n → e.position ∈ n.faultPositions →
    Attributed P Q (.error (.failed e) b)

/-- The faults of the action itself are at positions of which `P` holds. -/
def Attributes (P : Position → Prop) (Q : α → Prop) (x : Action (Blamed σ) κ α) : Prop :=
  ∀ b, b.culprit = none → Attributed P Q (x b)

/-- Nothing is asked of a result. -/
abbrev Anything : α → Prop := fun _ => True

variable {x : Action (Blamed σ) κ α}

namespace Attributes

/-- The conditions on positions and results may be weakened. -/
theorem mono {P' : Position → Prop} {Q' : α → Prop} (h : Attributes P Q x)
    (hP : ∀ p, P p → P' p) (hQ : ∀ a, Q a → Q' a) : Attributes P' Q' x := by
  intro b hb
  have hresult := h b hb
  generalize x b = result at hresult ⊢
  cases hresult with
  | ok ha hb' => exact .ok (hQ _ ha) hb'
  | returned hb' => exact .returned hb'
  | exhausted => exact .exhausted
  | own hp hb' => exact .own (hP _ hp) hb'
  | inner hb' hp => exact .inner hb' hp

/-- One action after another attributes its faults as both of them do. -/
theorem bind {f : α → Action (Blamed σ) κ β} (hx : Attributes P Q x)
    (hf : ∀ a, Q a → Attributes P R (f a)) : Attributes P R (x >>= f) := by
  intro b hb
  have hfirst := hx b hb
  change Attributed P R (EStateM.bind x f b)
  unfold EStateM.bind
  generalize x b = result at hfirst
  cases hfirst with
  | ok ha hb' => exact hf _ ha _ hb'
  | returned hb' => exact .returned hb'
  | exhausted => exact .exhausted
  | own hp hb' => exact .own hp hb'
  | inner hb' hp => exact .inner hb' hp

/-- A failing expression takes the faults upon itself that no expression inside has raised. -/
theorem blaming {e : Expr} (h : Attributes (· ∈ e.faultPositions) Q x) :
    Attributes (fun _ => False) Q (blaming e x) := by
  intro b hb
  have hinside := h b hb
  unfold SnapshotScript.blaming
  generalize x b = result at hinside
  cases hinside with
  | ok ha hb' => exact .ok ha hb'
  | returned hb' => exact .returned hb'
  | exhausted => exact .exhausted
  | own hp hb' =>
    refine .inner (n := e) ?_ hp
    rw [hb']
    rfl
  | @inner _ _ n hb' hp =>
    refine .inner (n := n) ?_ hp
    rw [hb']
    rfl

end Attributes

/-- An action that has a result attributes nothing. -/
theorem attributes_of_ok (h : ∀ b, ∃ a b', x b = .ok a b' ∧ b'.culprit = b.culprit) :
    Attributes P Anything x := by
  intro b hb
  obtain ⟨a, b', hx, hculprit⟩ := h b
  rw [hx]
  exact .ok trivial (hculprit.trans hb)

variable [Runtime σ κ]

/-- A fault is attributed to its position. -/
theorem fail_attributes (fault : Fault) {position : Position} (h : P position) :
    Attributes P Q (Action.fail fault position : Action (Blamed σ) κ α) :=
  fun _ hb => .own h hb

theorem inFrame_attributes (h : Attributes P Q x) : Attributes P Q (Action.inFrame x) := by
  intro b hb
  have hinside := h (Runtime.enterFrame b) hb
  unfold Action.inFrame
  generalize x (Runtime.enterFrame b) = result at hinside
  cases hinside with
  | ok ha hb' => exact .ok ha hb'
  | returned hb' => exact .returned hb'
  | exhausted => exact .exhausted
  | own hp hb' => exact .own hp hb'
  | inner hb' hp => exact .inner hb' hp

/-- The body of a function ends in a result of the call, also by a `return`. -/
theorem inCall_attributes (f : Function κ) (names : Bindings κ) (site : Position)
    {body : Action (Blamed σ) κ (Value κ)} (h : Attributes P Anything body) :
    Attributes P Anything (Action.inCall f names site body) := by
  intro b hb
  have hinside := h (Runtime.enterCall f names site b) hb
  unfold Action.inCall
  generalize body (Runtime.enterCall f names site b) = result at hinside
  cases hinside with
  | ok _ hb' => exact .ok trivial hb'
  | returned hb' => exact .ok trivial hb'
  | exhausted => exact .exhausted
  | own hp hb' => exact .own hp hb'
  | inner hb' hp => exact .inner hb' hp

end

/-! ### Expressions -/

section

variable {σ κ : Type} [Runtime σ κ]

/-- Where an action has its own faults follows from where its parts have theirs. -/
def Judgement.attribution (P : Position → Prop) : Judgement (Blamed σ) κ where
  holds x _ := Attributes P Anything x
  faulty := P
  bind hx hf := hx.bind fun a _ => hf a
  inFrame := inFrame_attributes
  look _ := attributes_of_ok fun _ => ⟨_, _, rfl, rfl⟩
  fail hp _ := fail_attributes _ hp
  returned _ := fun _ hb => .returned hb
  exhausted := fun _ _ => .exhausted
  record _ := attributes_of_ok fun _ => ⟨_, _, rfl, rfl⟩
  define _ _ := attributes_of_ok fun _ => ⟨_, _, rfl, rfl⟩
  freshId := attributes_of_ok fun _ => ⟨_, _, rfl, rfl⟩
  capture := attributes_of_ok fun _ => ⟨_, _, rfl, rfl⟩
  object _ _ := attributes_of_ok fun _ => ⟨_, _, rfl, rfl⟩
  readField _ _ := attributes_of_ok fun _ => ⟨_, _, rfl, rfl⟩
  writeField _ _ _ := attributes_of_ok fun _ => ⟨_, _, rfl, rfl⟩

/-- A call has the faults of the body, and one at its site if the limit does not allow it. -/
theorem enter_attributes {P : Position → Prop} {recur : Expr → Action (Blamed σ) κ (Value κ)}
    {limit : Nat} (h : ∀ e, Attributes P Anything (recur e)) (f : Function κ) (names : Bindings κ)
    {site : Position} (hsite : P site) :
    Attributes P Anything (Evaluation.enter recur limit f names site) := by
  have hdepth : Attributes P Anything (Action.depth : Action (Blamed σ) κ Nat) :=
    attributes_of_ok fun _ => ⟨_, _, rfl, rfl⟩
  refine hdepth.bind fun depth _ => ?_
  split
  · exact fail_attributes _ hsite
  · exact inCall_attributes f names site (h f.body)

/-- The faults of an expression itself are at its positions. -/
theorem Evaluation.node_attributes {recur : Expr → Action (Blamed σ) κ (Value κ)}
    {limit steps : Nat} (hrecur : ∀ e, Attributes (fun _ => False) Anything (recur e)) (e : Expr) :
    Attributes (· ∈ e.faultPositions) Anything (node recur limit steps e) := by
  have h : ∀ c, Attributes (· ∈ e.faultPositions) Anything (recur c) :=
    fun c => (hrecur c).mono nofun fun _ => id
  change (Judgement.attribution (· ∈ e.faultPositions)).holds (node recur limit steps e)
    (node recur limit steps e)
  refine Judgement.node _ (.refl steps) (fun c _ => h c) (fun _ hp => hp) ?_
  rintro callee arguments p rfl f names
  exact enter_attributes h f names List.mem_cons_self

end

/-- Whatever fails, the fault is at one of the positions of the expression that has failed. -/
theorem evaluateBlaming_attributes {σ κ : Type} [Runtime σ κ] (limit steps : Nat) (e : Expr) :
    Attributes (fun _ => False) Anything
      (evaluateBlaming limit steps e : Action (Blamed σ) κ (Value κ)) := by
  induction steps generalizing e with
  | zero => exact fun _ _ => .exhausted
  | succ steps ih => exact (Evaluation.node_attributes ih e).blaming

end SnapshotScript
