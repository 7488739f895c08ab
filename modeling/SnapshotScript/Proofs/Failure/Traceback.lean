import SnapshotScript.Proofs.Discipline
import SnapshotScript.Proofs.Judgement
import SnapshotScript.Proofs.Observer

/-!
# Tracebacks

The calls that were active when a fault arose form a chain.  The first one stands in the program,
and each further one in the body of the function that the call before has entered.  The fault itself
stands in the body of the function that was entered last.

An active call has the name of a function but not the function.  So here the state of a run also
holds the functions that have been entered.  Apart from this, the evaluation is the ordinary one
(`Attended.evaluate_state`).
-/

namespace SnapshotScript

/-! ### Chains of calls -/

/-- The expression belongs to the code: it stands in it, but not in the body of a function that is
defined in it. -/
inductive Expr.Direct (code : Expr) : Expr → Prop
  | root : Direct code code
  | part {e c} : Direct code e → c ∈ e.parts → Direct code c

/-- Faults of an expression are at positions of expressions of the same code. -/
theorem Expr.Direct.of_mem_faultPositions {code e : Expr} (he : code.Direct e) {p : Position}
    (hp : p ∈ e.faultPositions) : ∃ n, code.Direct n ∧ n.position = p := by
  cases e with
  | call callee arguments q =>
    rcases List.mem_cons.1 hp with rfl | hmem
    · exact ⟨_, he, rfl⟩
    · obtain ⟨a, ha, rfl⟩ := List.mem_map.1 hmem
      exact ⟨a.value, .part he (List.mem_cons_of_mem _ (List.mem_map_of_mem ha)), rfl⟩
  | identifier _ _ | binary _ _ _ _ | unary _ _ _ | member _ _ _ | memberSet _ _ _ _
  | forLoop _ _ _ _ _ _ => exact ⟨_, he, (List.mem_singleton.1 hp).symm⟩
  | literal _ _ | assign _ _ _ | not _ _ | choice _ _ _ | whileLoop _ _ _ | function _ _ _ _
  | struct _ _ _ | returning _ _ | block _ _ => cases hp

/-- The calls lead from the code to the code `last`.  Each one stands in the code that it is made
from, has the name of a function, and leads to the body of that function. -/
inductive CallChain {κ : Type} : Expr → List ActiveCall → List (Function κ) → Expr → Prop
  | here {code} : CallChain code [] [] code
  | call {code callee arguments last} {c : ActiveCall} {cs : List ActiveCall} {f : Function κ}
      {fs : List (Function κ)} : code.Direct (.call callee arguments c.site) →
    c.name = f.displayName → CallChain f.body cs fs last → CallChain code (c :: cs) (f :: fs) last

namespace CallChain

variable {κ : Type} {code last : Expr} {cs : List ActiveCall} {fs : List (Function κ)}

/-- There are as many functions as calls. -/
theorem length_eq (h : CallChain code cs fs last) : fs.length = cs.length := by
  induction h with
  | here => rfl
  | call _ _ _ ih => rw [List.length_cons, List.length_cons, ih]

/-- A call in the last body of a chain leads to the body of another function. -/
theorem concat (h : CallChain code cs fs last) {callee : Expr} {arguments : List (Argument Expr)}
    {site : Position} (hsite : last.Direct (.call callee arguments site)) (f : Function κ) :
    CallChain code (cs ++ [⟨f.displayName, site⟩]) (fs ++ [f]) f.body := by
  induction h with
  | here => exact .call hsite rfl .here
  | call hcall hname _ ih => exact .call hcall hname (ih hsite)

end CallChain

/-- The traceback of an error: the active calls lead from the program to the code in which the fault
stands, and there are no more of them than the limit allows.  If the limit is the reason for the
fault, there are just as many. -/
structure RuntimeError.Traces {κ : Type} (program : Expr) (limit : Nat)
    (functions : List (Function κ)) (e : RuntimeError) : Prop where
  chain : ∃ code n, CallChain program e.trace functions code ∧ code.Direct n ∧
    n.position = e.position
  bound : e.trace.length ≤ limit
  full : e.fault.kind = .recursionLimit → e.trace.length = limit

/-! ### Runs that tell which functions they enter -/

/-- A state of a run, with functions that have been entered.  In front stand those whose calls are
active, the outermost one first.  The others have been entered by calls that have ended, as all
calls do where a program fails. -/
structure Attended (σ κ : Type) where
  state : σ
  entered : List (Function κ)

namespace Attended

variable {σ κ : Type}

/-- Before any function has been entered. -/
def start (s : σ) : Attended σ κ :=
  ⟨s, []⟩

/-- Changes the state. -/
def update (b : Attended σ κ) (s : σ) : Attended σ κ :=
  { b with state := s }

variable [Runtime σ κ]

/-- The functions whose calls are active. -/
def active (b : Attended σ κ) : List (Function κ) :=
  b.entered.take (Runtime.calls b.state).size

/-- A call is noticed with its function, and what has been noticed of calls that have ended before
is given up. -/
def observer : Observer (Attended σ κ) σ κ where
  state := Attended.state
  notice
    | .enterCall f _ _, s, b => ⟨s, b.active ++ [f]⟩
    | _, s, b => b.update s
  state_notice step _ _ := by cases step <;> rfl

instance : Runtime (Attended σ κ) κ :=
  observer.runtime

/-- The evaluation that tells which functions it enters is the ordinary evaluation. -/
theorem evaluate_state (limit steps : Nat) (e : Expr) (b : Attended σ κ) :
    evaluate limit steps e b.state =
      (Mirror.onStates Attended.state).outcome id (evaluate limit steps e b) :=
  observer.forgetting.evaluate_eq limit steps e b

end Attended

/-! ### Runs between calls -/

namespace Attended

variable {α β : Type} {program code : Expr} {limit : Nat} {b b' : Attended Machine FrameId}

/-- The active calls lead from the program to the code, and the limit allows them. -/
structure Stands (program : Expr) (limit : Nat) (code : Expr) (b : Attended Machine FrameId) :
    Prop where
  chain : CallChain program b.state.calls.toList b.active code
  bound : b.state.calls.size ≤ limit

/-- The same calls are active, of the same functions. -/
structure Keeps (b b' : Attended Machine FrameId) : Prop where
  calls : b'.state.calls = b.state.calls
  active : b'.active = b.active

theorem Keeps.refl (b : Attended Machine FrameId) : b.Keeps b :=
  ⟨rfl, rfl⟩

theorem Keeps.trans {b'' : Attended Machine FrameId} (h : b.Keeps b') (h' : b'.Keeps b'') :
    b.Keeps b'' :=
  ⟨h'.calls.trans h.calls, h'.active.trans h.active⟩

/-- The active calls still lead to the code if they are kept. -/
theorem Stands.keeps (h : b.Stands program limit code) (hkeeps : b.Keeps b') :
    b'.Stands program limit code := by
  constructor
  · rw [hkeeps.calls, hkeeps.active]
    exact h.chain
  · rw [hkeeps.calls]
    exact h.bound

/-- What only concerns other parts of the machine keeps the active calls. -/
theorem keeps_update {m : Machine} (h : m.calls = b.state.calls) : b.Keeps (b.update m) :=
  ⟨h, congrArg (fun calls : Array ActiveCall => b.entered.take calls.size) h⟩

/-- There are as many functions as active calls. -/
theorem Stands.length_active (h : b.Stands program limit code) :
    b.active.length = b.state.calls.size :=
  h.chain.length_eq

/-- One more function is active when a call has begun. -/
theorem active_enterCall (hlength : b.active.length = b.state.calls.size) (f : Function)
    (names : Bindings) (site : Position) :
    (Runtime.enterCall f names site b).active = b.active ++ [f] := by
  change (b.active ++ [f]).take (b.state.calls.push ⟨f.displayName, site⟩).size = _
  rw [Array.size_push, ← hlength]
  exact List.take_of_length_le (Nat.le_of_eq List.length_append)

/-- A call in the code is the next one of the chain, which now leads to the body of the function. -/
theorem Stands.enterCall (h : b.Stands program limit code) (hlimit : b.state.calls.size < limit)
    {callee : Expr} {arguments : List (Argument Expr)} {site : Position}
    (hsite : code.Direct (.call callee arguments site)) (f : Function) (names : Bindings) :
    (Runtime.enterCall f names site b).Stands program limit f.body := by
  have hcalls : (Runtime.enterCall f names site b).state.calls =
      b.state.calls.push ⟨f.displayName, site⟩ := rfl
  constructor
  · rw [hcalls, active_enterCall h.length_active, Array.toList_push]
    exact h.chain.concat hsite f
  · rw [hcalls, Array.size_push]
    exact hlimit

/-- When the call has ended, the calls from before are active again. -/
theorem Keeps.leaveCall {f : Function} {names : Bindings} {site : Position}
    (h : (Runtime.enterCall f names site b).Keeps b')
    (hlength : b.active.length = b.state.calls.size) :
    b.Keeps (Runtime.leaveCall (Runtime.place b) b') := by
  have hcalls : b'.state.calls = b.state.calls.push ⟨f.displayName, site⟩ := h.calls
  have hpop : b'.state.calls.pop = b.state.calls := by rw [hcalls, Array.pop_push]
  have hfewer : b'.entered.take b'.state.calls.pop.size =
      b'.active.take b.state.calls.size := by
    change _ = (b'.entered.take b'.state.calls.size).take b.state.calls.size
    rw [hpop, List.take_take, hcalls, Array.size_push, Nat.min_eq_left (Nat.le_succ _)]
  refine ⟨hpop, hfewer.trans ?_⟩
  rw [h.active, active_enterCall hlength, ← hlength, List.take_left']
  rfl

/-- How a run ends that begins in the state `b`: with the calls that were active before, or with a
fault that has a traceback. -/
inductive Ends (program : Expr) (limit : Nat) (b : Attended Machine FrameId) :
    EStateM.Result Unwind (Attended Machine FrameId) α → Prop
  | ok {a : α} {b' : Attended Machine FrameId} : b.Keeps b' → Ends program limit b (.ok a b')
  | returned {v : Value} {b' : Attended Machine FrameId} : b.Keeps b' →
    Ends program limit b (.error (.returned v) b')
  | exhausted {b' : Attended Machine FrameId} : Ends program limit b (.error .exhausted b')
  | failed {e : RuntimeError} {b' : Attended Machine FrameId} :
    e.Traces program limit (b'.entered.take e.trace.length) →
    Ends program limit b (.error (.failed e) b')

/-- Wherever the active calls lead to the code, the run ends in this way. -/
def Attends (program : Expr) (limit : Nat) (code : Expr)
    (x : Action (Attended Machine FrameId) FrameId α) : Prop :=
  ∀ b, b.Stands program limit code → Ends program limit b (x b)

variable {x : Action (Attended Machine FrameId) FrameId α}

namespace Attends

/-- An action that has a result and only changes other parts of the machine attends to the calls. -/
theorem of_ok (h : ∀ b, ∃ a m, x b = .ok a (b.update m) ∧ m.calls = b.state.calls) :
    Attends program limit code x := by
  intro b _
  obtain ⟨a, m, hx, hcalls⟩ := h b
  rw [hx]
  exact .ok (keeps_update hcalls)

/-- One action after another attends to the calls if both do. -/
theorem bind {f : α → Action (Attended Machine FrameId) FrameId β}
    (hx : Attends program limit code x) (hf : ∀ a, Attends program limit code (f a)) :
    Attends program limit code (x >>= f) := by
  intro b hb
  have hfirst := hx b hb
  change Ends program limit b (EStateM.bind x f b)
  unfold EStateM.bind
  generalize x b = result at hfirst
  cases hfirst with
  | ok hkeeps =>
    next a b' =>
    have hrest := hf a b' (hb.keeps hkeeps)
    dsimp only
    generalize f a b' = result at hrest
    cases hrest with
    | ok hkeeps' => exact .ok (hkeeps.trans hkeeps')
    | returned hkeeps' => exact .returned (hkeeps.trans hkeeps')
    | exhausted => exact .exhausted
    | failed htraces => exact .failed htraces
  | returned hkeeps => exact .returned hkeeps
  | exhausted => exact .exhausted
  | failed htraces => exact .failed htraces

/-- A fault at an expression of the code has the active calls for its traceback. -/
theorem fail {fault : Fault} {p : Position} (hp : ∃ n, code.Direct n ∧ n.position = p)
    (hkind : fault.kind ≠ .recursionLimit) :
    Attends program limit code
      (Action.fail fault p : Action (Attended Machine FrameId) FrameId α) := by
  intro b hb
  obtain ⟨n, hn, hposition⟩ := hp
  exact .failed ⟨⟨code, n, hb.chain, hn, hposition⟩, hb.bound, fun h => absurd h hkind⟩

/-- What runs in a frame of its own attends to the calls. -/
theorem inFrame (hx : Attends program limit code x) :
    Attends program limit code (Action.inFrame x) := by
  intro b hb
  have hinside := hx (Runtime.enterFrame b) (hb.keeps (keeps_update rfl))
  unfold Action.inFrame
  generalize x (Runtime.enterFrame b) = result at hinside
  cases hinside with
  | ok hkeeps => exact .ok ⟨hkeeps.calls, hkeeps.active⟩
  | returned hkeeps => exact .returned ⟨hkeeps.calls, hkeeps.active⟩
  | exhausted => exact .exhausted
  | failed htraces => exact .failed htraces

/-- A call that the limit allows is the next one of the chain, and the code is now the body of its
function. -/
theorem enter {recur : Expr → Action (Attended Machine FrameId) FrameId Value} {callee : Expr}
    {arguments : List (Argument Expr)} {site : Position}
    (hsite : code.Direct (.call callee arguments site)) (f : Function) (names : Bindings)
    (hbody : Attends program limit f.body (recur f.body)) :
    Attends program limit code (Evaluation.enter recur limit f names site) := by
  intro b hb
  change Ends program limit b ((if limit ≤ b.state.calls.size then
    Action.fail (.recursionLimit limit) site else
      Action.inCall f names site (recur f.body) : Action _ FrameId Value) b)
  by_cases hlimit : limit ≤ b.state.calls.size
  · rw [if_pos hlimit]
    have hsize : b.state.calls.size = limit := Nat.le_antisymm hb.bound hlimit
    exact .failed ⟨⟨code, _, hb.chain, hsite, rfl⟩, hb.bound, fun _ => hsize⟩
  · rw [if_neg hlimit]
    have hinside := hbody _ (hb.enterCall (Nat.lt_of_not_le hlimit) hsite f names)
    unfold Action.inCall
    generalize recur f.body (Runtime.enterCall f names site b) = result at hinside
    cases hinside with
    | ok hkeeps => exact .ok (hkeeps.leaveCall hb.length_active)
    | returned hkeeps => exact .ok (hkeeps.leaveCall hb.length_active)
    | exhausted => exact .exhausted
    | failed htraces => exact .failed htraces

end Attends

end Attended

/-- That active calls lead to the code passes on from the parts of a run. -/
def Judgement.attendance (program : Expr) (limit : Nat) (code : Expr) :
    Judgement (Attended Machine FrameId) FrameId where
  holds x _ := Attended.Attends program limit code x
  faulty p := ∃ n, code.Direct n ∧ n.position = p
  bind hx hf := hx.bind hf
  inFrame hx := hx.inFrame
  look _ := .of_ok fun _ => ⟨_, _, rfl, rfl⟩
  fail hp hordinary := .fail hp (Fault.kind_ne_of_ordinary hordinary)
  returned _ := fun b _ => .returned (.refl b)
  exhausted := fun _ _ => .exhausted
  record _ := .of_ok fun _ => ⟨_, _, rfl, rfl⟩
  define _ _ := .of_ok fun _ => ⟨_, _, rfl, rfl⟩
  freshId := .of_ok fun _ => ⟨_, _, rfl, rfl⟩
  capture := .of_ok fun _ => ⟨_, _, rfl, rfl⟩
  object _ _ := .of_ok fun _ => ⟨_, _, rfl, rfl⟩
  readField _ _ := .of_ok fun _ => ⟨_, _, rfl, rfl⟩
  writeField _ _ _ := .of_ok fun _ => ⟨_, _, rfl, rfl⟩

/-- Expressions of the code end with the calls that were active before, or with a fault that has a
traceback. -/
theorem evaluate_attends (program : Expr) (limit steps : Nat) {code e : Expr}
    (he : code.Direct e) : Attended.Attends program limit code (evaluate limit steps e) := by
  induction steps generalizing code e with
  | zero => exact fun _ _ => .exhausted
  | succ steps ih =>
    change (Judgement.attendance program limit code).holds
      (Evaluation.node (evaluate limit steps) limit steps e)
      (Evaluation.node (evaluate limit steps) limit steps e)
    refine Judgement.node _ (.refl steps) (fun c hc => ih (he.part hc))
      (fun p => he.of_mem_faultPositions) ?_
    rintro callee arguments site rfl f names
    exact .enter he f names (ih .root)

namespace Interpreter

/-- The traceback of a program that fails leads through the bodies of the functions that have been
entered. -/
theorem run_traces (i : Interpreter) (hcalls : i.machine.calls = #[]) (program : Expr)
    {e : RuntimeError} (hfault : (i.run program).1 = .error (.runtime e)) :
    ∃ b : Attended Machine FrameId,
      evaluate i.depth i.steps program (Attended.start i.machine) = .error (.failed e) b ∧
      evaluate i.depth i.steps program i.machine = .error (.failed e) b.state ∧
      e.Traces program i.depth (b.entered.take e.trace.length) := by
  have hstart : Attended.Stands program i.depth program (.start i.machine) := by
    constructor
    · change CallChain program i.machine.calls.toList (List.take _ []) program
      rw [hcalls, List.take_nil]
      exact .here
    · change i.machine.calls.size ≤ i.depth
      rw [hcalls]
      exact Nat.zero_le _
  have hends := evaluate_attends program i.depth i.steps .root _ hstart
  have hstate : evaluate i.depth i.steps program i.machine = _ :=
    Attended.evaluate_state i.depth i.steps program (.start i.machine)
  unfold run at hfault
  rw [hstate] at hfault ⊢
  generalize evaluate i.depth i.steps program
    (.start i.machine : Attended Machine FrameId) = result at *
  cases hends with
  | ok _ => cases hfault
  | returned _ => cases hfault
  | exhausted => cases hfault
  | failed htraces =>
    cases hfault
    exact ⟨_, rfl, rfl, htraces⟩

/-- Tracebacks are chains of calls.  Whatever programs have been run before, if a program ends with
a fault, then the active calls of the fault lead from that program, through the bodies of the
functions that have been entered, to the code in which the fault stands.  There are no more of them
than the limit allows, and just as many if the limit is the reason for the fault. -/
theorem traceback_of_failing_program (i : Interpreter) (hcalls : i.machine.calls = #[])
    (programs : List Expr) (program : Expr) {e : RuntimeError}
    (hfault : ((i.runAll programs).run program).1 = .error (.runtime e)) :
    ∃ b : Attended Machine FrameId,
      evaluate i.depth i.steps program (Attended.start (i.runAll programs).machine) =
        .error (.failed e) b ∧
      evaluate i.depth i.steps program (i.runAll programs).machine =
        .error (.failed e) b.state ∧
      e.Traces program i.depth (b.entered.take e.trace.length) := by
  have htraces := run_traces (i.runAll programs) (i.runAll_calls programs hcalls) program hfault
  rwa [(i.runAll_limits programs).1, (i.runAll_limits programs).2] at htraces

/-- A function that only calls itself, with a limit of two: the first call of the traceback stands
in the program, and the other one in the body of the function. -/
theorem traceback_of_failing_program_recursive :
    let i : Interpreter := ⟨.initial, 2, 9⟩
    let definition : Expr :=
      .function (some "f") [] (.call (.identifier "f" ⟨1, 12⟩) [] ⟨1, 12⟩) ⟨1, 1⟩
    let program : Expr := .block [.call (.identifier "f" ⟨1, 1⟩) [] ⟨1, 1⟩] ⟨1, 1⟩
    let e : RuntimeError := ⟨.recursionLimit 2, ⟨1, 12⟩, [⟨"f", ⟨1, 1⟩⟩, ⟨"f", ⟨1, 12⟩⟩]⟩
    i.machine.calls = #[] ∧ ((i.runAll [definition]).run program).1 = .error (.runtime e) ∧
      ∃ b : Attended Machine FrameId,
        evaluate i.depth i.steps program (Attended.start (i.runAll [definition]).machine) =
          .error (.failed e) b ∧
        evaluate i.depth i.steps program (i.runAll [definition]).machine =
          .error (.failed e) b.state ∧
        e.Traces program i.depth (b.entered.take e.trace.length) := by
  intro i definition program e
  have hcalls : i.machine.calls = #[] := rfl
  have hfault : ((i.runAll [definition]).run program).1 = .error (.runtime e) :=
    eq_error_of_errorOf? (by decide +kernel)
  exact ⟨hcalls, hfault, traceback_of_failing_program i hcalls [definition] program hfault⟩

end Interpreter

end SnapshotScript
