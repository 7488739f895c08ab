import Mathlib.Order.Defs.Unbundled
import SnapshotScript.Interpreter
import SnapshotScript.Proofs.Frames

/-!
# What an evaluation leaves in place

However the evaluation of an expression ends, the active calls are those from before, and the
current frame is the one from before or a copy of it.  The body of a function and the rounds of a
loop run in frames of their own, so calls and loops leave even the bindings of the current frame as
they were.

Both are relations between the machine before and the machine after a run, `Machine.Follows` and
`Machine.Restores`.  They are reflexive and transitive.  So it is enough to know them for the single
operations of a run, and to give each form of expression once, with any evaluator for the
expressions inside of it.
-/

namespace SnapshotScript

/-! ### Two relations between machines -/

namespace Machine

variable {m m' m'' : Machine}

/-- The machine `m'` may be what the evaluation of an expression leaves of `m`. -/
structure Follows (m m' : Machine) : Prop where
  calls : m'.calls = m.calls
  /-- No frame but the current one is written to. -/
  scopes : m.scopes.Evolves (some m.current) m'.scopes
  /-- The current frame is the one from before or a new one. -/
  current : m'.current = m.current ∨ m.scopes.frames.size ≤ m'.current
  /-- It has the same parent and binds the same names, and maybe more. -/
  frame : ∀ frame, m.scopes.frames[m.current]? = some frame →
    ∃ frame', m'.scopes.frames[m'.current]? = some frame' ∧ frame'.parent = frame.parent ∧
      ∀ name, frame.bindings.find? name ≠ none → frame'.bindings.find? name ≠ none

/-- The machine `m'` may be what a call or a loop leaves of `m`. -/
structure Restores (m m' : Machine) : Prop where
  calls : m'.calls = m.calls
  /-- No frame that was there is written to. -/
  scopes : m.scopes.Evolves none m'.scopes
  current : m'.current = m.current

theorem Restores.refl (m : Machine) : m.Restores m :=
  ⟨rfl, .refl _ _, rfl⟩

/-- What leaves all bindings in place leaves the names in place. -/
theorem Restores.follows (h : m.Restores m') : m.Follows m' where
  calls := h.calls
  scopes := h.scopes.of_none _
  current := .inl h.current
  frame := by
    intro frame hframe
    obtain ⟨frame', hframe', hparent, -, hbindings⟩ := h.scopes _ _ hframe
    refine ⟨frame', by rw [h.current, hframe'], hparent, fun name hname => ?_⟩
    rwa [hbindings (.inl (by simp))]

instance : Std.Refl Restores := ⟨.refl⟩

instance : Std.Refl Follows := ⟨fun m => (Restores.refl m).follows⟩

instance : IsTrans Machine Restores where
  trans _ _ _ h h' :=
    ⟨h'.calls.trans h.calls, h.scopes.trans h'.scopes (.inl rfl), h'.current.trans h.current⟩

instance : IsTrans Machine Follows where
  trans m m' m'' h h' := by
    have hsize := h.scopes.size_le
    have hcurrent : m'.current = m.current ∨ m.scopes.frames.size ≤ m'.current := h.current
    refine ⟨h'.calls.trans h.calls, h.scopes.trans h'.scopes ?_, ?_, fun frame hframe => ?_⟩
    · rcases hcurrent with heq | hnew
      · exact .inl (by rw [heq])
      · exact .inr fun g hg => by cases hg; exact hnew
    · rcases h'.current with heq | hnew
      · rwa [heq]
      · exact .inr (Nat.le_trans hsize hnew)
    · obtain ⟨mid, hmid, hparent, hnames⟩ := h.frame frame hframe
      obtain ⟨new, hnew, hparent', hnames'⟩ := h'.frame mid hmid
      exact ⟨new, hnew, hparent'.trans hparent, fun name hname => hnames' name (hnames name hname)⟩

/-- After what has run in a frame of its own, the frame from before is current again and no frame
from before has changed. -/
theorem restores_of_enterFrame (h : m.enterFrame.Follows m') :
    m.Restores { m' with current := m.current } := by
  have hscopes : m.scopes.Evolves none m'.scopes :=
    (m.scopes.push_evolves _).trans h.scopes (.inr fun g hg => by cases hg; exact Nat.le_refl _)
  exact ⟨h.calls, hscopes, rfl⟩

/-- After the body of a function, the call has ended, the frame from before is current again and no
frame from before has changed. -/
theorem restores_of_enterCall {f : Function} {names : Bindings} {site : Position}
    (h : (m.enterCall f names site).Follows m') :
    m.Restores { m' with current := m.current, calls := m'.calls.pop } := by
  let child := m.scopes.addChild f.closure
  have hchild : m.scopes.Evolves none child.2 := m.scopes.push_evolves _
  obtain ⟨hdefine, hcurrent⟩ := Scopes.defineAll_evolves child.2 child.1 names
  have hentered : m.scopes.Evolves none (child.2.defineAll child.1 names).2 :=
    hchild.trans hdefine (.inr fun g hg => by cases hg; exact Nat.le_refl _)
  have hnew : m.scopes.frames.size ≤ (child.2.defineAll child.1 names).1 := by
    rcases hcurrent with heq | hlater
    · exact Nat.le_of_eq heq.symm
    · exact Nat.le_trans hchild.size_le hlater
  have hscopes : m.scopes.Evolves none m'.scopes :=
    hentered.trans h.scopes (.inr fun g hg => by cases hg; exact hnew)
  have hcalls : m'.calls.pop = m.calls := by
    rw [h.calls]
    exact Array.pop_push
  exact ⟨hcalls, hscopes, rfl⟩

end Machine

/-! ### Runs -/

namespace Action

variable {σ κ α β : Type}

/-- The state that an action leaves behind, however it ends. -/
def final (x : Action σ κ α) (s : σ) : σ :=
  match x s with
  | .ok _ s => s
  | .error _ s => s

/-- The second action starts with what the first one leaves, if it has a result. -/
theorem bind_final (x : Action σ κ α) (f : α → Action σ κ β) (s : σ) :
    (x >>= f).final s =
      match x s with
      | .ok a s => (f a).final s
      | .error _ s => s := by
  change final (EStateM.bind x f) s = _
  unfold final EStateM.bind
  cases x s <;> rfl

variable [Runtime σ κ]

/-- What runs in a frame of its own leaves the frame in any case. -/
theorem inFrame_final (x : Action σ κ α) (s : σ) :
    (inFrame x).final s =
      Runtime.leaveFrame (Runtime.place s) (x.final (Runtime.enterFrame s)) := by
  unfold final inFrame
  cases x (Runtime.enterFrame s) <;> rfl

/-- A call ends in any case. -/
theorem inCall_final (f : Function κ) (names : Bindings κ) (site : Position)
    (body : Action σ κ (Value κ)) (s : σ) :
    (inCall f names site body).final s =
      Runtime.leaveCall (Runtime.place s) (body.final (Runtime.enterCall f names site s)) := by
  unfold final inCall
  cases body (Runtime.enterCall f names site s) with
  | ok v s => rfl
  | error u s => cases u <;> rfl

end Action

namespace Run

open SnapshotScript.Action

variable {α β : Type}

/-- Whatever machine the run starts from, it stands in the relation `R` to the one left behind. -/
def Moves (R : Machine → Machine → Prop) (x : Run α) : Prop :=
  ∀ m, R m (x.final m)

variable {R : Machine → Machine → Prop} {x : Run α}

/-- A result changes nothing. -/
theorem moves_pure [Std.Refl R] (a : α) : Moves R (pure a : Run α) :=
  fun m => Std.Refl.refl m

/-- An early end changes nothing. -/
theorem moves_throw [Std.Refl R] (u : Unwind) : Moves R (throw u : Run α) :=
  fun m => Std.Refl.refl m

/-- A fault changes nothing. -/
theorem moves_fail [Std.Refl R] (fault : Fault) (position : Position) :
    Moves R (fail fault position : Run α) :=
  fun m => Std.Refl.refl m

/-- To look at the machine changes nothing. -/
theorem moves_of_final [Std.Refl R] (h : ∀ m, x.final m = m) : Moves R x := by
  intro m
  rw [h m]
  exact Std.Refl.refl m

/-- A result or a fault changes nothing. -/
theorem moves_ofExcept [Std.Refl R] (position : Position) (result : Except Fault α) :
    Moves R (ofExcept position result) := by
  cases result with
  | ok a => exact moves_pure a
  | error fault => exact moves_fail fault position

/-- One run after another moves as both of them do. -/
theorem Moves.bind [IsTrans Machine R] {f : α → Run β} (hx : Moves R x)
    (hf : ∀ a, Moves R (f a)) : Moves R (x >>= f) := by
  intro m
  have hfirst : R m (x.final m) := hx m
  rw [bind_final]
  unfold final at hfirst
  split
  · next a m' h =>
    rw [h] at hfirst
    exact IsTrans.trans _ _ _ hfirst (hf a m')
  · next u m' h => rwa [h] at hfirst

/-- Calls and loops may stand where any run may. -/
theorem Moves.follows (h : Moves Machine.Restores x) : Moves Machine.Follows x :=
  fun m => (h m).follows

/-! ### The operations of a run -/

/-- Binding a name keeps the current frame or puts a copy in its place. -/
theorem define_follows (name : String) (v : Value) : Moves Machine.Follows (define name v) := by
  intro m
  refine ⟨rfl, Scopes.define_evolves _ _ name v, ?_, fun frame hframe => ?_⟩
  · rcases Scopes.define_fst m.scopes m.current name v with h | h
    · exact .inl h
    · exact .inr (Nat.le_of_eq h.symm)
  · refine ⟨_, Scopes.define_frame hframe name v, rfl, fun other hother => ?_⟩
    rw [Bindings.find?_insert]
    split
    · simp
    · exact hother

/-- Binding a definition, if it has a name, keeps the current frame or puts a copy in its place. -/
theorem defineNamed_follows (name : Option String) (v : Value) :
    Moves Machine.Follows (defineNamed name v) := by
  cases name with
  | none => exact moves_pure ()
  | some name => exact define_follows name v

/-- An event of the journal concerns neither frames nor calls. -/
theorem record_restores (e : Event) : Moves Machine.Restores (record e) :=
  fun _ => ⟨rfl, .refl _ _, rfl⟩

/-- Printing concerns neither frames nor calls. -/
theorem print_restores (text : Option String) : Moves Machine.Restores (print text) := by
  cases text with
  | none => exact moves_pure ()
  | some text => exact record_restores _

/-- A new struct type concerns neither frames nor calls. -/
theorem makeStruct_restores (name : String) (fields : List Field) :
    Moves Machine.Restores (makeStruct name fields) :=
  fun _ => ⟨rfl, .refl _ _, rfl⟩

/-- A new function only marks frames. -/
theorem makeFunction_restores (name : Option String) (parameters : List String) (body : Expr) :
    Moves Machine.Restores (makeFunction name parameters body) :=
  fun m => ⟨rfl, Scopes.capture_evolves m.scopes m.current, rfl⟩

/-- A new instance concerns neither frames nor calls. -/
theorem makeObject_restores (type : StructType) (values : List Value) :
    Moves Machine.Restores (makeObject type values) :=
  fun _ => ⟨rfl, .refl _ _, rfl⟩

/-- A change of a field concerns neither frames nor calls. -/
theorem writeField_restores (cell : CellId) (i : Nat) (v : Value) :
    Moves Machine.Restores (writeField cell i v) :=
  fun _ => ⟨rfl, .refl _ _, rfl⟩

/-- What runs in a frame of its own leaves all others in place. -/
theorem inFrame_restores (hx : Moves Machine.Follows x) :
    Moves Machine.Restores (inFrame x) := by
  intro m
  rw [inFrame_final]
  exact Machine.restores_of_enterFrame (hx m.enterFrame)

/-- The body of a function leaves all frames from before in place. -/
theorem inCall_restores (f : Function) (names : Bindings) (site : Position) {body : Run Value}
    (hbody : Moves Machine.Follows body) : Moves Machine.Restores (inCall f names site body) := by
  intro m
  rw [inCall_final]
  exact Machine.restores_of_enterCall (hbody (m.enterCall f names site))

end Run

/-! ### Forms of expressions -/

namespace Evaluation

open Run
open Machine (Follows Restores)

variable {recur : Expr → Run Value} {limit steps : Nat}

theorem sequence_follows (h : ∀ e, Moves Follows (recur e)) (last : Value) (es : List Expr) :
    Moves Follows (sequence recur last es) := by
  induction es generalizing last with
  | nil => exact moves_pure last
  | cons e es ih => exact (h e).bind ih

theorem supply_follows (h : ∀ e, Moves Follows (recur e)) (arguments : List (Argument Expr)) :
    Moves Follows (supply recur arguments) := by
  induction arguments with
  | nil => exact moves_pure []
  | cons a arguments ih => exact (h a.value).bind fun v => ih.bind fun more => moves_pure _

theorem choose_follows (h : ∀ e, Moves Follows (recur e)) (otherwise : Option Expr)
    (branches : List (Branch Expr)) : Moves Follows (choose recur otherwise branches) := by
  induction branches with
  | nil =>
    cases otherwise with
    | none => exact moves_pure Value.null
    | some body => exact h body
  | cons b branches ih =>
    refine (h b.condition).bind fun v => ?_
    split
    · exact h b.body
    · exact ih

theorem whileRounds_follows (h : ∀ e, Moves Follows (recur e)) (condition body : Expr)
    (rounds : Nat) (last : Value) :
    Moves Follows (whileRounds recur condition body rounds last) := by
  induction rounds generalizing last with
  | zero => exact moves_throw _
  | succ rounds ih =>
    refine (h condition).bind fun v => ?_
    split
    · exact (h body).bind ih
    · exact moves_pure last

theorem loopStep_follows (h : ∀ e, Moves Follows (recur e)) (loop : Loop FrameId) :
    Moves Follows (loopStep recur loop) := by
  unfold loopStep
  split
  · exact h _
  · exact moves_pure _

theorem forRounds_follows (h : ∀ e, Moves Follows (recur e)) (loop : Loop FrameId) (rounds : Nat)
    (direction : Ordering) (counter last : Value) :
    Moves Follows (forRounds recur loop rounds direction counter last) := by
  induction rounds generalizing direction counter last with
  | zero => exact moves_throw _
  | succ rounds ih =>
    unfold forRounds
    split
    · refine (define_follows loop.name counter).bind fun _ => (h loop.body).bind fun last => ?_
      refine (loopStep_follows h loop).bind fun step =>
        (moves_ofExcept _ _).bind fun direction => ?_
      refine (moves_of_final fun _ => rfl).bind fun held =>
        (moves_ofExcept _ _).bind fun counter => ?_
      split
      · exact ih direction counter last
      · exact moves_fail _ _
    · exact moves_pure last

/-- A loop over numbers leaves all bindings in place, as its rounds are made in a frame of their
own. -/
theorem forLoop_restores (h : ∀ e, Moves Follows (recur e)) (name : String) (first bound : Value)
    (step : Option Expr) (body : Expr) (position : Position) :
    Moves Restores (forLoop recur steps name first bound step body position) := by
  unfold forLoop
  split
  · exact inFrame_restores (forRounds_follows h _ _ _ _ _)
  · exact moves_fail _ _

theorem refuseNames_restores (callee : String) (arguments : List Supplied) :
    Moves Restores (refuseNames callee arguments) := by
  unfold refuseNames
  split
  · exact moves_fail _ _
  · exact moves_pure ()

/-- A call of a function leaves all bindings in place, as its body runs in a frame of its own. -/
theorem callFunction_restores (h : ∀ e, Moves Follows (recur e)) (f : Function)
    (arguments : List Supplied) (position : Position) :
    Moves Restores (callFunction recur limit f arguments position) := by
  refine (refuseNames_restores _ _).bind fun _ => ?_
  split
  · exact moves_fail _ _
  · refine (moves_of_final fun _ => rfl).bind fun depth => ?_
    split
    · exact moves_fail _ _
    · exact inCall_restores _ _ _ (h f.body)

theorem callBuiltin_restores (b : Builtin) (arguments : List Supplied) (position : Position) :
    Moves Restores (callBuiltin b arguments position) := by
  refine (refuseNames_restores _ _).bind fun _ => (moves_of_final fun _ => rfl).bind fun cells => ?_
  refine (moves_ofExcept _ _).bind fun result => ?_
  exact (print_restores result.2).bind fun _ => moves_pure result.1

theorem construct_restores (type : StructType) (arguments : List Supplied) (position : Position) :
    Moves Restores (construct type arguments position) := by
  unfold construct
  split
  · exact makeObject_restores _ _
  · exact moves_fail _ _

theorem call_restores (h : ∀ e, Moves Follows (recur e)) (callee : Value)
    (arguments : List Supplied) (position : Position) :
    Moves Restores (call recur limit callee arguments position) := by
  unfold call
  split
  · exact callFunction_restores h _ _ _
  · exact callBuiltin_restores _ _ _
  · exact construct_restores _ _ _
  · exact moves_fail _ _

theorem expectObject_restores (v : Value) (field : String) (position : Position) :
    Moves Restores (expectObject v field position) := by
  unfold expectObject
  split
  · exact moves_pure _
  · exact moves_fail _ _

theorem member_restores (target : Value) (field : String) (position : Position) :
    Moves Restores (member target field position) := by
  refine (expectObject_restores _ _ _).bind fun ⟨type, cell⟩ => ?_
  dsimp only
  split
  · exact moves_fail _ _
  · refine (moves_of_final fun _ => rfl).bind fun held => ?_
    split
    · exact moves_pure _
    · exact moves_fail _ _

theorem setMember_restores (type : StructType) (cell : CellId) (field : String) (v : Value)
    (position : Position) : Moves Restores (setMember type cell field v position) := by
  unfold setMember
  split
  · exact moves_fail _ _
  · split
    · exact moves_fail _ _
    · refine (moves_ofExcept _ _).bind fun w => ?_
      exact (writeField_restores _ _ _).bind fun _ => moves_pure w

theorem assigned_follows (h : ∀ e, Moves Follows (recur e)) (name : String) (value : Expr) :
    Moves Follows (assigned recur name value) := by
  unfold assigned
  split
  · exact (makeFunction_restores _ _ _).follows
  · exact (makeStruct_restores _ _).follows
  · exact h _

/-- Every form of expression keeps the current frame or puts a copy in its place, if the expressions
inside of it do. -/
theorem node_follows (h : ∀ e, Moves Follows (recur e)) (e : Expr) :
    Moves Follows (node recur limit steps e) := by
  cases e with
  | literal value _ => exact moves_pure _
  | identifier name position =>
    refine (moves_of_final fun _ => rfl).bind fun held => ?_
    split
    · exact moves_pure _
    · exact moves_fail _ _
  | assign name value _ =>
    exact (assigned_follows h name value).bind fun v => (define_follows name v).bind fun _ =>
      moves_pure v
  | binary operator left right position =>
    cases operator with
    | and =>
      refine (h left).bind fun v => ?_
      split
      · exact (h right).bind fun w => moves_pure _
      · exact moves_pure _
    | or =>
      refine (h left).bind fun v => ?_
      split
      · exact moves_pure _
      · exact (h right).bind fun w => moves_pure _
    | _ => exact (h left).bind fun v => (h right).bind fun w => moves_ofExcept _ _
  | unary operator operand position => exact (h operand).bind fun v => moves_ofExcept _ _
  | not operand _ => exact (h operand).bind fun v => moves_pure _
  | call callee arguments position =>
    exact (h callee).bind fun f => (supply_follows h arguments).bind fun supplied =>
      (call_restores h f supplied position).follows
  | member target field position =>
    exact (h target).bind fun v => (member_restores v field position).follows
  | memberSet target field value position =>
    refine (h target).bind fun v => (expectObject_restores v field position).follows.bind ?_
    exact fun ⟨type, cell⟩ => (h value).bind fun w =>
      (setMember_restores type cell field w position).follows
  | choice branches otherwise _ => exact choose_follows h otherwise branches
  | forLoop name first bound step body position =>
    exact (h first).bind fun v => (h bound).bind fun w =>
      (forLoop_restores h name v w step body position).follows
  | whileLoop condition body _ => exact whileRounds_follows h condition body steps _
  | function name parameters body _ =>
    exact (makeFunction_restores _ _ _).follows.bind fun f =>
      (defineNamed_follows name f).bind fun _ => moves_pure f
  | struct name fields _ =>
    exact (makeStruct_restores _ _).follows.bind fun t =>
      (defineNamed_follows name t).bind fun _ => moves_pure t
  | returning value _ =>
    cases value with
    | none => exact moves_throw _
    | some value => exact (h value).bind fun v => moves_throw _
  | block items _ => exact sequence_follows h _ items

end Evaluation

/-- However the evaluation of an expression ends, the calls are those from before, and the current
frame is the one from before or takes its place. -/
theorem evaluate_follows (limit steps : Nat) (e : Expr) :
    Run.Moves Machine.Follows (evaluate limit steps e) := by
  induction steps generalizing e with
  | zero => exact Run.moves_throw _
  | succ steps ih => exact Evaluation.node_follows ih e

/-! ### Programs one after another -/

namespace Interpreter

/-- The interpreter after programs that are run one after another, whether they fail or not. -/
def runAll (i : Interpreter) (programs : List Expr) : Interpreter :=
  programs.foldl (fun i program => (i.run program).2) i

/-- A program ends without active calls.  Else it leaves what the evaluation of its tree leaves. -/
theorem run_machine (i : Interpreter) (program : Expr) :
    (i.run program).2.machine.calls = #[] ∧
      (i.run program).2.machine.scopes =
        (Action.final (evaluate i.depth i.steps program) i.machine).scopes ∧
      (i.run program).2.machine.current =
        (Action.final (evaluate i.depth i.steps program) i.machine).current := by
  unfold run Action.final
  cases evaluate i.depth i.steps program i.machine with
  | ok v m => exact ⟨rfl, rfl, rfl⟩
  | error u m => cases u <;> exact ⟨rfl, rfl, rfl⟩

/-- Programs do not change the limits. -/
theorem runAll_limits (i : Interpreter) (programs : List Expr) :
    (i.runAll programs).depth = i.depth ∧ (i.runAll programs).steps = i.steps := by
  induction programs generalizing i with
  | nil => exact ⟨rfl, rfl⟩
  | cons program programs ih =>
    obtain ⟨hdepth, hsteps⟩ := run_limits i program
    exact ⟨(ih _).1.trans hdepth, (ih _).2.trans hsteps⟩

/-- Between programs no call is active. -/
theorem runAll_calls (i : Interpreter) (programs : List Expr) (hcalls : i.machine.calls = #[]) :
    (i.runAll programs).machine.calls = #[] := by
  induction programs generalizing i with
  | nil => exact hcalls
  | cons program programs ih => exact ih (i.run program).2 (run_machine i program).1

/-- From a root frame on, programs run in root frames, without active calls in between, and what has
been bound stays bound. -/
theorem runAll_root (i : Interpreter) (programs : List Expr) {frame : Frame}
    (hframe : i.machine.scopes.frames[i.machine.current]? = some frame)
    (hroot : frame.parent = none) (hcalls : i.machine.calls = #[]) :
    (i.runAll programs).machine.calls = #[] ∧
      ∃ frame', (i.runAll programs).machine.scopes.frames[(i.runAll programs).machine.current]? =
        some frame' ∧ frame'.parent = none ∧
        ∀ name, frame.bindings.find? name ≠ none → frame'.bindings.find? name ≠ none := by
  induction programs generalizing i frame with
  | nil => exact ⟨hcalls, frame, hframe, hroot, fun _ => id⟩
  | cons program programs ih =>
    obtain ⟨hcalls', hscopes, hcurrent⟩ := run_machine i program
    have hfollows := evaluate_follows i.depth i.steps program i.machine
    obtain ⟨mid, hmid, hparent, hnames⟩ := hfollows.frame frame hframe
    rw [← hscopes, ← hcurrent] at hmid
    obtain ⟨hend, frame', hframe', hroot', hnames'⟩ :=
      ih (i.run program).2 hmid (hparent.trans hroot) hcalls'
    exact ⟨hend, frame', hframe', hroot', fun name hname => hnames' name (hnames name hname)⟩

end Interpreter

/-- The discipline of scopes and calls.  Whatever the outcome, an expression leaves the active calls
as they were and a current frame that is the one from before or a new one with the same parent and
at least the same names; a call whose callee and arguments have been evaluated, and a loop whose
bounds have been, leave the very same current frame with the very same bindings.  Hence programs
that start in a root frame always end in one, without active calls, and no name of theirs gets
lost. -/
theorem scope_discipline (limit steps : Nat) :
    (∀ (m : Machine) (e : Expr), m.Follows (Action.final (evaluate limit steps e) m)) ∧
    (∀ (m : Machine) (callee : Value) (arguments : List Supplied) (position : Position),
      m.Restores
        (Action.final (Evaluation.call (evaluate limit steps) limit callee arguments position) m)) ∧
    (∀ (m : Machine) (name : String) (first bound : Value) (step : Option Expr) (body : Expr)
        (position : Position),
      m.Restores
        (Action.final
          (Evaluation.forLoop (evaluate limit steps) steps name first bound step body position)
          m)) ∧
    ∀ (i : Interpreter) (programs : List Expr) (frame : Frame),
      i.machine.scopes.frames[i.machine.current]? = some frame → frame.parent = none →
      i.machine.calls = #[] →
      (i.runAll programs).machine.calls = #[] ∧
        ∃ frame', (i.runAll programs).machine.scopes.frames[(i.runAll programs).machine.current]? =
          some frame' ∧ frame'.parent = none ∧
          ∀ name, frame.bindings.find? name ≠ none → frame'.bindings.find? name ≠ none := by
  refine ⟨?_, ?_, ?_, ?_⟩
  · exact fun m e => evaluate_follows limit steps e m
  · exact fun m callee arguments position =>
      Evaluation.call_restores (evaluate_follows limit steps) callee arguments position m
  · exact fun m name first bound step body position =>
      Evaluation.forLoop_restores (evaluate_follows limit steps) name first bound step body position
        m
  · exact fun i programs frame hframe hroot hcalls => i.runAll_root programs hframe hroot hcalls

/-- Builtin functions stay bound through a program that fails in the middle of a loop. -/
theorem scope_discipline_initial :
    let i := Interpreter.new 1000
    let programs : List Expr :=
      [.forLoop "i" (.literal (.int 0) .start) (.literal (.int 2) .start) none
        (.block [.function (some "print") [] (.identifier "i" .start) .start,
          .identifier "j" .start] .start) .start]
    let globals : Frame := ⟨Builtin.all.map fun b => (b.name, .builtin b), none, false⟩
    i.machine.scopes.frames[i.machine.current]? = some globals ∧ globals.parent = none ∧
      i.machine.calls = #[] ∧ (i.runAll programs).machine.calls = #[] ∧
      ∃ frame', (i.runAll programs).machine.scopes.frames[(i.runAll programs).machine.current]? =
        some frame' ∧ frame'.parent = none ∧
        ∀ name, globals.bindings.find? name ≠ none → frame'.bindings.find? name ≠ none :=
  ⟨rfl, rfl, rfl, (scope_discipline 1000 4).2.2.2 _ _ _ rfl rfl rfl⟩

/-- The frame that takes the place of the current one need not be free for writing.  After
`set f = fun() -> null  fun() -> null` it is a copy that the second function has captured. -/
theorem current_frame_captured :
    let unit := Expr.function none [] (.literal .null .start) .start
    let program := Expr.block [.assign "f" unit .start, unit] .start
    let m := Action.final (evaluate 1000 4 program) Machine.initial
    ¬ (m.current = Machine.initial.current ∨
      (m.scopes.frames[m.current]?.map Frame.captured) = some false) := by
  decide

end SnapshotScript
