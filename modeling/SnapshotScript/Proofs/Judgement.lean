import SnapshotScript.Interpreter
import SnapshotScript.Proofs.Loops.Variable
import SnapshotScript.Proofs.Results
import SnapshotScript.Tree.Children

/-!
# Judgements on runs

Many properties of runs, and of pairs of runs, pass on from the parts of a run to the whole.  Such a
property is a `Judgement`: it holds of each single operation, of faults at certain positions, and of
one action after another if it holds of both.  Then it holds of every expression of which it holds
inside (`Judgement.node`), provided that it holds of the calls that the expression makes.  For there
a run leaves the expression: it looks at the limit, and goes on with the body of a function.
-/

namespace SnapshotScript

/-! ### Expressions -/

/-- The expressions directly inside of an expression that are evaluated as a part of it.  The body
of a function is not. -/
def Expr.parts : Expr → List Expr
  | .function .. => []
  | e => e.children

/-- The positions to which faults of an expression itself are attributed.  These are its own
position and, if it is a call, those of the arguments; many expressions have no faults of their
own. -/
def Expr.faultPositions : Expr → List Position
  | .identifier _ p | .binary _ _ _ p | .unary _ _ p | .member _ _ p | .memberSet _ _ _ p
  | .forLoop _ _ _ _ _ p => [p]
  | .call _ arguments p => p :: arguments.map fun a => a.value.position
  | .literal .. | .assign .. | .not .. | .choice .. | .whileLoop .. | .function .. | .struct ..
  | .returning .. | .block .. => []

/-! ### Faults of operations -/

/-- Whether operations and forms of expressions find this fault.  The limit on active calls is
looked at by calls only, and the variable of a loop over numbers always stays a number. -/
def Fault.ordinary : Fault → Bool
  | .recursionLimit .. | .loopVariable .. => false
  | _ => true

/-- An ordinary fault is not that of the limit on active calls. -/
theorem Fault.kind_ne_of_ordinary {fault : Fault} (h : fault.ordinary) :
    fault.kind ≠ .recursionLimit := by
  intro hkind
  cases fault with
  | recursionLimit => cases h
  | _ => cases hkind

/-- The operation may fail, but only with ordinary faults. -/
def FailsOrdinarily {α : Type} (x : Except Fault α) : Prop :=
  ∀ fault, x = .error fault → fault.ordinary

section

variable {κ α β : Type}

theorem FailsOrdinarily.ok (a : α) : FailsOrdinarily (.ok a) := nofun

theorem FailsOrdinarily.error {fault : Fault} (h : fault.ordinary) :
    FailsOrdinarily (.error fault : Except Fault α) := by
  rintro _ ⟨⟩
  exact h

/-- One operation after another fails ordinarily if both do. -/
theorem FailsOrdinarily.bind {x : Except Fault α} {f : α → Except Fault β} (hx : FailsOrdinarily x)
    (hf : ∀ a, FailsOrdinarily (f a)) : FailsOrdinarily (x >>= f) := by
  cases x with
  | ok a => exact hf a
  | error fault => exact .error (hx fault rfl)

namespace Operator

theorem onNumbers_failsOrdinarily (operator : BinaryOperator) (v w : Value κ)
    {combine : NumericPair → Except Fault (Value κ)} (h : ∀ pair, FailsOrdinarily (combine pair)) :
    FailsOrdinarily (onNumbers operator v w combine) := by
  unfold onNumbers
  split
  · exact h _
  · exact .error rfl

theorem quotient_failsOrdinarily (pair : NumericPair) :
    FailsOrdinarily (quotient pair : Except Fault (Value κ)) := by
  unfold quotient
  split
  · split
    · exact .error rfl
    · split <;> exact .ok _
  · split
    · exact .error rfl
    · exact .ok _

theorem repetition_failsOrdinarily (text : String) (count : Int64) :
    FailsOrdinarily (repetition text count : Except Fault (Value κ)) := by
  unfold repetition
  split
  · exact .error rfl
  · split
    · exact .ok _
    · exact .error rfl

theorem areEqual_failsOrdinarily (v w : Value κ) : FailsOrdinarily (areEqual v w) := by
  unfold areEqual
  split
  · exact .ok _
  · exact .ok _
  · split
    · exact .ok _
    · split
      · exact .ok _
      · exact .error rfl

theorem order_failsOrdinarily (v w : Value κ) : FailsOrdinarily (order v w) := by
  unfold order
  dsimp only
  split
  · exact .ok _
  · exact .error rfl

theorem binary_failsOrdinarily (operator : BinaryOperator) (v w : Value κ) :
    FailsOrdinarily (binary operator v w) := by
  cases operator with
  | add =>
    simp only [binary]
    split
    · exact .ok _
    · exact onNumbers_failsOrdinarily _ _ _ fun _ => .ok _
  | multiply =>
    simp only [binary]
    split
    · exact repetition_failsOrdinarily _ _
    · exact repetition_failsOrdinarily _ _
    · exact onNumbers_failsOrdinarily _ _ _ fun _ => .ok _
  | divide => exact onNumbers_failsOrdinarily _ _ _ quotient_failsOrdinarily
  | subtract | power => exact onNumbers_failsOrdinarily _ _ _ fun _ => .ok _
  | and | or => exact .ok _
  | equal | notEqual => exact (areEqual_failsOrdinarily v w).bind fun _ => .ok _
  | less | greater | lessEqual | greaterEqual =>
    exact (order_failsOrdinarily v w).bind fun _ => .ok _

theorem unary_failsOrdinarily (operator : UnaryOperator) (v : Value κ) :
    FailsOrdinarily (unary operator v) := by
  unfold unary
  split <;> first | exact .ok _ | exact .error rfl

theorem stepDirection_failsOrdinarily (step : Value κ) : FailsOrdinarily (stepDirection step) := by
  unfold stepDirection
  split
  · split <;> first | exact .ok _ | exact .error rfl
  · exact .error rfl

end Operator

namespace Builtin

theorem truncate_failsOrdinarily (x : Float) :
    FailsOrdinarily (truncate x : Except Fault (Value κ)) := by
  unfold truncate
  split
  · exact .ok _
  · exact .error rfl

/-- A function that is there from the beginning fails ordinarily. -/
theorem apply_failsOrdinarily (cells : Cells κ) (b : Builtin) (vs : List (Value κ)) :
    FailsOrdinarily (b.apply cells vs) := by
  unfold apply
  split
  · exact .ok _
  · refine FailsOrdinarily.bind ?_ fun _ => .ok _
    unfold toFloat
    split
    · exact .ok _
    · exact .ok _
    · exact .ok _
    · split
      · exact .ok _
      · exact .error rfl
    · exact .error rfl
  · refine FailsOrdinarily.bind ?_ fun _ => .ok _
    unfold toInt
    split
    · exact .ok _
    · exact truncate_failsOrdinarily _
    · exact .ok _
    · dsimp only
      split
      · exact .ok _
      · split
        · exact truncate_failsOrdinarily _
        · exact .error rfl
    · exact .error rfl
  · exact .ok _
  · exact .ok _
  · exact .ok _

/-- A call of a function that is there from the beginning fails ordinarily. -/
theorem run_failsOrdinarily (cells : Cells κ) (b : Builtin) (vs : List (Value κ)) :
    FailsOrdinarily (b.run cells vs) := by
  unfold run
  split
  · split
    · exact apply_failsOrdinarily cells b vs
    · exact .error rfl
  · exact apply_failsOrdinarily cells b vs

end Builtin

namespace StructType

variable {t : StructType} {arguments : List (Supplied κ)} {position p : Position} {fault : Fault}

/-- Arguments that do not fit are named. -/
theorem misfit_of_fillSlots {slots : Slots κ}
    (h : t.fillSlots arguments slots = .error (fault, p)) :
    p ∈ arguments.map Supplied.position ∧ fault.ordinary := by
  induction arguments generalizing slots with
  | nil => cases h
  | cons a arguments ih =>
    simp only [fillSlots] at h
    split at h
    · cases h
      exact ⟨List.mem_cons_self, rfl⟩
    · split at h
      · cases h
        exact ⟨List.mem_cons_self, rfl⟩
      · exact ⟨List.mem_cons_of_mem _ (ih h).1, (ih h).2⟩

/-- What is missing is missing from the call. -/
theorem misfit_of_emptySlots {fields : List Field} {slots : Slots κ}
    (h : t.emptySlots position fields slots = .error (fault, p)) :
    p = position ∧ fault.ordinary := by
  induction fields generalizing slots with
  | nil => cases slots <;> cases h
  | cons f fields ih =>
    rcases slots with _ | ⟨_ | a, slots⟩
    · cases h
    · cases h
      exact ⟨rfl, rfl⟩
    · cases hrest : t.emptySlots position fields slots with
      | error e =>
        simp only [emptySlots, hrest] at h
        cases h
        exact ih hrest
      | ok rest =>
        simp only [emptySlots, hrest] at h
        cases h

/-- Arguments that cannot be arranged are a fault of the call or of one of them. -/
theorem misfit_of_arrange (h : t.arrange arguments position = .error (fault, p)) :
    p ∈ position :: arguments.map Supplied.position ∧ fault.ordinary := by
  simp only [arrange] at h
  split at h
  · split at h
    · cases h
    · cases h
      exact ⟨List.mem_cons_self, rfl⟩
  · split at h
    · cases hfill : t.fillSlots arguments (t.fields.map fun _ => none) with
      | error e =>
        rw [hfill] at h
        cases h
        obtain ⟨hp, hkind⟩ := misfit_of_fillSlots hfill
        exact ⟨List.mem_cons_of_mem _ hp, hkind⟩
      | ok slots =>
        rw [hfill] at h
        obtain ⟨rfl, hkind⟩ := misfit_of_emptySlots h
        exact ⟨List.mem_cons_self, hkind⟩
    · cases h
      exact ⟨List.mem_cons_self, rfl⟩

/-- A field takes a value or finds fault with its type. -/
theorem conformField_failsOrdinarily (t : StructType) (f : Field) (v : Value κ) :
    FailsOrdinarily (t.conformField f v) := by
  unfold conformField
  split
  · exact .ok _
  · exact .error rfl

/-- A value that does not conform to its field is a fault of the argument. -/
theorem misfit_of_conformAll {fields : List Field}
    (h : t.conformAll fields arguments = .error (fault, p)) :
    p ∈ arguments.map Supplied.position ∧ fault.ordinary := by
  induction fields generalizing arguments with
  | nil => cases arguments <;> cases h
  | cons f fields ih =>
    rcases arguments with _ | ⟨a, arguments⟩
    · cases h
    · simp only [conformAll] at h
      split at h
      · cases hrest : t.conformAll fields arguments with
        | error e =>
          rw [hrest] at h
          cases h
          obtain ⟨hp, hkind⟩ := ih hrest
          exact ⟨List.mem_cons_of_mem _ hp, hkind⟩
        | ok rest =>
          rw [hrest] at h
          cases h
      · next hfield =>
        cases h
        exact ⟨List.mem_cons_self, conformField_failsOrdinarily t f a.value _ hfield⟩

/-- An instance that cannot be made is a fault of the call or of an argument. -/
theorem misfit_of_construct (h : t.construct arguments position = .error (fault, p)) :
    p ∈ position :: arguments.map Supplied.position ∧ fault.ordinary := by
  unfold construct at h
  cases harrange : t.arrange arguments position with
  | error e =>
    rw [harrange] at h
    cases h
    exact misfit_of_arrange harrange
  | ok arranged =>
    rw [harrange] at h
    obtain ⟨hp, hkind⟩ := misfit_of_conformAll h
    obtain ⟨a, ha, rfl⟩ := List.mem_map.1 hp
    exact ⟨List.mem_cons_of_mem _ (List.mem_map_of_mem ((arrange_spec harrange).2 a ha)), hkind⟩

end StructType

end

/-! ### Judgements -/

/-- Runs the body of a function, if the limit allows one more call.  This is the last step of the
call of a function. -/
def Evaluation.enter {σ κ : Type} [Runtime σ κ] (recur : Expr → Action σ κ (Value κ)) (limit : Nat)
    (f : Function κ) (names : Bindings κ) (site : Position) : Action σ κ (Value κ) := do
  if limit ≤ (← Action.depth) then
    Action.fail (.recursionLimit limit) site
  else
    Action.inCall f names site (recur f.body)

/-- A property of pairs of runs that passes on from their parts to the whole. -/
structure Judgement (σ κ : Type) [Runtime σ κ] where
  holds : {α : Type} → Action σ κ α → Action σ κ α → Prop
  /-- The positions at which there may be faults. -/
  faulty : Position → Prop
  bind {α β : Type} {x y : Action σ κ α} {f g : α → Action σ κ β} : holds x y →
    (∀ a, holds (f a) (g a)) → holds (x >>= f) (y >>= g)
  inFrame {α : Type} {x y : Action σ κ α} : holds x y →
    holds (Action.inFrame x) (Action.inFrame y)
  look {α : Type} (f : σ → α) :
    holds (fun s => .ok (f s) s : Action σ κ α) (fun s => .ok (f s) s)
  fail {α : Type} {fault : Fault} {p : Position} : faulty p → fault.ordinary →
    holds (Action.fail fault p : Action σ κ α) (Action.fail fault p)
  returned {α : Type} (v : Value κ) :
    holds (throw (.returned v) : Action σ κ α) (throw (.returned v))
  exhausted {α : Type} : holds (throw .exhausted : Action σ κ α) (throw .exhausted)
  record (e : Event) : holds (Action.record e) (Action.record e)
  define (name : String) (v : Value κ) : holds (Action.define name v) (Action.define name v)
  freshId : holds (modifyGet Runtime.freshId : Action σ κ Nat) (modifyGet Runtime.freshId)
  capture : holds (modifyGet Runtime.capture : Action σ κ κ) (modifyGet Runtime.capture)
  object (type : StructType) (values : List (Value κ)) :
    holds (modifyGet (Runtime.makeObject type values) : Action σ κ (Value κ))
      (modifyGet (Runtime.makeObject type values))
  readField (cell : CellId) (i : Nat) :
    holds (Action.readField cell i : Action σ κ (Option (Value κ))) (Action.readField cell i)
  writeField (cell : CellId) (i : Nat) (v : Value κ) :
    holds (Action.writeField cell i v) (Action.writeField cell i v)

namespace Judgement

open Evaluation

variable {σ κ α : Type} [Runtime σ κ] (J : Judgement σ κ)

/-! ### Operations -/

theorem pure (a : α) : J.holds (Pure.pure a) (Pure.pure a) :=
  J.look fun _ => a

/-- A result or an ordinary fault is judged well at a position where faults are. -/
theorem ofExcept {p : Position} (hp : J.faulty p) {result : Except Fault α}
    (h : FailsOrdinarily result) :
    J.holds (Action.ofExcept p result) (Action.ofExcept p result) := by
  cases result with
  | ok a => exact J.pure a
  | error fault => exact J.fail hp (h fault rfl)

theorem defineNamed (name : Option String) (v : Value κ) :
    J.holds (Action.defineNamed name v) (Action.defineNamed name v) := by
  cases name with
  | none => exact J.pure ()
  | some name => exact J.define name v

theorem print (text : Option String) : J.holds (Action.print text) (Action.print text) := by
  cases text with
  | none => exact J.pure ()
  | some text => exact J.record _

theorem makeStruct (name : String) (fields : List Field) :
    J.holds (Action.makeStruct name fields) (Action.makeStruct name fields) :=
  J.bind J.freshId fun _ => J.pure _

theorem makeFunction (name : Option String) (parameters : List String) (body : Expr) :
    J.holds (Action.makeFunction name parameters body)
      (Action.makeFunction name parameters body) :=
  J.bind J.freshId fun _ => J.bind J.capture fun _ => J.pure _

theorem makeObject (type : StructType) (values : List (Value κ)) :
    J.holds (Action.makeObject type values) (Action.makeObject type values) :=
  J.bind (J.record _) fun _ => J.object type values

/-! ### Numbers of rounds -/

/-- The second run may make more rounds than the first one, if a run whose rounds are used up goes
together with every other one. -/
structure Outlasts (rounds rounds' : Nat) : Prop where
  le : rounds ≤ rounds'
  exhausted {α : Type} (y : Action σ κ α) : rounds < rounds' → J.holds (throw .exhausted) y

namespace Outlasts

variable {J} {rounds rounds' : Nat}

/-- Both runs may make equally many rounds. -/
theorem refl (rounds : Nat) : J.Outlasts rounds rounds where
  le := Nat.le_refl rounds
  exhausted _ hlt := absurd hlt (Nat.lt_irrefl rounds)

/-- Behind the first round the rounds that are left outlast each other as well. -/
theorem pred (h : J.Outlasts (rounds + 1) (rounds' + 1)) : J.Outlasts rounds rounds' where
  le := Nat.le_of_succ_le_succ h.le
  exhausted y hlt := h.exhausted y (Nat.succ_lt_succ hlt)

end Outlasts

/-! ### Forms of expressions -/

variable {recur recur' : Expr → Action σ κ (Value κ)} {limit limit' steps steps' : Nat}

theorem sequence {es : List Expr} (h : ∀ e ∈ es, J.holds (recur e) (recur' e))
    (last : Value κ) : J.holds (sequence recur last es) (sequence recur' last es) := by
  induction es generalizing last with
  | nil => exact J.pure last
  | cons e es ih =>
    exact J.bind (h e List.mem_cons_self) fun v =>
      ih (fun e he => h e (List.mem_cons_of_mem _ he)) v

/-- Arguments are judged well together with what is done with them.  They stand where their
expressions stand. -/
theorem supply_bind {β : Type} {arguments : List (Argument Expr)}
    (h : ∀ a ∈ arguments, J.holds (recur a.value) (recur' a.value))
    {f g : List (Supplied κ) → Action σ κ β}
    (hf : ∀ supplied : List (Supplied κ),
      supplied.map Supplied.position = arguments.map (fun a => a.value.position) →
        J.holds (f supplied) (g supplied)) :
    J.holds (supply recur arguments >>= f) (supply recur' arguments >>= g) := by
  induction arguments generalizing f g with
  | nil => exact hf [] rfl
  | cons a arguments ih =>
    rw [supply, supply]
    simp only [bind_assoc, pure_bind]
    refine J.bind (h a List.mem_cons_self) fun v => ?_
    refine ih (fun a ha => h a (List.mem_cons_of_mem _ ha)) fun more hmore => hf _ ?_
    rw [List.map_cons, List.map_cons, hmore]

theorem choose {otherwise : Option Expr} {branches : List (Branch Expr)}
    (hbranches : ∀ b ∈ branches, J.holds (recur b.condition) (recur' b.condition) ∧
      J.holds (recur b.body) (recur' b.body))
    (hotherwise : ∀ e ∈ otherwise, J.holds (recur e) (recur' e)) :
    J.holds (choose recur otherwise branches) (choose recur' otherwise branches) := by
  induction branches with
  | nil =>
    cases otherwise with
    | none => exact J.pure Value.null
    | some body => exact hotherwise body rfl
  | cons b branches ih =>
    obtain ⟨hcondition, hbody⟩ := hbranches b List.mem_cons_self
    refine J.bind hcondition fun v => ?_
    split
    · exact hbody
    · exact ih fun b hb => hbranches b (List.mem_cons_of_mem _ hb)

theorem whileRounds {condition body : Expr}
    (hcondition : J.holds (recur condition) (recur' condition))
    (hbody : J.holds (recur body) (recur' body)) {rounds rounds' : Nat}
    (hrounds : J.Outlasts rounds rounds') (last : Value κ) :
    J.holds (whileRounds recur condition body rounds last)
      (whileRounds recur' condition body rounds' last) := by
  induction rounds generalizing rounds' last with
  | zero =>
    cases rounds' with
    | zero => exact J.exhausted
    | succ rounds' => exact hrounds.exhausted _ (Nat.succ_pos rounds')
  | succ rounds ih =>
    cases rounds' with
    | zero => exact absurd hrounds.le (Nat.not_succ_le_zero rounds)
    | succ rounds' =>
      refine J.bind hcondition fun v => ?_
      split
      · exact J.bind hbody fun last => ih hrounds.pred last
      · exact J.pure last

theorem forRounds (loop : Loop κ) (hp : J.faulty loop.position)
    (hbody : J.holds (recur loop.body) (recur' loop.body))
    (hstep : ∀ e ∈ loop.step, J.holds (recur e) (recur' e)) {rounds rounds' : Nat}
    (hrounds : J.Outlasts rounds rounds') (direction : Ordering) (counter last : Value κ) :
    J.holds (forRounds recur loop rounds direction counter last)
      (forRounds recur' loop rounds' direction counter last) := by
  have hloopStep : J.holds (loopStep recur loop) (loopStep recur' loop) := by
    unfold loopStep
    split
    · next e he => exact hstep e he
    · exact J.pure _
  induction rounds generalizing rounds' direction counter last with
  | zero =>
    cases rounds' with
    | zero => exact J.exhausted
    | succ rounds' => exact hrounds.exhausted _ (Nat.succ_pos rounds')
  | succ rounds ih =>
    cases rounds' with
    | zero => exact absurd hrounds.le (Nat.not_succ_le_zero rounds)
    | succ rounds' =>
      rw [forRounds_succ, forRounds_succ]
      split
      · refine J.bind (J.define loop.name counter) fun _ => J.bind hbody fun last => ?_
        refine J.bind hloopStep fun step => ?_
        refine J.bind (J.ofExcept hp (Operator.stepDirection_failsOrdinarily step))
          fun direction => ?_
        refine J.bind (J.look _) fun held => ?_
        refine J.bind (J.ofExcept hp (Operator.binary_failsOrdinarily _ _ _)) fun counter => ?_
        exact ih hrounds.pred direction counter last
      · exact J.pure last

theorem forLoop {name : String} {first bound : Value κ} {step : Option Expr} {body : Expr}
    {p : Position} (hp : J.faulty p) (hsteps : J.Outlasts steps steps')
    (hbody : J.holds (recur body) (recur' body))
    (hstep : ∀ e ∈ step, J.holds (recur e) (recur' e)) :
    J.holds (forLoop recur steps name first bound step body p)
      (forLoop recur' steps' name first bound step body p) := by
  unfold Evaluation.forLoop
  split
  · exact J.inFrame (J.forRounds _ hp hbody hstep hsteps _ _ _)
  · exact J.fail hp rfl

theorem refuseNames (callee : String) {arguments : List (Supplied κ)}
    (harguments : ∀ a ∈ arguments, J.faulty a.position) :
    J.holds (refuseNames callee arguments) (refuseNames callee arguments) := by
  unfold Evaluation.refuseNames
  split
  · next a ha => exact J.fail (harguments a (List.mem_of_find?_eq_some ha)) rfl
  · exact J.pure ()

/-- A call of any value, once it and its arguments have been evaluated, is judged well.  If it is a
function, its body is run if the limit allows it. -/
theorem call {arguments : List (Supplied κ)} {p : Position} (hp : J.faulty p)
    (harguments : ∀ a ∈ arguments, J.faulty a.position)
    (henter : ∀ (f : Function κ) (names : Bindings κ),
      J.holds (enter recur limit f names p) (enter recur' limit' f names p)) (callee : Value κ) :
    J.holds (call recur limit callee arguments p) (call recur' limit' callee arguments p) := by
  cases callee with
  | function f =>
    refine J.bind (J.refuseNames _ harguments) fun _ => ?_
    split
    · exact J.fail hp rfl
    · exact henter f (parameterBindings f arguments)
  | builtin b =>
    refine J.bind (J.refuseNames _ harguments) fun _ => J.bind (J.look _) fun cells => ?_
    refine J.bind (J.ofExcept hp (Builtin.run_failsOrdinarily _ _ _)) fun result => ?_
    exact J.bind (J.print result.2) fun _ => J.pure result.1
  | structType type =>
    change J.holds (construct type arguments p) (construct type arguments p)
    unfold construct
    split
    · exact J.makeObject type _
    · next fault q herror =>
      obtain ⟨hq, hkind⟩ := StructType.misfit_of_construct herror
      refine J.fail ?_ hkind
      rcases List.mem_cons.1 hq with rfl | hmem
      · exact hp
      · obtain ⟨a, ha, rfl⟩ := List.mem_map.1 hmem
        exact harguments a ha
  | _ => exact J.fail hp rfl

theorem expectObject {p : Position} (hp : J.faulty p) (v : Value κ) (field : String) :
    J.holds (expectObject v field p : Action σ κ (StructType × CellId))
      (expectObject v field p) := by
  cases v with
  | object type cell => exact J.pure (type, cell)
  | _ => exact J.fail hp rfl

theorem member {p : Position} (hp : J.faulty p) (target : Value κ) (field : String) :
    J.holds (member target field p : Action σ κ (Value κ)) (member target field p) := by
  refine J.bind (J.expectObject hp _ _) fun ⟨type, cell⟩ => ?_
  dsimp only
  split
  · exact J.fail hp rfl
  · next i _ =>
    refine J.bind (J.readField cell i) fun held => ?_
    split
    · exact J.pure _
    · exact J.fail hp rfl

theorem setMember {p : Position} (hp : J.faulty p) (type : StructType) (cell : CellId)
    (field : String) (v : Value κ) :
    J.holds (setMember type cell field v p : Action σ κ (Value κ))
      (setMember type cell field v p) := by
  unfold Evaluation.setMember
  split
  · exact J.fail hp rfl
  · next i _ =>
    split
    · exact J.fail hp rfl
    · next f _ =>
      refine J.bind (J.ofExcept hp (type.conformField_failsOrdinarily f v)) fun w => ?_
      exact J.bind (J.writeField cell i w) fun _ => J.pure w

/-- Every form of expression is judged well, if the parts and the calls are. -/
theorem node {e : Expr} (hsteps : J.Outlasts steps steps')
    (hparts : ∀ c ∈ e.parts, J.holds (recur c) (recur' c))
    (hfaulty : ∀ p ∈ e.faultPositions, J.faulty p)
    (henter : ∀ callee arguments p, e = .call callee arguments p →
      ∀ (f : Function κ) (names : Bindings κ),
        J.holds (enter recur limit f names p) (enter recur' limit' f names p)) :
    J.holds (node recur limit steps e) (node recur' limit' steps' e) := by
  cases e with
  | literal value _ => exact J.pure _
  | identifier name p =>
    refine J.bind (J.look _) fun held => ?_
    split
    · exact J.pure _
    · exact J.fail (hfaulty p List.mem_cons_self) rfl
  | assign name value _ =>
    have hvalue : J.holds (assigned recur name value) (assigned recur' name value) := by
      have hpart := hparts value List.mem_cons_self
      unfold assigned
      split
      · exact J.makeFunction _ _ _
      · exact J.makeStruct _ _
      · exact hpart
    exact J.bind hvalue fun v => J.bind (J.define name v) fun _ => J.pure v
  | binary operator left right p =>
    have hleft := hparts left List.mem_cons_self
    have hright := hparts right (List.mem_cons_of_mem _ List.mem_cons_self)
    cases operator with
    | and =>
      refine J.bind hleft fun v => ?_
      split
      · exact J.bind hright fun w => J.pure _
      · exact J.pure _
    | or =>
      refine J.bind hleft fun v => ?_
      split
      · exact J.pure _
      · exact J.bind hright fun w => J.pure _
    | _ =>
      exact J.bind hleft fun v => J.bind hright fun w =>
        J.ofExcept (hfaulty p List.mem_cons_self) (Operator.binary_failsOrdinarily _ _ _)
  | unary operator operand p =>
    exact J.bind (hparts operand List.mem_cons_self) fun v =>
      J.ofExcept (hfaulty p List.mem_cons_self) (Operator.unary_failsOrdinarily _ _)
  | not operand _ => exact J.bind (hparts operand List.mem_cons_self) fun v => J.pure _
  | call callee arguments p =>
    obtain ⟨hcallee, harguments⟩ := (Expr.forall_children_call (p := p)).1 hparts
    refine J.bind hcallee fun f => J.supply_bind harguments fun supplied hsame => ?_
    refine J.call (hfaulty p List.mem_cons_self) (fun a ha => ?_) (henter _ _ _ rfl) f
    refine hfaulty _ (List.mem_cons_of_mem _ ?_)
    rw [← hsame]
    exact List.mem_map_of_mem ha
  | member target field p =>
    exact J.bind (hparts target List.mem_cons_self) fun v =>
      J.member (hfaulty p List.mem_cons_self) v field
  | memberSet target field value p =>
    have hp := hfaulty p List.mem_cons_self
    refine J.bind (hparts target List.mem_cons_self) fun v => ?_
    refine J.bind (J.expectObject hp v field) fun ⟨type, cell⟩ => ?_
    exact J.bind (hparts value (List.mem_cons_of_mem _ List.mem_cons_self)) fun w =>
      J.setMember hp type cell field w
  | choice branches otherwise p =>
    obtain ⟨hbranches, hotherwise⟩ := (Expr.forall_children_choice (p := p)).1 hparts
    exact J.choose hbranches hotherwise
  | forLoop name first bound step body p =>
    refine J.bind (hparts first (by simp [Expr.parts, Expr.children])) fun v => ?_
    refine J.bind (hparts bound (by simp [Expr.parts, Expr.children])) fun w => ?_
    refine J.forLoop (hfaulty p List.mem_cons_self) hsteps
      (hparts body (by simp [Expr.parts, Expr.children])) fun e he => hparts e ?_
    rw [Option.mem_def] at he
    simp [Expr.parts, Expr.children, he]
  | whileLoop condition body _ =>
    exact J.whileRounds (hparts condition List.mem_cons_self)
      (hparts body (List.mem_cons_of_mem _ List.mem_cons_self)) hsteps .null
  | function name parameters body _ =>
    exact J.bind (J.makeFunction name parameters body) fun f =>
      J.bind (J.defineNamed name f) fun _ => J.pure f
  | struct name fields _ =>
    exact J.bind (J.makeStruct _ fields) fun t => J.bind (J.defineNamed name t) fun _ => J.pure t
  | returning value _ =>
    cases value with
    | none => exact J.returned _
    | some value => exact J.bind (hparts value List.mem_cons_self) fun v => J.returned v
  | block items _ => exact J.sequence hparts .null

end Judgement

end SnapshotScript
