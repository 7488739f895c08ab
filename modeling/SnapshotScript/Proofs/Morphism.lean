import SnapshotScript.Interpreter
import SnapshotScript.Proofs.Mirror
import SnapshotScript.Proofs.Recasting

/-!
# Runs and their images

A morphism turns the states of one kind of runs into those of another, the places that functions
keep into other places, and positions into other positions, in such a way that each operation of
`Runtime` leads from images to images.  Then the evaluation of an expression does so too
(`Runtime.Morphism.evaluate_shows`): all that an evaluation does with positions is to hand them on,
and it never looks at what a state consists of.
-/

namespace SnapshotScript

variable {σ κ σ' κ' α α' : Type}

/-- The call from another position. -/
def ActiveCall.relocate (π : Position → Position) (c : ActiveCall) : ActiveCall :=
  ⟨c.name, π c.site⟩

/-- The error in another position, with the active calls from other positions. -/
def RuntimeError.relocate (π : Position → Position) (e : RuntimeError) : RuntimeError :=
  ⟨e.fault, π e.position, e.trace.map (ActiveCall.relocate π)⟩

/-- The names of the active calls do not change. -/
theorem RuntimeError.trace_names_relocate (π : Position → Position) (e : RuntimeError) :
    (e.relocate π).trace.map ActiveCall.name = e.trace.map ActiveCall.name :=
  List.map_map

/-- The early end with another value or in other positions. -/
def Unwind.recast (r : Recast κ κ') : Unwind κ → Unwind κ'
  | .returned v => .returned (v.recast r)
  | .failed e => .failed (e.relocate r.position)
  | .exhausted => .exhausted

@[simp] theorem ActiveCall.relocate_id : ActiveCall.relocate id = id := rfl

@[simp] theorem RuntimeError.relocate_id (e : RuntimeError) : e.relocate id = e := by
  rw [relocate, ActiveCall.relocate_id, List.map_id, id]

@[simp] theorem Unwind.recast_refl (u : Unwind κ) : u.recast .refl = u := by
  cases u with
  | returned v => rw [recast, Value.recast_refl]
  | failed e => rw [recast, RuntimeError.relocate_id]
  | exhausted => rfl

/-- A map between the states of two kinds of runs that every operation respects. -/
structure Runtime.Morphism (σ κ σ' κ' : Type) [Runtime σ κ] [Runtime σ' κ']
    extends Recast κ κ' where
  state : σ → σ'
  lookup_state (s name) : Runtime.lookup (state s) name =
    (Runtime.lookup s name).map (Value.recast toRecast)
  lookupHere_state (s name) : Runtime.lookupHere (state s) name =
    (Runtime.lookupHere s name).map (Value.recast toRecast)
  define_state (name v s) : Runtime.define name (Value.recast toRecast v) (state s) =
    state (Runtime.define name v s)
  place_state (s) : Runtime.place (state s) = closure (Runtime.place s)
  capture_state (s) : Runtime.capture (state s) =
    (closure (Runtime.capture s).1, state (Runtime.capture s).2)
  enterFrame_state (s) : Runtime.enterFrame (state s) = state (Runtime.enterFrame s)
  leaveFrame_state (k s) : Runtime.leaveFrame (closure k) (state s) =
    state (Runtime.leaveFrame k s)
  enterCall_state (f names site s) :
    Runtime.enterCall (Function.recast toRecast f) (Bindings.recast toRecast names)
      (position site) (state s) = state (Runtime.enterCall f names site s)
  leaveCall_state (k s) : Runtime.leaveCall (closure k) (state s) = state (Runtime.leaveCall k s)
  calls_state (s) : Runtime.calls (state s) =
    (Runtime.calls s).map (ActiveCall.relocate position)
  cells_state (s) : Runtime.cells (state s) = Cells.recast toRecast (Runtime.cells s)
  makeObject_state (type values s) :
    Runtime.makeObject type (values.map (Value.recast toRecast)) (state s) =
      (Value.recast toRecast (Runtime.makeObject type values s).1,
        state (Runtime.makeObject type values s).2)
  readField_state (cell i s) : Runtime.readField cell i (state s) =
    ((Runtime.readField cell i s).1.map (Value.recast toRecast),
      state (Runtime.readField cell i s).2)
  writeField_state (cell i v s) :
    Runtime.writeField cell i (Value.recast toRecast v) (state s) =
      state (Runtime.writeField cell i v s)
  freshId_state (s) : Runtime.freshId (state s) =
    ((Runtime.freshId s).1, state (Runtime.freshId s).2)
  record_state (e s) : Runtime.record e (state s) = state (Runtime.record e s)

namespace Runtime.Morphism

variable [Runtime σ κ] [Runtime σ' κ'] (h : Morphism σ κ σ' κ') {f : α → α'}

/-- The mirror in which runs look like their images. -/
def mirror : Mirror (Unwind κ) σ (Unwind κ') σ' :=
  ⟨h.state, Unwind.recast h.toRecast⟩

/-! ### Operations -/

theorem fail_shows (fault : Fault) (p : Position) :
    h.mirror.Shows f (Action.fail fault p) (Action.fail fault (h.position p)) := by
  intro s
  have hcalls : (Runtime.calls (h.state s)).toList =
      (Runtime.calls s).toList.map (ActiveCall.relocate h.position) := by
    rw [h.calls_state, Array.toList_map]
  exact congrArg (fun trace => EStateM.Result.error (Unwind.failed ⟨fault, _, trace⟩) _) hcalls

theorem ofExcept_shows (p : Position) {result : Except Fault α} {result' : Except Fault α'}
    (hresult : result' = result.map f) :
    h.mirror.Shows f (Action.ofExcept p result) (Action.ofExcept (h.position p) result') := by
  subst hresult
  cases result with
  | ok a => exact .pure rfl
  | error fault => exact h.fail_shows fault p

theorem lookup_shows (name : String) :
    h.mirror.Shows (Option.map (Value.recast h.toRecast)) (Action.lookup name)
      (Action.lookup name) :=
  fun s => congrArg (EStateM.Result.ok · (h.state s)) (h.lookup_state s name)

theorem lookupHere_shows (name : String) :
    h.mirror.Shows (Option.map (Value.recast h.toRecast)) (Action.lookupHere name)
      (Action.lookupHere name) :=
  fun s => congrArg (EStateM.Result.ok · (h.state s)) (h.lookupHere_state s name)

theorem depth_shows : h.mirror.Shows id Action.depth Action.depth := by
  intro s
  change EStateM.Result.ok (Runtime.calls (h.state s)).size _ = _
  rw [h.calls_state, Array.size_map]
  rfl

theorem cells_shows :
    h.mirror.Shows (Cells.recast h.toRecast) Action.cells Action.cells :=
  fun s => congrArg (EStateM.Result.ok · (h.state s)) (h.cells_state s)

theorem record_shows (e : Event) : h.mirror.Shows id (Action.record e) (Action.record e) :=
  Mirror.shows_modify (h.record_state e)

theorem define_shows (name : String) (v : Value κ) :
    h.mirror.Shows id (Action.define name v) (Action.define name (v.recast h.toRecast)) :=
  Mirror.shows_modify (h.define_state name v)

theorem defineNamed_shows (name : Option String) (v : Value κ) :
    h.mirror.Shows id (Action.defineNamed name v)
      (Action.defineNamed name (v.recast h.toRecast)) := by
  cases name with
  | none => exact .pure rfl
  | some name => exact h.define_shows name v

theorem print_shows (text : Option String) :
    h.mirror.Shows id (Action.print text) (Action.print text) := by
  cases text with
  | none => exact .pure rfl
  | some text => exact h.record_shows _

theorem freshId_shows :
    h.mirror.Shows id (modifyGet Runtime.freshId : Action σ κ Nat)
      (modifyGet Runtime.freshId : Action σ' κ' Nat) :=
  Mirror.shows_modifyGet h.freshId_state

theorem makeStruct_shows (name : String) (fields : List Field) :
    h.mirror.Shows (Value.recast h.toRecast) (Action.makeStruct name fields)
      (Action.makeStruct name fields) :=
  h.freshId_shows.bind fun _ => .pure rfl

theorem makeFunction_shows (name : Option String) (parameters : List String) (body : Expr) :
    h.mirror.Shows (Value.recast h.toRecast) (Action.makeFunction name parameters body)
      (Action.makeFunction name parameters (body.relocate h.position)) := by
  have hcapture : h.mirror.Shows h.closure (modifyGet Runtime.capture : Action σ κ κ)
      (modifyGet Runtime.capture : Action σ' κ' κ') :=
    Mirror.shows_modifyGet h.capture_state
  exact h.freshId_shows.bind fun id => hcapture.bind fun closure => .pure rfl

theorem makeObject_shows (type : StructType) (values : List (Value κ)) :
    h.mirror.Shows (Value.recast h.toRecast) (Action.makeObject type values)
      (Action.makeObject type (values.map (Value.recast h.toRecast))) := by
  unfold Action.makeObject
  rw [List.length_map]
  exact (h.record_shows _).bind fun _ => Mirror.shows_modifyGet (h.makeObject_state type values)

theorem readField_shows (cell : CellId) (i : Nat) :
    h.mirror.Shows (Option.map (Value.recast h.toRecast)) (Action.readField cell i)
      (Action.readField cell i) :=
  Mirror.shows_modifyGet (h.readField_state cell i)

theorem writeField_shows (cell : CellId) (i : Nat) (v : Value κ) :
    h.mirror.Shows id (Action.writeField cell i v)
      (Action.writeField cell i (v.recast h.toRecast)) :=
  Mirror.shows_modify (h.writeField_state cell i v)

/-- What runs in a frame of its own shows as its image in a frame of its own. -/
theorem inFrame_shows {x : Action σ κ α} {y : Action σ' κ' α'} (hx : h.mirror.Shows f x y) :
    h.mirror.Shows f (Action.inFrame x) (Action.inFrame y) := by
  intro s
  have hleave : ∀ t, Runtime.leaveFrame (Runtime.place (h.mirror.state s)) (h.mirror.state t) =
      h.mirror.state (Runtime.leaveFrame (Runtime.place s) t) := fun t =>
    (congrArg (Runtime.leaveFrame · (h.state t)) (h.place_state s)).trans (h.leaveFrame_state _ t)
  have hinside : y (Runtime.enterFrame (h.mirror.state s)) =
      h.mirror.outcome f (x (Runtime.enterFrame s)) :=
    (congrArg y (h.enterFrame_state s)).trans (hx _)
  unfold Action.inFrame
  rw [hinside]
  cases x (Runtime.enterFrame s) with
  | ok a t => exact congrArg (EStateM.Result.ok (f a)) (hleave t)
  | error u t => exact congrArg (EStateM.Result.error (Unwind.recast h.toRecast u)) (hleave t)

/-- A call shows as the call of the image.  A `return` gives its value to the call. -/
theorem inCall_shows (g : Function κ) (names : Bindings κ) (site : Position)
    {body : Action σ κ (Value κ)} {body' : Action σ' κ' (Value κ')}
    (hbody : h.mirror.Shows (Value.recast h.toRecast) body body') :
    h.mirror.Shows (Value.recast h.toRecast) (Action.inCall g names site body)
      (Action.inCall (g.recast h.toRecast) (names.recast h.toRecast) (h.position site) body') := by
  intro s
  have hleave : ∀ t, Runtime.leaveCall (Runtime.place (h.mirror.state s)) (h.mirror.state t) =
      h.mirror.state (Runtime.leaveCall (Runtime.place s) t) := fun t =>
    (congrArg (Runtime.leaveCall · (h.state t)) (h.place_state s)).trans (h.leaveCall_state _ t)
  have hinside : body' (Runtime.enterCall (g.recast h.toRecast) (names.recast h.toRecast)
      (h.position site) (h.mirror.state s)) = h.mirror.outcome (Value.recast h.toRecast)
        (body (Runtime.enterCall g names site s)) :=
    (congrArg body' (h.enterCall_state g names site s)).trans (hbody _)
  unfold Action.inCall
  rw [hinside]
  cases body (Runtime.enterCall g names site s) with
  | ok v t => exact congrArg (EStateM.Result.ok (v.recast h.toRecast)) (hleave t)
  | error u t =>
    cases u with
    | returned v => exact congrArg (EStateM.Result.ok (v.recast h.toRecast)) (hleave t)
    | failed e =>
      exact congrArg (EStateM.Result.error (Unwind.failed (e.relocate h.position))) (hleave t)
    | exhausted => exact congrArg (EStateM.Result.error Unwind.exhausted) (hleave t)

/-! ### Forms of expressions -/

section Forms

open Evaluation

variable {recur : Expr → Action σ κ (Value κ)} {recur' : Expr → Action σ' κ' (Value κ')}
  {limit steps : Nat}
  (hrecur : ∀ e, h.mirror.Shows (Value.recast h.toRecast) (recur e)
    (recur' (e.relocate h.position)))

include hrecur

theorem sequence_shows (last : Value κ) (es : List Expr) :
    h.mirror.Shows (Value.recast h.toRecast) (sequence recur last es)
      (sequence recur' (last.recast h.toRecast) (es.map (Expr.relocate h.position))) := by
  induction es generalizing last with
  | nil => exact .pure rfl
  | cons e es ih => exact (hrecur e).bind fun v => ih v

theorem supply_shows (arguments : List (Argument Expr)) :
    h.mirror.Shows (List.map (Supplied.recast h.toRecast)) (supply recur arguments)
      (supply recur' (arguments.map (Argument.map (Expr.relocate h.position)))) := by
  induction arguments with
  | nil => exact .pure rfl
  | cons a arguments ih =>
    refine (hrecur a.value).bind fun v => ih.bind fun more => .pure ?_
    rw [List.map_cons, Supplied.recast, ← Expr.position_relocate h.position a.value]

theorem choose_shows (otherwise : Option Expr) (branches : List (Branch Expr)) :
    h.mirror.Shows (Value.recast h.toRecast) (choose recur otherwise branches)
      (choose recur' (otherwise.map (Expr.relocate h.position))
        (branches.map (Branch.map (Expr.relocate h.position)))) := by
  induction branches with
  | nil =>
    cases otherwise with
    | none => exact .pure rfl
    | some body => exact hrecur body
  | cons b branches ih =>
    refine (hrecur b.condition).bind fun v => ?_
    rw [Value.truthy_recast]
    split
    · exact hrecur b.body
    · exact ih

theorem whileRounds_shows (condition body : Expr) (rounds : Nat) (last : Value κ) :
    h.mirror.Shows (Value.recast h.toRecast) (whileRounds recur condition body rounds last)
      (whileRounds recur' (condition.relocate h.position) (body.relocate h.position) rounds
        (last.recast h.toRecast)) := by
  induction rounds generalizing last with
  | zero => exact .throw rfl
  | succ rounds ih =>
    refine (hrecur condition).bind fun v => ?_
    rw [Value.truthy_recast]
    split
    · exact (hrecur body).bind fun last => ih last
    · exact .pure rfl

theorem forRounds_shows (loop : Loop κ) (rounds : Nat) (direction : Ordering)
    (counter last : Value κ) :
    h.mirror.Shows (Value.recast h.toRecast) (forRounds recur loop rounds direction counter last)
      (forRounds recur'
        { loop with
          bound := loop.bound.recast h.toRecast
          step := loop.step.map (Expr.relocate h.position)
          body := loop.body.relocate h.position
          position := h.position loop.position }
        rounds direction (counter.recast h.toRecast) (last.recast h.toRecast)) := by
  obtain ⟨name, bound, step, defaultStep, body, p⟩ := loop
  have hstep : h.mirror.Shows (Value.recast h.toRecast)
      (loopStep recur ⟨name, bound, step, defaultStep, body, p⟩)
      (loopStep recur' ⟨name, bound.recast h.toRecast, step.map (Expr.relocate h.position),
        defaultStep, body.relocate h.position, h.position p⟩) := by
    cases step with
    | none => exact .pure rfl
    | some e => exact hrecur e
  induction rounds generalizing direction counter last with
  | zero => exact .throw rfl
  | succ rounds ih =>
    unfold forRounds
    rw [Value.compareNumbers?_recast]
    split
    · refine (h.define_shows name counter).bind fun _ => (hrecur body).bind fun last => ?_
      refine hstep.bind fun step => ?_
      refine (h.ofExcept_shows (f := id) p ?_).bind fun direction => ?_
      · rw [Operator.stepDirection_recast]
        cases Operator.stepDirection step <;> rfl
      refine (h.lookupHere_shows name).bind fun held => ?_
      have hheld : (held.map (Value.recast h.toRecast)).getD (counter.recast h.toRecast) =
          (held.getD counter).recast h.toRecast := by
        cases held <;> rfl
      rw [hheld]
      refine (h.ofExcept_shows p (Operator.binary_recast _ _ _ _)).bind fun counter => ?_
      rw [Value.isNumber_recast]
      split
      · exact ih direction counter last
      · exact h.fail_shows _ _
    · exact .pure rfl

theorem forLoop_shows (name : String) (first bound : Value κ) (step : Option Expr) (body : Expr)
    (p : Position) :
    h.mirror.Shows (Value.recast h.toRecast) (forLoop recur steps name first bound step body p)
      (forLoop recur' steps name (first.recast h.toRecast) (bound.recast h.toRecast)
        (step.map (Expr.relocate h.position)) (body.relocate h.position) (h.position p)) := by
  unfold forLoop
  rw [Value.isNumber_recast, Value.isNumber_recast, Value.compareNumbers?_recast,
    Value.typeName_recast, Value.typeName_recast]
  split
  · exact h.inFrame_shows (h.forRounds_shows hrecur _ _ _ _ _)
  · exact h.fail_shows _ _

omit hrecur in
theorem refuseNames_shows (callee : String) (arguments : List (Supplied κ)) :
    h.mirror.Shows id (refuseNames callee arguments)
      (refuseNames callee (arguments.map (Supplied.recast h.toRecast))) := by
  have hfind : (arguments.map (Supplied.recast h.toRecast)).find? (fun a => a.name.isSome) =
      (arguments.find? fun a => a.name.isSome).map (Supplied.recast h.toRecast) := by
    rw [List.find?_map]
    rfl
  unfold refuseNames
  rw [hfind]
  cases arguments.find? fun a => a.name.isSome with
  | none => exact .pure rfl
  | some a => exact h.fail_shows _ _

theorem callFunction_shows (g : Function κ) (arguments : List (Supplied κ)) (p : Position) :
    h.mirror.Shows (Value.recast h.toRecast) (callFunction recur limit g arguments p)
      (callFunction recur' limit (g.recast h.toRecast)
        (arguments.map (Supplied.recast h.toRecast)) (h.position p)) := by
  have hnames : parameterBindings (g.recast h.toRecast)
      (arguments.map (Supplied.recast h.toRecast)) =
        (parameterBindings g arguments).recast h.toRecast := by
    obtain ⟨id, name, parameters, body, closure⟩ := g
    have hvalues : (arguments.map (Supplied.recast h.toRecast)).map Supplied.value =
        (arguments.map Supplied.value).map (Value.recast h.toRecast) := by
      rw [List.map_map, List.map_map]
      rfl
    cases name <;>
      simp only [parameterBindings, Function.recast, Bindings.recast, hvalues, List.zip_map_right,
        List.nil_append, List.map_append] <;> rfl
  refine (h.refuseNames_shows _ _).bind fun _ => ?_
  rw [List.length_map]
  change h.mirror.Shows _
    (if arguments.length ≠ g.parameters.length then _ else _)
    (if arguments.length ≠ g.parameters.length then _ else _)
  split
  · exact h.fail_shows _ _
  · refine h.depth_shows.bind fun depth => ?_
    rw [id]
    split
    · exact h.fail_shows _ _
    · rw [hnames]
      exact h.inCall_shows g _ p (hrecur g.body)

omit hrecur in
theorem callBuiltin_shows (b : Builtin) (arguments : List (Supplied κ)) (p : Position) :
    h.mirror.Shows (Value.recast h.toRecast) (callBuiltin b arguments p)
      (callBuiltin b (arguments.map (Supplied.recast h.toRecast)) (h.position p)) := by
  have hvalues : (arguments.map (Supplied.recast h.toRecast)).map Supplied.value =
      (arguments.map Supplied.value).map (Value.recast h.toRecast) := by
    rw [List.map_map, List.map_map]
    rfl
  refine (h.refuseNames_shows _ _).bind fun _ => h.cells_shows.bind fun cells => ?_
  rw [hvalues]
  refine (h.ofExcept_shows p (Builtin.run_recast _ _ _ _)).bind fun result => ?_
  exact (h.print_shows result.2).bind fun _ => .pure rfl

omit hrecur in
theorem construct_shows (type : StructType) (arguments : List (Supplied κ)) (p : Position) :
    h.mirror.Shows (Value.recast h.toRecast) (construct type arguments p)
      (construct type (arguments.map (Supplied.recast h.toRecast)) (h.position p)) := by
  unfold construct
  have hresult := StructType.construct_recast h.toRecast type arguments p
  rw [hresult]
  cases type.construct arguments p with
  | ok values => exact h.makeObject_shows type values
  | error misfit => exact h.fail_shows misfit.1 misfit.2

theorem call_shows (callee : Value κ) (arguments : List (Supplied κ)) (p : Position) :
    h.mirror.Shows (Value.recast h.toRecast) (call recur limit callee arguments p)
      (call recur' limit (callee.recast h.toRecast)
        (arguments.map (Supplied.recast h.toRecast)) (h.position p)) := by
  cases callee with
  | function g => exact h.callFunction_shows hrecur g arguments p
  | builtin b => exact h.callBuiltin_shows b arguments p
  | structType type => exact h.construct_shows type arguments p
  | _ => exact h.fail_shows _ p

omit hrecur in
theorem expectObject_shows (v : Value κ) (field : String) (p : Position) :
    h.mirror.Shows id (expectObject v field p)
      (expectObject (v.recast h.toRecast) field (h.position p)) := by
  cases v with
  | object type cell => exact .pure rfl
  | _ => exact h.fail_shows _ p

omit hrecur in
theorem member_shows (target : Value κ) (field : String) (p : Position) :
    h.mirror.Shows (Value.recast h.toRecast) (member target field p)
      (member (target.recast h.toRecast) field (h.position p)) := by
  refine (h.expectObject_shows target field p).bind fun ⟨type, cell⟩ => ?_
  dsimp only [id]
  split
  · exact h.fail_shows _ p
  · next i _ =>
    refine (h.readField_shows cell i).bind fun held => ?_
    cases held with
    | none => exact h.fail_shows _ p
    | some v => exact .pure rfl

omit hrecur in
theorem setMember_shows (type : StructType) (cell : CellId) (field : String) (v : Value κ)
    (p : Position) :
    h.mirror.Shows (Value.recast h.toRecast) (setMember type cell field v p)
      (setMember type cell field (v.recast h.toRecast) (h.position p)) := by
  unfold setMember
  split
  · exact h.fail_shows _ p
  · split
    · exact h.fail_shows _ p
    · refine (h.ofExcept_shows p (StructType.conformField_recast _ _ _ _)).bind fun v => ?_
      exact (h.writeField_shows cell _ v).bind fun _ => .pure rfl

theorem assigned_shows (name : String) (value : Expr) :
    h.mirror.Shows (Value.recast h.toRecast) (assigned recur name value)
      (assigned recur' name (value.relocate h.position)) := by
  cases value with
  | function own parameters body p =>
    cases own with
    | none => exact h.makeFunction_shows (some name) parameters body
    | some own => exact hrecur (.function (some own) parameters body p)
  | struct own fields p =>
    cases own with
    | none => exact h.makeStruct_shows name fields
    | some own => exact hrecur (.struct (some own) fields p)
  | _ => exact hrecur _

/-- Every form of expression shows as the same form in other positions, if the expressions inside of
it do. -/
theorem node_shows (e : Expr) :
    h.mirror.Shows (Value.recast h.toRecast) (node recur limit steps e)
      (node recur' limit steps (e.relocate h.position)) := by
  cases e with
  | literal value p => exact .pure (Literal.toValue_recast h.toRecast value).symm
  | identifier name p =>
    refine (h.lookup_shows name).bind fun held => ?_
    cases held with
    | none => exact h.fail_shows _ p
    | some v => exact .pure rfl
  | assign name value p =>
    refine (h.assigned_shows hrecur name value).bind fun v => ?_
    exact (h.define_shows name v).bind fun _ => .pure rfl
  | binary operator left right p =>
    cases operator with
    | and =>
      refine (hrecur left).bind fun v => ?_
      rw [Value.truthy_recast]
      split
      · exact (hrecur right).bind fun w => .pure (by rw [Value.truthy_recast]; rfl)
      · exact .pure rfl
    | or =>
      refine (hrecur left).bind fun v => ?_
      rw [Value.truthy_recast]
      split
      · exact .pure rfl
      · exact (hrecur right).bind fun w => .pure (by rw [Value.truthy_recast]; rfl)
    | _ =>
      exact (hrecur left).bind fun v => (hrecur right).bind fun w =>
        h.ofExcept_shows p (Operator.binary_recast _ _ _ _)
  | unary operator operand p =>
    exact (hrecur operand).bind fun v => h.ofExcept_shows p (Operator.unary_recast _ _ _)
  | not operand p =>
    exact (hrecur operand).bind fun v => .pure (by rw [Value.truthy_recast]; rfl)
  | call callee arguments p =>
    rw [Expr.relocate, Expr.relocateArguments_eq]
    refine (hrecur callee).bind fun g => (h.supply_shows hrecur arguments).bind fun supplied => ?_
    exact h.call_shows hrecur g supplied p
  | member target field p =>
    exact (hrecur target).bind fun v => h.member_shows v field p
  | memberSet target field value p =>
    refine (hrecur target).bind fun v => ?_
    refine (h.expectObject_shows v field p).bind fun ⟨type, cell⟩ => ?_
    exact (hrecur value).bind fun w => h.setMember_shows type cell field w p
  | choice branches otherwise p =>
    rw [Expr.relocate, Expr.relocateBranches_eq, Expr.relocateOption_eq]
    exact h.choose_shows hrecur otherwise branches
  | forLoop name first bound step body p =>
    rw [Expr.relocate, Expr.relocateOption_eq]
    exact (hrecur first).bind fun v => (hrecur bound).bind fun w =>
      h.forLoop_shows hrecur name v w step body p
  | whileLoop condition body p => exact h.whileRounds_shows hrecur condition body steps .null
  | function name parameters body p =>
    exact (h.makeFunction_shows name parameters body).bind fun g =>
      (h.defineNamed_shows name g).bind fun _ => .pure rfl
  | struct name fields p =>
    exact (h.makeStruct_shows _ fields).bind fun t =>
      (h.defineNamed_shows name t).bind fun _ => .pure rfl
  | returning value p =>
    cases value with
    | none => exact .throw rfl
    | some value => exact (hrecur value).bind fun v => .throw rfl
  | block items p =>
    rw [Expr.relocate, Expr.relocateItems_eq]
    exact h.sequence_shows hrecur .null items

end Forms

/-- From the image of a state, an expression in other positions has the image of its outcome. -/
theorem evaluate_shows (limit steps : Nat) (e : Expr) :
    h.mirror.Shows (Value.recast h.toRecast) (evaluate limit steps e)
      (evaluate limit steps (e.relocate h.position)) := by
  induction steps generalizing e with
  | zero => exact .throw rfl
  | succ steps ih => exact h.node_shows ih e

/-- A morphism that only changes states changes nothing else about a run. -/
theorem evaluate_eq [Runtime σ' κ] (h : Morphism σ κ σ' κ) (hclosure : h.closure = id)
    (hposition : h.position = id) (limit steps : Nat) (e : Expr) (s : σ) :
    evaluate limit steps e (h.state s) =
      (Mirror.onStates h.state).outcome id (evaluate limit steps e s) := by
  have hsame : h.toRecast = .refl := by
    rw [Recast.refl, ← hclosure, ← hposition]
  have hvalue : Value.recast h.toRecast = id := by
    rw [hsame, Value.recast_refl_fun]
  have hmirror : h.mirror = Mirror.onStates h.state := by
    have hunwind : Unwind.recast h.toRecast = id := by
      rw [hsame]
      exact funext Unwind.recast_refl
    rw [mirror, hunwind]
    rfl
  have hshows := h.evaluate_shows limit steps e s
  rwa [hmirror, hvalue, hposition, Expr.relocate_id] at hshows

end Runtime.Morphism

end SnapshotScript
