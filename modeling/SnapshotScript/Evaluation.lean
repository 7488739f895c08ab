import SnapshotScript.Construction
import SnapshotScript.Operator
import SnapshotScript.Runtime

/-!
# Evaluating expressions

`evaluate` gives the value of an expression in the state of a run.  Programs need not end, so it
takes the number of steps that it may take at most: no more expressions may be nested at run time,
and no loop may make more rounds.  With too few steps it ends as `exhausted`, which is no outcome of
the program.

The depth of calls is limited too.  Exceeding that limit is a fault of the program.
-/

namespace SnapshotScript

namespace Evaluation

/-! In what follows `recur` evaluates an inner expression, `limit` is the greatest depth of calls,
and `steps` bounds the rounds of loops. -/

variable {σ κ : Type} [Runtime σ κ] (recur : Expr → Action σ κ (Value κ)) (limit steps : Nat)

/-- Evaluates expressions one after the other.  The value is the last one, or `last` if there are
none. -/
def sequence : Value κ → List Expr → Action σ κ (Value κ)
  | last, [] => return last
  | _, e :: rest => do
    let v ← recur e
    sequence v rest

/-- Evaluates arguments from left to right. -/
def supply : List (Argument Expr) → Action σ κ (List (Supplied κ))
  | [] => return []
  | ⟨name, e⟩ :: rest => do
    let v ← recur e
    let more ← supply rest
    return ⟨name, v, e.position⟩ :: more

/-- Takes the first branch whose condition holds. -/
def choose (otherwise : Option Expr) : List (Branch Expr) → Action σ κ (Value κ)
  | [] =>
    match otherwise with
    | some body => recur body
    | none => return .null
  | ⟨condition, body⟩ :: rest => do
    let v ← recur condition
    if v.truthy then recur body else choose otherwise rest

/-- Evaluates the body as long as the condition holds. -/
def whileRounds (condition body : Expr) : Nat → Value κ → Action σ κ (Value κ)
  | 0, _ => throw .exhausted
  | rounds + 1, last => do
    let v ← recur condition
    if v.truthy then
      let last ← recur body
      whileRounds condition body rounds last
    else
      return last

/-- What a loop over numbers does not change from round to round. -/
structure Loop (κ : Type) where
  name : String
  bound : Value κ
  step : Option Expr
  /-- The step where none is given. -/
  defaultStep : Int64
  body : Expr
  position : Position

/-- The step of a round. -/
def loopStep (loop : Loop κ) : Action σ κ (Value κ) :=
  match loop.step with
  | some e => recur e
  | none => return .int loop.defaultStep

/-- Runs the rounds of a loop over numbers in its own frame.  A round is made while `counter` stands
to the bound as `direction` says.  The step is evaluated behind the body; its sign decides the
direction from then on, and it is added to what the variable then holds in that frame. -/
def forRounds (loop : Loop κ) : Nat → Ordering → Value κ → Value κ → Action σ κ (Value κ)
  | 0, _, _, _ => throw .exhausted
  | rounds + 1, direction, counter, last => do
    if counter.compareNumbers? loop.bound = some direction then
      Action.define loop.name counter
      let last ← recur loop.body
      let step ← loopStep recur loop
      let direction ← Action.ofExcept loop.position (Operator.stepDirection step)
      let held := (← Action.lookupHere loop.name).getD counter
      let counter ← Action.ofExcept loop.position (Operator.binary .add held step)
      if counter.isNumber then forRounds loop rounds direction counter last
      else Action.fail (.loopVariable loop.name) loop.position
    else
      return last

/-- Runs a loop over numbers whose bounds have been evaluated, in a frame of its own. -/
def forLoop (name : String) (first bound : Value κ) (step : Option Expr) (body : Expr)
    (position : Position) : Action σ κ (Value κ) :=
  if first.isNumber && bound.isNumber then
    let ascending := bound.compareNumbers? first ≠ some .lt
    let loop : Loop κ :=
      { name, bound, step, body, position, defaultStep := if ascending then 1 else -1 }
    let direction := if ascending then .lt else .gt
    Action.inFrame (forRounds recur loop steps direction first .null)
  else
    Action.fail (.loopBounds first.typeName bound.typeName) position

/-- Refuses arguments with names. -/
def refuseNames (callee : String) (arguments : List (Supplied κ)) : Action σ κ Unit :=
  match arguments.find? fun a => a.name.isSome with
  | some a => Action.fail (.namedArguments callee) a.position
  | none => return ()

/-- The bindings with which the body of a function begins: its own name, then the parameters. -/
def parameterBindings (f : Function κ) (arguments : List (Supplied κ)) : Bindings κ :=
  let own :=
    match f.name with
    | some name => [(name, Value.function f)]
    | none => []
  own ++ f.parameters.zip (arguments.map Supplied.value)

/-- Calls a function. -/
def callFunction (f : Function κ) (arguments : List (Supplied κ))
    (position : Position) : Action σ κ (Value κ) := do
  refuseNames f.displayName arguments
  if arguments.length ≠ f.parameters.length then
    Action.fail (.functionArity f.displayName f.parameters.length arguments.length) position
  else if limit ≤ (← Action.depth) then
    Action.fail (.recursionLimit limit) position
  else
    Action.inCall f (parameterBindings f arguments) position (recur f.body)

/-- Calls a function that is there from the beginning. -/
def callBuiltin (b : Builtin) (arguments : List (Supplied κ))
    (position : Position) : Action σ κ (Value κ) := do
  refuseNames b.name arguments
  let cells ← Action.cells
  let (v, printed) ← Action.ofExcept position (b.run cells (arguments.map Supplied.value))
  Action.print printed
  return v

/-- Makes an instance of a struct. -/
def construct (type : StructType) (arguments : List (Supplied κ))
    (position : Position) : Action σ κ (Value κ) :=
  match type.construct arguments position with
  | .ok values => Action.makeObject type values
  | .error (fault, position) => Action.fail fault position

/-- Calls a value. -/
def call (callee : Value κ) (arguments : List (Supplied κ))
    (position : Position) : Action σ κ (Value κ) :=
  match callee with
  | .function f => callFunction recur limit f arguments position
  | .builtin b => callBuiltin b arguments position
  | .structType type => construct type arguments position
  | v => Action.fail (.notCallable v.typeName) position

/-- The type and the cell of the instance whose field is mentioned. -/
def expectObject (v : Value κ) (field : String)
    (position : Position) : Action σ κ (StructType × CellId) :=
  match v with
  | .object type cell => return (type, cell)
  | v => Action.fail (.notAnObject field v.typeName) position

/-- The value of a field. -/
def member (target : Value κ) (field : String) (position : Position) : Action σ κ (Value κ) := do
  let (type, cell) ← expectObject target field position
  match type.fieldIndex? field with
  | none => Action.fail (.unknownField type.name field) position
  | some i =>
    match ← Action.readField cell i with
    | some v => return v
    | none => Action.fail (.unknownField type.name field) position

/-- Puts a value into a field of an instance. -/
def setMember (type : StructType) (cell : CellId) (field : String) (v : Value κ)
    (position : Position) : Action σ κ (Value κ) := do
  match type.fieldIndex? field with
  | none => Action.fail (.unknownField type.name field) position
  | some i =>
    match type.fields[i]? with
    | none => Action.fail (.unknownField type.name field) position
    | some f =>
      let v ← Action.ofExcept position (type.conformField f v)
      Action.writeField cell i v
      return v

/-- Evaluates the value of an assignment.  A definition without a name takes that of the
variable. -/
def assigned (name : String) : Expr → Action σ κ (Value κ)
  | .function none parameters body _ => Action.makeFunction (some name) parameters body
  | .struct none fields _ => Action.makeStruct name fields
  | e => recur e

/-- Evaluates one node of a tree. -/
def node : Expr → Action σ κ (Value κ)
  | .literal value _ => return value.toValue
  | .identifier name position => do
    match ← Action.lookup name with
    | some v => return v
    | none => Action.fail (.undefinedVariable name) position
  | .assign name value _ => do
    let v ← assigned recur name value
    Action.define name v
    return v
  | .binary .and left right _ => do
    let v ← recur left
    if v.truthy then return .bool (← recur right).truthy else return .bool false
  | .binary .or left right _ => do
    let v ← recur left
    if v.truthy then return .bool true else return .bool (← recur right).truthy
  | .binary operator left right position => do
    let v ← recur left
    let w ← recur right
    Action.ofExcept position (Operator.binary operator v w)
  | .unary operator operand position => do
    let v ← recur operand
    Action.ofExcept position (Operator.unary operator v)
  | .not operand _ => return .bool !(← recur operand).truthy
  | .call callee arguments position => do
    let f ← recur callee
    let supplied ← supply recur arguments
    call recur limit f supplied position
  | .member target field position => do
    let v ← recur target
    member v field position
  | .memberSet target field value position => do
    let v ← recur target
    let (type, cell) ← expectObject v field position
    let w ← recur value
    setMember type cell field w position
  | .choice branches otherwise _ => choose recur otherwise branches
  | .forLoop name first bound step body position => do
    let first ← recur first
    let bound ← recur bound
    forLoop recur steps name first bound step body position
  | .whileLoop condition body _ => whileRounds recur condition body steps .null
  | .function name parameters body _ => do
    let f ← Action.makeFunction name parameters body
    Action.defineNamed name f
    return f
  | .struct name fields _ => do
    let t ← Action.makeStruct (name.getD "<anonymous>") fields
    Action.defineNamed name t
    return t
  | .returning none _ => throw (.returned .null)
  | .returning (some value) _ => do
    let v ← recur value
    throw (.returned v)
  | .block items _ => sequence recur .null items

end Evaluation

/-- Evaluates an expression with calls up to a depth of `limit`. -/
def evaluate {σ κ : Type} [Runtime σ κ] (limit : Nat) : Nat → Expr → Action σ κ (Value κ)
  | 0, _ => throw .exhausted
  | steps + 1, e => Evaluation.node (evaluate limit steps) limit steps e

end SnapshotScript
