import SnapshotScript.Builtin
import SnapshotScript.Log
import SnapshotScript.Scope

/-!
# What a run asks of its state

The evaluation of expressions does not depend on how the state of a run holds the names, the fields
of the instances and the active calls.  It only uses the operations of `Runtime`.  At each moment
names are looked up from some place, and a function keeps the place where it was defined.  What a
place is depends on the state too.
-/

namespace SnapshotScript

/-- What a run leaves behind in the order in which it happens. -/
inductive Event where
  /-- The program printed a text. -/
  | printed (text : String)
  | logged (entry : LogEntry)
deriving DecidableEq, Repr

/-- A type `σ` of states for runs in which places are of type `κ`. -/
class Runtime (σ : Type) (κ : outParam Type) where
  /-- The value of a name. -/
  lookup : σ → String → Option (Value κ)
  /-- The value of a name in the innermost frame, without those around it. -/
  lookupHere : σ → String → Option (Value κ)
  /-- Binds a name in the innermost frame. -/
  define : String → Value κ → σ → σ
  /-- The current place. -/
  place : σ → κ
  /-- The current place for a function to keep, with the values that the names have now. -/
  capture : σ → κ × σ
  /-- Opens an empty frame inside of the current one. -/
  enterFrame : σ → σ
  /-- Goes back to an earlier place. -/
  leaveFrame : κ → σ → σ
  /-- Begins a call from a position, in a frame with the given bindings inside of the place that the
  function keeps. -/
  enterCall : Function κ → Bindings κ → Position → σ → σ
  /-- Ends the innermost call and goes back to an earlier place. -/
  leaveCall : κ → σ → σ
  /-- The active calls, the outermost one first. -/
  calls : σ → Array ActiveCall
  /-- Ends all calls. -/
  forgetCalls : σ → σ
  cells : σ → Cells κ
  /-- A new instance with the given fields. -/
  makeObject : StructType → List (Value κ) → σ → Value κ × σ
  /-- The value of a field, told by its place in the declaration. -/
  readField : CellId → Nat → σ → Option (Value κ) × σ
  writeField : CellId → Nat → Value κ → σ → σ
  /-- An identity that has not been used before. -/
  freshId : σ → Nat × σ
  /-- Adds an event to the journal. -/
  record : Event → σ → σ

/-- Why the evaluation of an expression ended early. -/
inductive Unwind (κ : Type := FrameId) where
  /-- A `return` gave a value to the call around it. -/
  | returned (v : Value κ)
  | failed (e : RuntimeError)
  /-- The steps that were allowed did not suffice.  This is no outcome of the program. -/
  | exhausted

/-- A part of a run: it changes the state, and ends with a result or early. -/
abbrev Action (σ κ : Type) := EStateM (Unwind κ) σ

namespace Action

variable {σ κ α : Type} [Runtime σ κ]

/-- Ends with a fault at a position. -/
def fail (fault : Fault) (position : Position) : Action σ κ α := fun s =>
  .error (.failed ⟨fault, position, (Runtime.calls s).toList⟩) s

/-- A result, or its fault at a position. -/
def ofExcept (position : Position) : Except Fault α → Action σ κ α
  | .ok x => pure x
  | .error fault => fail fault position

/-- The value of a name. -/
def lookup (name : String) : Action σ κ (Option (Value κ)) := fun s =>
  .ok (Runtime.lookup s name) s

/-- The value of a name in the innermost frame. -/
def lookupHere (name : String) : Action σ κ (Option (Value κ)) := fun s =>
  .ok (Runtime.lookupHere s name) s

/-- How many calls are active. -/
def depth : Action σ κ Nat := fun s =>
  .ok (Runtime.calls s).size s

/-- The fields of the instances. -/
def cells : Action σ κ (Cells κ) := fun s =>
  .ok (Runtime.cells s) s

/-- Adds an event to the journal. -/
def record (e : Event) : Action σ κ Unit :=
  modify (Runtime.record e)

/-- Binds a name in the current frame. -/
def define (name : String) (v : Value κ) : Action σ κ Unit :=
  modify (Runtime.define name v)

/-- Binds a definition in the current frame, if it has a name. -/
def defineNamed (name : Option String) (v : Value κ) : Action σ κ Unit :=
  match name with
  | some name => define name v
  | none => return ()

/-- Prints a text, if there is one. -/
def print (text : Option String) : Action σ κ Unit :=
  match text with
  | some text => record (.printed text)
  | none => return ()

/-- A new struct type. -/
def makeStruct (name : String) (fields : List Field) : Action σ κ (Value κ) := do
  let id ← modifyGet Runtime.freshId
  return .structType ⟨id, name, fields⟩

/-- A new function, which keeps the values that the names have now. -/
def makeFunction (name : Option String) (parameters : List String) (body : Expr) :
    Action σ κ (Value κ) := do
  let id ← modifyGet Runtime.freshId
  let closure ← modifyGet Runtime.capture
  return .function ⟨id, name, parameters, body, closure⟩

/-- A new instance with the given fields. -/
def makeObject (type : StructType) (values : List (Value κ)) : Action σ κ (Value κ) := do
  record (.logged (.constructed type.name values.length))
  modifyGet (Runtime.makeObject type values)

/-- The value of a field. -/
def readField (cell : CellId) (i : Nat) : Action σ κ (Option (Value κ)) :=
  modifyGet (Runtime.readField cell i)

/-- Puts a value into a field. -/
def writeField (cell : CellId) (i : Nat) (v : Value κ) : Action σ κ Unit :=
  modify (Runtime.writeField cell i v)

/-- Runs `body` in a new frame inside of the current one, and goes back to the current one in any
case. -/
def inFrame (body : Action σ κ α) : Action σ κ α := fun s =>
  let saved := Runtime.place s
  match body (Runtime.enterFrame s) with
  | .ok x s => .ok x (Runtime.leaveFrame saved s)
  | .error u s => .error u (Runtime.leaveFrame saved s)

/-- Runs the body of a function as an active call, in a new frame with the bindings `names`.  In any
case the call ends with it and the current frame is as before.  A `return` ends the body only. -/
def inCall (f : Function κ) (names : Bindings κ) (site : Position)
    (body : Action σ κ (Value κ)) : Action σ κ (Value κ) := fun s =>
  let saved := Runtime.place s
  match body (Runtime.enterCall f names site s) with
  | .ok v s => .ok v (Runtime.leaveCall saved s)
  | .error (.returned v) s => .ok v (Runtime.leaveCall saved s)
  | .error u s => .error u (Runtime.leaveCall saved s)

end Action

end SnapshotScript
