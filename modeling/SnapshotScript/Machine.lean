import SnapshotScript.Runtime

/-!
# The state of a run

A machine holds all that a running program can change: the frames of names and the frame that is
current, the fields of the instances, the active calls, and a journal of what the program has
printed and of its log entries.
-/

namespace SnapshotScript

/-- The state of a run. -/
structure Machine where
  scopes : Scopes
  cells : Cells
  /-- The innermost frame. -/
  current : FrameId
  /-- The active calls, the outermost one first. -/
  calls : Array ActiveCall
  /-- The identity of the next struct type or function. -/
  nextId : Nat
  journal : Array Event

namespace Machine

/-- The state before the first program. -/
def initial : Machine :=
  let (globals, scopes) := Scopes.empty.addGlobals
  { scopes, cells := #[], current := globals, calls := #[], nextId := 0, journal := #[] }

/-- The value of a name in the current frame or its ancestors. -/
def lookup (m : Machine) (name : String) : Option Value :=
  m.scopes.lookup m.current name

/-- Adds an event to the journal. -/
def record (e : Event) (m : Machine) : Machine :=
  { m with journal := m.journal.push e }

/-- Binds a name in the current frame, or in a copy that takes its place. -/
def define (name : String) (v : Value) (m : Machine) : Machine :=
  let (frame, scopes) := m.scopes.define m.current name v
  { m with scopes := scopes, current := frame }

/-- The current frame, which a function keeps.  It is captured, so that the names keep their
values. -/
def capture (m : Machine) : FrameId × Machine :=
  (m.current, { m with scopes := m.scopes.capture m.current })

/-- Adds an empty frame below the current one. -/
def enterFrame (m : Machine) : Machine :=
  let (frame, scopes) := m.scopes.addChild m.current
  { m with scopes := scopes, current := frame }

/-- Adds a call, and a frame below that of the function in which names are bound one after the
other. -/
def enterCall (f : Function) (names : Bindings) (site : Position) (m : Machine) : Machine :=
  let (frame, scopes) := m.scopes.addChild f.closure
  let (frame, scopes) := scopes.defineAll frame names
  let entry := .logged (.calling f.displayName (m.calls.size + 1))
  { m with
    scopes := scopes
    current := frame
    calls := m.calls.push ⟨f.displayName, site⟩
    journal := m.journal.push entry }

/-- Adds the fields of an instance. -/
def makeObject (type : StructType) (values : List Value) (m : Machine) : Value × Machine :=
  (.object type m.cells.size, { m with cells := m.cells.push values })

/-- Puts a value into a field. -/
def writeField (cell : CellId) (i : Nat) (v : Value) (m : Machine) : Machine :=
  { m with cells := m.cells.modify cell fun values => values.set i v }

instance : Runtime Machine FrameId where
  lookup := lookup
  lookupHere m := m.scopes.lookupHere m.current
  define := define
  place := current
  capture := capture
  enterFrame := enterFrame
  leaveFrame saved m := { m with current := saved }
  enterCall := enterCall
  leaveCall saved m := { m with current := saved, calls := m.calls.pop }
  calls := calls
  forgetCalls m := { m with calls := #[] }
  cells := cells
  makeObject := makeObject
  readField cell i m := ((m.cells.getD cell [])[i]?, m)
  writeField := writeField
  freshId m := (m.nextId, { m with nextId := m.nextId + 1 })
  record := record

end Machine

/-- A part of a run of a machine. -/
abbrev Run := Action Machine FrameId

end SnapshotScript
