import SnapshotScript.Proofs.Observer
import SnapshotScript.Proofs.Results

/-!
# Runs under observation

What holds at every moment of a run cannot be read off the machine that the run leaves.  So here the
state of a run is a machine together with all that has been observed: the machine after each single
operation, the struct with which each instance was made, and each access to a field.  The
observation does not influence the run.
-/

namespace SnapshotScript

/-- A machine at some moment, with the structs of its instances in the order in which they were
made. -/
structure Moment where
  machine : Machine
  types : Array StructType

/-- An access to a field, with the moment at which it happened. -/
structure Access where
  moment : Moment
  cell : CellId
  /-- The place of the field. -/
  index : Nat

/-- The machine of a run, with what has been observed of the run so far. -/
structure Watch extends Moment where
  /-- All moments of the run, the last one first. -/
  moments : List Moment
  accesses : List Access

namespace Watch

/-- The watch before the first program. -/
def initial : Watch where
  machine := .initial
  types := #[]
  moments := [⟨.initial, #[]⟩]
  accesses := []

/-- Observes the next machine of the run. -/
def next (m : Machine) (w : Watch) : Watch :=
  { w with machine := m, moments := ⟨m, w.types⟩ :: w.moments }

/-- Observes an access to a field. -/
def access (cell : CellId) (i : Nat) (w : Watch) : Watch :=
  { w with accesses := ⟨w.toMoment, cell, i⟩ :: w.accesses }

/-- Observes the machine with a new instance. -/
def made (type : StructType) (m : Machine) (w : Watch) : Watch :=
  { w with types := w.types.push type }.next m

/-- Each machine is observed, and so is the instance or the field that the operation concerns. -/
def observer : Observer Watch Machine FrameId where
  state w := w.machine
  notice
    | .makeObject type _, m, w => w.made type m
    | .readField cell i, m, w => (w.access cell i).next m
    | .writeField cell i _, m, w => (w.access cell i).next m
    | _, m, w => w.next m
  state_notice step _ _ := by cases step <;> rfl

instance : Runtime Watch FrameId :=
  observer.runtime

end Watch

/-! ### What has to hold at every moment -/

/-- A name is bound to the value in some frame. -/
def Scopes.Holds (s : Scopes) (v : Value) : Prop :=
  ∃ (f : FrameId) (frame : Frame) (name : String),
    s.frames[f]? = some frame ∧ (name, v) ∈ frame.bindings

/-- The machine holds the value in a frame or in a field. -/
def Machine.Holds (m : Machine) (v : Value) : Prop :=
  m.scopes.Holds v ∨
    ∃ (cell : CellId) (values : List Value), m.cells[cell]? = some values ∧ v ∈ values

/-- Instances match their declaration: the names of the fields are distinct, there is one value for
each field, and it conforms to the field as it is.  What refers to an instance does so with the
struct with which the instance was made. -/
structure Moment.Matches (moment : Moment) : Prop where
  instances : ∀ (cell : CellId) (values : List Value), moment.machine.cells[cell]? = some values →
    ∃ type, moment.types[cell]? = some type ∧ (type.fields.map Field.name).Nodup ∧
      type.Fits values
  references : ∀ type cell, moment.machine.Holds (.object type cell) →
    moment.types[cell]? = some type

/-- The access is to a field that the instance declares and has. -/
def Access.InRange (a : Access) : Prop :=
  ∃ type values, a.moment.types[a.cell]? = some type ∧
    a.moment.machine.cells[a.cell]? = some values ∧ a.index < type.fields.length ∧
      a.index < values.length

namespace Interpreter

variable {σ κ : Type} [Runtime σ κ]

/-- The results of source texts that are read and evaluated one after another, whether they fail or
not, and the interpreter afterwards. -/
def evaluateAll (i : Interpreter σ) : List String → List (Except Failure (Value κ)) × Interpreter σ
  | [] => ([], i)
  | source :: sources =>
    let (result, i) := i.evaluateSource source
    let (results, i) := i.evaluateAll sources
    (result :: results, i)

end Interpreter

end SnapshotScript
