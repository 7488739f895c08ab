import SnapshotScript.Runtime

/-!
# Environments as values

The plain way to think of the names in a program: an environment is a list of maps, the innermost
one first, and never changes.  A binding gives a new environment, and a function simply holds the
one in which it was defined.  There are no frames to be shared, marked or copied.

Instances remain shared cells, and calls, identities and the journal are kept as they are in a
machine.
-/

namespace SnapshotScript

/-- An environment: maps from names to values, the innermost one first.  A function in it holds the
environment of its definition. -/
inductive Environment where
  | of (maps : List (List (String × Value Environment)))

namespace Environment

/-- The maps of an environment, the innermost one first. -/
def maps : Environment → List (Bindings Environment)
  | of maps => maps

/-- The value of a name in the first of the maps that has it. -/
def find? (name : String) : List (Bindings Environment) → Option (Value Environment)
  | [] => none
  | map :: maps =>
    match map.find? name with
    | some v => some v
    | none => find? name maps

/-- The value of a name. -/
def lookup (e : Environment) (name : String) : Option (Value Environment) :=
  find? name e.maps

/-- The value of a name in the innermost map. -/
def lookupHere (e : Environment) (name : String) : Option (Value Environment) :=
  (e.maps.headD []).find? name

/-- The environment with one name bound in the innermost map. -/
def set (name : String) (v : Value Environment) (e : Environment) : Environment :=
  of ((e.maps.headD []).insert name v :: e.maps.tail)

/-- The environment with another map inside. -/
def push (map : Bindings Environment) (e : Environment) : Environment :=
  of (map :: e.maps)

end Environment

namespace Snapshot

/-- The state of a run in which environments are values. -/
structure State where
  environment : Environment
  cells : Cells Environment
  /-- The active calls, the outermost one first. -/
  calls : Array ActiveCall
  /-- The identity of the next struct type or function. -/
  nextId : Nat
  journal : Array Event

namespace State

/-- Begins a call: the map with the names stands inside the environment that the function holds. -/
def enterCall (f : Function Environment) (names : Bindings Environment) (site : Position)
    (s : State) : State :=
  { s with
    environment := f.closure.push (names.foldl (fun map b => map.insert b.1 b.2) [])
    calls := s.calls.push ⟨f.displayName, site⟩
    journal := s.journal.push (.logged (.calling f.displayName (s.calls.size + 1))) }

instance : Runtime State Environment where
  lookup s := s.environment.lookup
  lookupHere s := s.environment.lookupHere
  define name v s := { s with environment := s.environment.set name v }
  place := environment
  capture s := (s.environment, s)
  enterFrame s := { s with environment := s.environment.push [] }
  leaveFrame saved s := { s with environment := saved }
  enterCall := enterCall
  leaveCall saved s := { s with environment := saved, calls := s.calls.pop }
  calls := calls
  forgetCalls s := { s with calls := #[] }
  cells := cells
  makeObject type values s :=
    (.object type s.cells.size, { s with cells := s.cells.push values })
  readField cell i s := ((s.cells.getD cell [])[i]?, s)
  writeField cell i v s :=
    { s with cells := s.cells.modify cell fun values => values.set i v }
  freshId s := (s.nextId, { s with nextId := s.nextId + 1 })
  record e s := { s with journal := s.journal.push e }

end State

end Snapshot

end SnapshotScript
