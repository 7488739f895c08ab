import SnapshotScript.Fault
import SnapshotScript.Value

/-!
# Making instances

The arguments of a struct are given in the order of its fields or with their names.  They are first
brought into the order of the fields; then each has to conform to its field.
-/

namespace SnapshotScript

/-- An argument of a call after its evaluation. -/
structure Supplied (κ : Type := FrameId) where
  name : Option String
  value : Value κ
  position : Position

/-- A fault and the place to which it is attributed. -/
abbrev Misfit := Fault × Position

namespace StructType

variable {κ : Type}

/-- A place for the argument of each field. -/
abbrev Slots (κ : Type := FrameId) := List (Option (Supplied κ))

/-- Puts arguments into the places of the fields that they name. -/
def fillSlots (t : StructType) : List (Supplied κ) → Slots κ → Except Misfit (Slots κ)
  | [], slots => .ok slots
  | argument :: rest, slots =>
    let name := argument.name.getD ""
    match t.fieldIndex? name with
    | none => .error (.unknownField t.name name, argument.position)
    | some i =>
      if (slots.getD i none).isSome then
        .error (.repeatedField t.name name, argument.position)
      else t.fillSlots rest (slots.set i (some argument))

/-- Takes the arguments out of their places.  The first field without one is missing. -/
def emptySlots (t : StructType) (position : Position) :
    List Field → Slots κ → Except Misfit (List (Supplied κ))
  | f :: fields, slot :: slots =>
    match slot with
    | some argument => return argument :: (← t.emptySlots position fields slots)
    | none => .error (.missingField t.name f.name, position)
  | _, _ => .ok []

/-- The arguments in the order of the fields. -/
def arrange (t : StructType) (arguments : List (Supplied κ)) (position : Position) :
    Except Misfit (List (Supplied κ)) :=
  let named := arguments.countP fun a => a.name.isSome
  if named = 0 then
    if arguments.length = t.fields.length then .ok arguments
    else .error (.structArity t.name t.fields.length arguments.length, position)
  else if named = arguments.length then do
    let slots ← t.fillSlots arguments (t.fields.map fun _ => none)
    t.emptySlots position t.fields slots
  else .error (.mixedArguments t.name, position)

/-- The value as the field holds it. -/
def conformField (t : StructType) (f : Field) (v : Value κ) : Except Fault (Value κ) :=
  match v.conform? f.tag with
  | some v => .ok v
  | none => .error (.fieldType t.name f v.typeName)

/-- The values of the arguments as the fields hold them. -/
def conformAll (t : StructType) :
    List Field → List (Supplied κ) → Except Misfit (List (Value κ))
  | f :: fields, argument :: arguments =>
    match t.conformField f argument.value with
    | .ok v => return v :: (← t.conformAll fields arguments)
    | .error fault => .error (fault, argument.position)
  | _, _ => .ok []

/-- The values of the fields of an instance that is made from the arguments at the given place. -/
def construct (t : StructType) (arguments : List (Supplied κ)) (position : Position) :
    Except Misfit (List (Value κ)) := do
  t.conformAll t.fields (← t.arrange arguments position)

end StructType

end SnapshotScript
