import SnapshotScript.Proofs.Recasting

/-!
# Values and the places of functions

The places that functions keep can be replaced while all else stays: the bodies of the functions and
the positions of arguments.  This is one way to recast values, and so every operation on values
commutes with `Value.map`.
-/

namespace SnapshotScript

variable {κ κ' κ'' : Type}

/-! ### Other places -/

/-- The function with another place. -/
def Function.map (g : κ → κ') (f : Function κ) : Function κ' :=
  ⟨f.id, f.name, f.parameters, f.body, g f.closure⟩

/-- The value with another place in it, if it is a function. -/
def Value.map (g : κ → κ') : Value κ → Value κ'
  | .int n => .int n
  | .float x => .float x
  | .str text => .str text
  | .bool b => .bool b
  | .null => .null
  | .structType type => .structType type
  | .object type cell => .object type cell
  | .function f => .function (f.map g)
  | .builtin b => .builtin b

/-- The argument with another place in its value. -/
def Supplied.map (g : κ → κ') (a : Supplied κ) : Supplied κ' :=
  ⟨a.name, a.value.map g, a.position⟩

/-- The names with other places in their values. -/
def Bindings.map (g : κ → κ') (bs : Bindings κ) : Bindings κ' :=
  List.map (fun b => (b.1, b.2.map g)) bs

/-- The fields of instances with other places in them. -/
def Cells.map (g : κ → κ') (cells : Cells κ) : Cells κ' :=
  Array.map (List.map (Value.map g)) cells

variable (g : κ → κ')

/-- To replace places twice is to replace them once. -/
@[simp] theorem Value.map_map (h : κ' → κ'') (v : Value κ) :
    (v.map g).map h = v.map (h ∘ g) := by
  cases v <;> rfl

/-- To replace places twice is to replace them once. -/
@[simp] theorem Bindings.map_map (h : κ' → κ'') (bs : Bindings κ) :
    Bindings.map h (Bindings.map g bs) = Bindings.map (h ∘ g) bs := by
  simp [Bindings.map]

/-- To replace places twice is to replace them once. -/
@[simp] theorem Cells.map_map (h : κ' → κ'') (cells : Cells κ) :
    Cells.map h (Cells.map g cells) = Cells.map (h ∘ g) cells := by
  simp [Cells.map, Function.comp_def]

/-- To replace no place changes nothing. -/
@[simp] theorem Value.map_id (v : Value κ) : v.map id = v := by
  cases v <;> rfl

/-- To replace no place changes nothing. -/
@[simp] theorem Cells.map_id (cells : Cells κ) : cells.map id = cells := by
  have hvalues : Value.map (id : κ → κ) = id := funext Value.map_id
  rw [Cells.map, hvalues, List.map_id_fun]
  exact Array.map_id cells

/-! ### Operations on values -/

/-- Other places, with everything in its own position. -/
abbrev Recast.onPlaces : Recast κ κ' where
  closure := g
  position := id

/-- To replace places is to recast values, with everything in its own position. -/
theorem Value.map_eq_recast : Value.map g = Value.recast (.onPlaces g) := by
  funext v
  cases v with
  | function f =>
    simp only [Value.map, Function.map, Value.recast, Function.recast, Expr.relocate_id]
  | _ => rfl

/-- To replace places is to recast values, with everything in its own position. -/
theorem Supplied.map_eq_recast : Supplied.map g = Supplied.recast (.onPlaces g) := by
  funext a
  rw [Supplied.map, Value.map_eq_recast]
  rfl

/-- To replace places is to recast values, with everything in its own position. -/
theorem Bindings.map_eq_recast : Bindings.map g = Bindings.recast (.onPlaces g) := by
  funext bs
  rw [Bindings.map, Value.map_eq_recast]
  rfl

/-- To replace places is to recast values, with everything in its own position. -/
theorem Cells.map_eq_recast : Cells.map g = Cells.recast (.onPlaces g) := by
  funext cells
  rw [Cells.map, Value.map_eq_recast]
  rfl

namespace Value

@[simp] theorem typeName_map (v : Value κ) : (v.map g).typeName = v.typeName := by
  rw [map_eq_recast, typeName_recast]

@[simp] theorem truthy_map (v : Value κ) : (v.map g).truthy = v.truthy := by
  rw [map_eq_recast, truthy_recast]

@[simp] theorem isNumber_map (v : Value κ) : (v.map g).isNumber = v.isNumber := by
  rw [map_eq_recast, isNumber_recast]

@[simp] theorem compareNumbers?_map (v w : Value κ) :
    (v.map g).compareNumbers? (w.map g) = v.compareNumbers? w := by
  rw [map_eq_recast, compareNumbers?_recast]

end Value

@[simp] theorem Literal.toValue_map (l : Literal) : (l.toValue : Value κ).map g = l.toValue := by
  rw [Value.map_eq_recast, toValue_recast]

namespace Bindings

@[simp] theorem find?_map (name : String) (bs : Bindings κ) :
    (bs.map g).find? name = (bs.find? name).map (Value.map g) := by
  rw [map_eq_recast, Value.map_eq_recast, find?_recast]

@[simp] theorem insert_map (name : String) (v : Value κ) (bs : Bindings κ) :
    insert name (v.map g) (bs.map g) = (insert name v bs).map g := by
  rw [map_eq_recast, Value.map_eq_recast, insert_recast]

end Bindings

namespace Operator

/-- The results of binary operators correspond where the operands do. -/
@[simp] theorem binary_map (operator : BinaryOperator) (v w : Value κ) :
    binary operator (v.map g) (w.map g) = (binary operator v w).map (Value.map g) := by
  rw [Value.map_eq_recast, binary_recast]

/-- The results of unary operators correspond where the operands do. -/
@[simp] theorem unary_map (operator : UnaryOperator) (v : Value κ) :
    unary operator (v.map g) = (unary operator v).map (Value.map g) := by
  rw [Value.map_eq_recast, unary_recast]

@[simp] theorem stepDirection_map (step : Value κ) :
    stepDirection (step.map g) = stepDirection step := by
  rw [Value.map_eq_recast, stepDirection_recast]

end Operator

/-- The results of builtin functions correspond where the arguments do. -/
theorem Builtin.run_map (cells : Cells κ) (b : Builtin) (vs : List (Value κ)) :
    b.run (Cells.map g cells) (vs.map (Value.map g)) =
      (b.run cells vs).map fun result => (result.1.map g, result.2) := by
  rw [Value.map_eq_recast, Cells.map_eq_recast, run_recast]

/-- Fields take the same values. -/
theorem StructType.conformField_map (t : StructType) (f : Field) (v : Value κ) :
    t.conformField f (v.map g) = (t.conformField f v).map (Value.map g) := by
  rw [Value.map_eq_recast, conformField_recast]

/-- Instances made from corresponding arguments correspond. -/
theorem StructType.construct_map (t : StructType) (arguments : List (Supplied κ))
    (position : Position) :
    t.construct (arguments.map (Supplied.map g)) position =
      (t.construct arguments position).map (List.map (Value.map g)) := by
  rw [Value.map_eq_recast, Supplied.map_eq_recast]
  refine (construct_recast (.onPlaces g) t arguments position).trans ?_
  cases t.construct arguments position <;> rfl

end SnapshotScript
