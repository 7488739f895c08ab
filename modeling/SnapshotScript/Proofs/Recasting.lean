import SnapshotScript.Builtin
import SnapshotScript.Construction
import SnapshotScript.Operator
import SnapshotScript.Scope
import SnapshotScript.Tree.Relocation

/-!
# Values and what functions keep

No operation on values looks at the bodies of functions or at the places that they keep, and
positions are only handed on.  So to replace all of these, and then to operate on the values, is the
same as to operate first: each operation commutes with `Value.recast`.  It follows that the results
correspond wherever the operands do.
-/

namespace SnapshotScript

variable {κ κ' : Type}

/-! ### Other places and other positions -/

/-- What is put in place of what functions keep and of positions. -/
structure Recast (κ κ' : Type) where
  closure : κ → κ'
  position : Position → Position

/-- Everything in its own place. -/
abbrev Recast.refl {κ : Type} : Recast κ κ where
  closure := id
  position := id

/-- The function with another place, and with its body in other positions. -/
def Function.recast (r : Recast κ κ') (f : Function κ) : Function κ' :=
  ⟨f.id, f.name, f.parameters, f.body.relocate r.position, r.closure f.closure⟩

/-- The value with another function in it, if it is a function. -/
def Value.recast (r : Recast κ κ') : Value κ → Value κ'
  | .int n => .int n
  | .float x => .float x
  | .str text => .str text
  | .bool b => .bool b
  | .null => .null
  | .structType type => .structType type
  | .object type cell => .object type cell
  | .function f => .function (f.recast r)
  | .builtin b => .builtin b

/-- The argument with another value in another position. -/
def Supplied.recast (r : Recast κ κ') (a : Supplied κ) : Supplied κ' :=
  ⟨a.name, a.value.recast r, r.position a.position⟩

/-- The names with other values. -/
def Bindings.recast (r : Recast κ κ') (bs : Bindings κ) : Bindings κ' :=
  List.map (fun b => (b.1, b.2.recast r)) bs

/-- The fields of instances with other values. -/
def Cells.recast (r : Recast κ κ') (cells : Cells κ) : Cells κ' :=
  Array.map (List.map (Value.recast r)) cells

/-- Another result, or the fault in another position. -/
def Misfit.mapResult {α β : Type} (π : Position → Position) (f : α → β) :
    Except Misfit α → Except Misfit β
  | .ok a => .ok (f a)
  | .error (fault, p) => .error (fault, π p)

variable (r : Recast κ κ')

/-- To put everything in its own place changes nothing. -/
@[simp] theorem Function.recast_refl (f : Function κ) : f.recast .refl = f := by
  rw [Function.recast, Expr.relocate_id]
  rfl

/-- To put everything in its own place changes nothing. -/
@[simp] theorem Value.recast_refl (v : Value κ) : v.recast .refl = v := by
  cases v with
  | function f => rw [Value.recast, Function.recast_refl]
  | _ => rfl

/-- To put everything in its own place changes nothing. -/
@[simp] theorem Value.recast_refl_fun : (Value.recast .refl : Value κ → Value κ) = id :=
  funext Value.recast_refl

/-- To put everything in its own place changes nothing. -/
@[simp] theorem Bindings.recast_refl (bs : Bindings κ) : bs.recast .refl = bs := by
  simp [Bindings.recast]

/-- To put everything in its own place changes nothing. -/
@[simp] theorem Cells.recast_refl (cells : Cells κ) : cells.recast .refl = cells := by
  rw [Cells.recast, Value.recast_refl_fun, List.map_id_fun]
  exact Array.map_id cells

/-! ### What does not depend on functions -/

namespace Value

@[simp] theorem typeName_recast (v : Value κ) : (v.recast r).typeName = v.typeName := by
  cases v <;> rfl

@[simp] theorem truthy_recast (v : Value κ) : (v.recast r).truthy = v.truthy := by
  cases v <;> rfl

@[simp] theorem isNumber_recast (v : Value κ) : (v.recast r).isNumber = v.isNumber := by
  cases v <;> rfl

@[simp] theorem numericPair?_recast (v w : Value κ) :
    (v.recast r).numericPair? (w.recast r) = v.numericPair? w := by
  cases v <;> cases w <;> rfl

@[simp] theorem compareNumbers?_recast (v w : Value κ) :
    (v.recast r).compareNumbers? (w.recast r) = v.compareNumbers? w := by
  simp only [compareNumbers?, numericPair?_recast]

@[simp] theorem conform?_recast (tag : TypeTag) (v : Value κ) :
    (v.recast r).conform? tag = (v.conform? tag).map (Value.recast r) := by
  cases tag <;> cases v <;> try rfl
  simp only [Value.recast, conform?]
  split <;> rfl

/-- The text of a value mentions no place. -/
@[simp] theorem displayWithin_recast (cells : Cells κ) (levels : Nat) (v : Value κ) :
    (v.recast r).displayWithin (Cells.recast r cells) levels = v.displayWithin cells levels := by
  induction levels generalizing v with
  | zero => cases v <;> rfl
  | succ levels ih =>
    cases v with
    | object type cell =>
      have hcell : (Cells.recast r cells).getD cell [] =
          List.map (Value.recast r) (cells.getD cell []) := by
        simp only [Cells.recast, Array.getD_eq_getD_getElem?, Array.getElem?_map]
        cases cells[cell]? <;> rfl
      change displayWithin (Cells.recast r cells) (levels + 1) (.object type cell) = _
      simp only [displayWithin, hcell, List.zipWith_map_right, ih]
    | _ => rfl

/-- The text of a value as it is printed mentions no place. -/
@[simp] theorem display_recast (cells : Cells κ) (v : Value κ) :
    (v.recast r).display (Cells.recast r cells) = v.display cells := by
  cases v with
  | str text => rfl
  | _ => exact displayWithin_recast r cells displayLevels _

end Value

@[simp] theorem Literal.toValue_recast (l : Literal) :
    (l.toValue : Value κ).recast r = l.toValue := by
  cases l <;> rfl

namespace Bindings

@[simp] theorem find?_recast (name : String) (bs : Bindings κ) :
    (bs.recast r).find? name = (bs.find? name).map (Value.recast r) := by
  induction bs with
  | nil => rfl
  | cons b bs ih =>
    change (if b.1 = name then some (b.2.recast r) else find? name (Bindings.recast r bs)) = _
    rw [ih]
    simp only [find?]
    split <;> rfl

@[simp] theorem insert_recast (name : String) (v : Value κ) (bs : Bindings κ) :
    insert name (v.recast r) (bs.recast r) = (insert name v bs).recast r := by
  induction bs with
  | nil => rfl
  | cons b bs ih =>
    change (if b.1 = name then (name, v.recast r) :: Bindings.recast r bs
      else (b.1, b.2.recast r) :: insert name (v.recast r) (Bindings.recast r bs)) = _
    rw [ih]
    simp only [insert]
    split <;> rfl

end Bindings

/-! ### Operators -/

namespace Operator

@[simp] theorem intOr_recast (n? : Option Int64) (x : Float) :
    (intOr n? x : Value κ).recast r = intOr n? x := by
  cases n? <;> rfl

@[simp] theorem sum_recast (pair : NumericPair) : (sum pair : Value κ).recast r = sum pair := by
  cases pair with
  | ints m n => exact intOr_recast r _ _
  | floats x y => rfl

@[simp] theorem difference_recast (pair : NumericPair) :
    (difference pair : Value κ).recast r = difference pair := by
  cases pair with
  | ints m n => exact intOr_recast r _ _
  | floats x y => rfl

@[simp] theorem product_recast (pair : NumericPair) :
    (product pair : Value κ).recast r = product pair := by
  cases pair with
  | ints m n => exact intOr_recast r _ _
  | floats x y => rfl

@[simp] theorem power_recast (pair : NumericPair) :
    (power pair : Value κ).recast r = power pair := by
  cases pair with
  | ints m n => exact intOr_recast r _ _
  | floats x y => rfl

@[simp] theorem quotient_recast (pair : NumericPair) :
    (quotient pair : Except Fault (Value κ)).map (Value.recast r) = quotient pair := by
  cases pair with
  | ints m n =>
    simp only [quotient]
    split
    · rfl
    · split
      · exact congrArg Except.ok (intOr_recast r _ _)
      · rfl
  | floats x y =>
    simp only [quotient]
    split <;> rfl

@[simp] theorem repetition_recast (text : String) (count : Int64) :
    (repetition text count : Except Fault (Value κ)).map (Value.recast r) =
      repetition text count := by
  unfold repetition
  split
  · rfl
  · split <;> rfl

/-- Operators on numbers give corresponding results, if what they make of the numbers does not
depend on places. -/
theorem onNumbers_recast (operator : BinaryOperator) (v w : Value κ)
    {combine : NumericPair → Except Fault (Value κ)}
    {combine' : NumericPair → Except Fault (Value κ')}
    (h : ∀ pair, combine' pair = (combine pair).map (Value.recast r)) :
    onNumbers operator (v.recast r) (w.recast r) combine' =
      (onNumbers operator v w combine).map (Value.recast r) := by
  simp only [onNumbers, Value.numericPair?_recast, Value.typeName_recast]
  split
  · exact h _
  · rfl

@[simp] theorem areEqual_recast (v w : Value κ) :
    areEqual (v.recast r) (w.recast r) = areEqual v w := by
  cases v <;> cases w <;> rfl

@[simp] theorem order_recast (v w : Value κ) : order (v.recast r) (w.recast r) = order v w := by
  cases v <;> cases w <;> rfl

theorem add_recast (v w : Value κ) :
    binary .add (v.recast r) (w.recast r) = (binary .add v w).map (Value.recast r) := by
  have hnumbers : onNumbers .add (v.recast r) (w.recast r) (fun pair => .ok (sum pair)) =
      (onNumbers .add v w fun pair => .ok (sum pair)).map (Value.recast r) :=
    onNumbers_recast r .add v w fun pair => congrArg Except.ok (sum_recast r pair).symm
  cases v <;> cases w <;> first | exact hnumbers | rfl

theorem multiply_recast (v w : Value κ) :
    binary .multiply (v.recast r) (w.recast r) = (binary .multiply v w).map (Value.recast r) := by
  have hnumbers : onNumbers .multiply (v.recast r) (w.recast r) (fun pair => .ok (product pair)) =
      (onNumbers .multiply v w fun pair => .ok (product pair)).map (Value.recast r) :=
    onNumbers_recast r .multiply v w fun pair => congrArg Except.ok (product_recast r pair).symm
  cases v <;> cases w <;> first | exact hnumbers | exact (repetition_recast r _ _).symm

/-- The results of binary operators correspond where the operands do. -/
@[simp] theorem binary_recast (operator : BinaryOperator) (v w : Value κ) :
    binary operator (v.recast r) (w.recast r) = (binary operator v w).map (Value.recast r) := by
  cases operator with
  | add => exact add_recast r v w
  | multiply => exact multiply_recast r v w
  | subtract =>
    exact onNumbers_recast r _ _ _ fun pair => congrArg Except.ok (difference_recast r pair).symm
  | divide => exact onNumbers_recast r _ _ _ fun pair => (quotient_recast r pair).symm
  | power =>
    exact onNumbers_recast r _ _ _ fun pair => congrArg Except.ok (power_recast r pair).symm
  | and | or =>
    simp only [binary, Value.truthy_recast]
    rfl
  | equal | notEqual =>
    simp only [binary, areEqual_recast]
    cases areEqual v w <;> rfl
  | less | greater | lessEqual | greaterEqual =>
    simp only [binary, order_recast]
    cases order v w <;> rfl

/-- The results of unary operators correspond where the operands do. -/
@[simp] theorem unary_recast (operator : UnaryOperator) (v : Value κ) :
    unary operator (v.recast r) = (unary operator v).map (Value.recast r) := by
  cases operator <;> cases v <;> try rfl
  exact congrArg Except.ok (intOr_recast r _ _).symm

@[simp] theorem stepDirection_recast (step : Value κ) :
    stepDirection (step.recast r) = stepDirection step := by
  cases step <;> rfl

end Operator

/-! ### Builtin functions -/

namespace Builtin

/-- The results of builtin functions correspond where the arguments do. -/
theorem toFloat_recast (v : Value κ) : toFloat (v.recast r) = (toFloat v).map (Value.recast r) := by
  cases v with
  | str text =>
    simp only [Value.recast, toFloat]
    split <;> rfl
  | _ => rfl

theorem truncate_recast (x : Float) :
    (truncate x : Except Fault (Value κ')) =
      (truncate x : Except Fault (Value κ)).map (Value.recast r) := by
  unfold truncate
  split <;> rfl

theorem toInt_recast (v : Value κ) : toInt (v.recast r) = (toInt v).map (Value.recast r) := by
  cases v with
  | str text =>
    simp only [Value.recast, toInt]
    split
    · rfl
    · split
      · exact truncate_recast r _
      · rfl
  | float x => exact truncate_recast r x
  | _ => rfl

/-- What a builtin function prints is the same where the arguments correspond. -/
theorem printedLine_recast (cells : Cells κ) (vs : List (Value κ)) :
    printedLine (Cells.recast r cells) (vs.map (Value.recast r)) = printedLine cells vs := by
  simp only [printedLine, List.map_map]
  congr 3
  exact funext fun v => Value.display_recast r cells v

/-- What a builtin function gives and prints corresponds where the arguments do. -/
theorem apply_recast (cells : Cells κ) (b : Builtin) (vs : List (Value κ)) :
    b.apply (Cells.recast r cells) (vs.map (Value.recast r)) =
      (b.apply cells vs).map fun result => (result.1.recast r, result.2) := by
  cases b with
  | print =>
    simp only [apply, printedLine_recast]
    rfl
  | float =>
    cases vs with
    | nil => rfl
    | cons v vs =>
      simp only [apply, List.map_cons, toFloat_recast]
      cases toFloat v <;> rfl
  | int =>
    cases vs with
    | nil => rfl
    | cons v vs =>
      simp only [apply, List.map_cons, toInt_recast]
      cases toInt v <;> rfl
  | str =>
    cases vs with
    | nil => rfl
    | cons v vs =>
      simp only [apply, List.map_cons, Value.display_recast]
      rfl
  | type =>
    cases vs with
    | nil => rfl
    | cons v vs =>
      simp only [apply, List.map_cons, Value.typeName_recast]
      rfl

/-- The results of calls correspond where the arguments do. -/
theorem run_recast (cells : Cells κ) (b : Builtin) (vs : List (Value κ)) :
    b.run (Cells.recast r cells) (vs.map (Value.recast r)) =
      (b.run cells vs).map fun result => (result.1.recast r, result.2) := by
  unfold run
  rw [List.length_map, apply_recast]
  split
  · split <;> rfl
  · rfl

end Builtin

/-! ### New instances -/

namespace StructType

variable (t : StructType)

/-- The arguments in their places, with other values in other positions. -/
def Slots.recast (slots : Slots κ) : Slots κ' :=
  List.map (Option.map (Supplied.recast r)) slots

/-- Places of fields are filled in the same way. -/
theorem fillSlots_recast (arguments : List (Supplied κ)) (slots : Slots κ) :
    t.fillSlots (arguments.map (Supplied.recast r)) (Slots.recast r slots) =
      Misfit.mapResult r.position (Slots.recast r) (t.fillSlots arguments slots) := by
  induction arguments generalizing slots with
  | nil => rfl
  | cons a arguments ih =>
    simp only [List.map_cons, fillSlots, Supplied.recast]
    split
    · rfl
    · next i hi =>
      have hslot : (List.getD (Slots.recast r slots) i none).isSome =
          (slots.getD i none).isSome := by
        simp only [Slots.recast, List.getD_eq_getElem?_getD, List.getElem?_map]
        cases slots[i]? with
        | none => rfl
        | some slot => cases slot <;> rfl
      have hset : List.set (Slots.recast r slots) i (some (a.recast r)) =
          Slots.recast r (slots.set i (some a)) := by
        simp [Slots.recast, List.map_set]
      rw [hslot]
      split
      · rfl
      · exact (congrArg _ hset).trans (ih _)

/-- Places of fields are emptied in the same way. -/
theorem emptySlots_recast (position : Position) (fields : List Field) (slots : Slots κ) :
    t.emptySlots (r.position position) fields (Slots.recast r slots) =
      Misfit.mapResult r.position (List.map (Supplied.recast r))
        (t.emptySlots position fields slots) := by
  induction fields generalizing slots with
  | nil => cases slots <;> rfl
  | cons f fields ih =>
    rcases slots with _ | ⟨_ | a, slots⟩
    · rfl
    · rfl
    · have hrest := ih slots
      simp only [Slots.recast] at hrest
      simp only [Slots.recast, List.map_cons, Option.map_some, emptySlots, hrest]
      cases t.emptySlots position fields slots <;> rfl

/-- Arguments are brought into the same order. -/
theorem arrange_recast (arguments : List (Supplied κ)) (position : Position) :
    t.arrange (arguments.map (Supplied.recast r)) (r.position position) =
      Misfit.mapResult r.position (List.map (Supplied.recast r))
        (t.arrange arguments position) := by
  have hnamed : (arguments.map (Supplied.recast r)).countP (fun a => a.name.isSome) =
      arguments.countP fun a => a.name.isSome := by
    rw [List.countP_map]
    rfl
  have hslots : (t.fields.map fun _ => none : Slots κ') =
      Slots.recast r (t.fields.map fun _ => none) := by
    simp [Slots.recast]
  simp only [arrange, hnamed, List.length_map]
  split
  · split <;> rfl
  · split
    · rw [hslots, fillSlots_recast]
      cases t.fillSlots arguments (t.fields.map fun _ => none) with
      | error e => rfl
      | ok slots => exact emptySlots_recast r t position t.fields slots
    · rfl

/-- Fields take the same values. -/
theorem conformField_recast (f : Field) (v : Value κ) :
    t.conformField f (v.recast r) = (t.conformField f v).map (Value.recast r) := by
  simp only [conformField, Value.conform?_recast, Value.typeName_recast]
  cases v.conform? f.tag <;> rfl

/-- Fields take the same values from all arguments. -/
theorem conformAll_recast (fields : List Field) (arguments : List (Supplied κ)) :
    t.conformAll fields (arguments.map (Supplied.recast r)) =
      Misfit.mapResult r.position (List.map (Value.recast r)) (t.conformAll fields arguments) := by
  induction fields generalizing arguments with
  | nil => cases arguments <;> rfl
  | cons f fields ih =>
    cases arguments with
    | nil => rfl
    | cons a arguments =>
      simp only [List.map_cons, conformAll, Supplied.recast, conformField_recast, ih]
      cases t.conformField f a.value with
      | error fault => rfl
      | ok v => cases t.conformAll fields arguments <;> rfl

/-- Instances made from corresponding arguments correspond. -/
theorem construct_recast (arguments : List (Supplied κ)) (position : Position) :
    t.construct (arguments.map (Supplied.recast r)) (r.position position) =
      Misfit.mapResult r.position (List.map (Value.recast r))
        (t.construct arguments position) := by
  simp only [construct, arrange_recast]
  cases t.arrange arguments position with
  | error e => rfl
  | ok arranged => exact conformAll_recast r t t.fields arranged

end StructType

end SnapshotScript
