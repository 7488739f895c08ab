import SnapshotScript.Number.Word
import SnapshotScript.Tree

/-!
# Values

Numbers, texts, truth values and `null` are plain data.  Struct types and functions are told apart
by an identity, which each evaluation of their definition creates anew, and instances by the cell
that holds their fields.
-/

namespace SnapshotScript

/-- The number of a frame of names. -/
abbrev FrameId := Nat

/-- The number of the cell that holds the fields of an instance. -/
abbrev CellId := Nat

/-- The type that a struct definition has made. -/
structure StructType where
  id : Nat
  name : String
  fields : List Field
deriving DecidableEq

/-- The place of a field in the declaration. -/
def StructType.fieldIndex? (t : StructType) (name : String) : Option Nat :=
  t.fields.findIdx? fun f => f.name == name

/-- A function that a definition has made, with what it keeps of the place where it was defined: a
frame, or whatever else of type `κ` the names outside of its body are looked up in. -/
structure Function (κ : Type := FrameId) where
  id : Nat
  name : Option String
  parameters : List String
  body : Expr
  closure : κ

/-- The name under which a function is mentioned. -/
def Function.displayName {κ : Type} (f : Function κ) : String :=
  f.name.getD "<anonymous>"

/-- The functions that are there from the beginning. -/
inductive Builtin where
  | print | float | int | str | type
deriving DecidableEq, Repr

namespace Builtin

/-- The functions that are there from the beginning, in the order in which they are defined. -/
def all : List Builtin :=
  [.print, .float, .int, .str, .type]

/-- The name of the function. -/
def name : Builtin → String
  | .print => "print"
  | .float => "float"
  | .int => "int"
  | .str => "str"
  | .type => "type"

/-- How many arguments the function takes, if not any number. -/
def arity : Builtin → Option Nat
  | .print => none
  | _ => some 1

end Builtin

/-- A value, whose functions keep a `κ` of the place where they were defined. -/
inductive Value (κ : Type := FrameId) where
  | int (n : Int64)
  | float (x : Float)
  | str (text : String)
  | bool (b : Bool)
  | null
  | structType (type : StructType)
  /-- An instance of a struct, whose fields are held by a cell. -/
  | object (type : StructType) (cell : CellId)
  | function (f : Function κ)
  | builtin (b : Builtin)

/-- Two numbers for an operation: integers if both are, and floating-point numbers otherwise. -/
inductive NumericPair where
  | ints (left right : Int64)
  | floats (left right : Float)

namespace Value

variable {κ : Type}

/-- The name of the type of a value. -/
def typeName : Value κ → String
  | .int _ => "int"
  | .float _ => "float"
  | .str _ => "str"
  | .bool _ => "bool"
  | .null => "null"
  | .structType _ => "struct"
  | .object type _ => type.name
  | .function _ | .builtin _ => "fun"

/-- Whether a value counts as true.  `null`, `false` and the zeros do not. -/
def truthy : Value κ → Bool
  | .null => false
  | .bool b => b
  | .int n => n != 0
  | .float x => x != 0.0
  | _ => true

/-- Whether a value is a number. -/
def isNumber : Value κ → Bool
  | .int _ | .float _ => true
  | _ => false

/-- The floating-point number nearest to a number. -/
def toFloat? : Value κ → Option Float
  | .int n => some (wordToFloat n)
  | .float x => some x
  | _ => none

/-- Two values as a pair of numbers, if they are numbers. -/
def numericPair? : Value κ → Value κ → Option NumericPair
  | .int m, .int n => some (.ints m n)
  | v, w =>
    match v.toFloat?, w.toFloat? with
    | some x, some y => some (.floats x y)
    | _, _ => none

/-- The order of two numbers, if they are numbers and neither is NaN. -/
def compareNumbers? (v w : Value κ) : Option Ordering :=
  match v.numericPair? w with
  | some (.ints m n) => some (compare m n)
  | some (.floats x y) => compareFloats? x y
  | none => none

/-- Whether two values are the same: plain data of one kind by content, and all else by
identity. -/
def same : Value κ → Value κ → Bool
  | .int m, .int n => m == n
  | .float x, .float y => x == y
  | .str s, .str t => s == t
  | .bool b, .bool c => b == c
  | .null, .null => true
  | .structType s, .structType t => s.id == t.id
  | .object _ c, .object _ d => c == d
  | .function f, .function g => f.id == g.id
  | .builtin b, .builtin c => b == c
  | _, _ => false

/-- The value as a field with the given tag holds it, if it may.  An integer becomes a
floating-point number where one is asked for, and a reference to an instance may be `null`. -/
def conform? : TypeTag → Value κ → Option (Value κ)
  | .any, v => some v
  | .int, .int n => some (.int n)
  | .float, .float x => some (.float x)
  | .float, .int n => some (.float (wordToFloat n))
  | .str, .str s => some (.str s)
  | .bool, .bool b => some (.bool b)
  | .null, .null => some .null
  | .function, .function f => some (.function f)
  | .function, .builtin b => some (.builtin b)
  | .struct name, .object type cell => if type.name = name then some (.object type cell) else none
  | .struct _, .null => some .null
  | _, _ => none

end Value

/-- The value of a constant. -/
def Literal.toValue {κ : Type} : Literal → Value κ
  | .int n => .int n
  | .float x => .float x
  | .str s => .str s
  | .bool b => .bool b
  | .null => .null

/-- The cells that hold the fields of instances, in the order of the declarations. -/
abbrev Cells (κ : Type := FrameId) := Array (List (Value κ))

end SnapshotScript
