import SnapshotScript.Fault
import SnapshotScript.Number.Word
import SnapshotScript.Text.Blank
import SnapshotScript.Value.Display

/-!
# Functions that are there from the beginning

Apart from printing these are conversions of a value.  A text is read as a number without the
blanks around it.
-/

namespace SnapshotScript

namespace Builtin

variable {κ : Type}

/-- A value as a floating-point number. -/
def toFloat : Value κ → Except Fault (Value κ)
  | .int n => .ok (.float (wordToFloat n))
  | .float x => .ok (.float x)
  | .bool b => .ok (.float (if b then 1.0 else 0.0))
  | .str text =>
    match readFloat? (trimBlank text.toList) with
    | some x => .ok (.float x)
    | none => .error (.inconvertible text "float")
  | v => .error (.inconvertible v.typeName "float")

/-- A floating-point number as an integer, without its fraction. -/
def truncate (x : Float) : Except Fault (Value κ) :=
  match truncate? x with
  | some n => .ok (.int n)
  | none => .error (.noInteger x)

/-- A value as an integer.  A text that is no integer numeral of 64 bits is read as a
floating-point number first. -/
def toInt : Value κ → Except Fault (Value κ)
  | .int n => .ok (.int n)
  | .float x => truncate x
  | .bool b => .ok (.int (if b then 1 else 0))
  | .str text =>
    let numeral := trimBlank text.toList
    match (readInteger? numeral).bind word? with
    | some n => .ok (.int n)
    | none =>
      match readFloat? numeral with
      | some x => truncate x
      | none => .error (.inconvertible (String.ofList numeral) "int")
  | v => .error (.inconvertible v.typeName "int")

/-- The line that printing values writes. -/
def printedLine (cells : Cells κ) (values : List (Value κ)) : String :=
  " ".intercalate (values.map fun v => v.display cells) ++ "\n"

/-- The result for as many arguments as the function takes, and the text that it prints.  All
functions but `print` look at the first argument, which is there. -/
def apply (cells : Cells κ) :
    Builtin → List (Value κ) → Except Fault (Value κ × Option String)
  | .print, values => .ok (.null, some (printedLine cells values))
  | .float, v :: _ => return (← toFloat v, none)
  | .int, v :: _ => return (← toInt v, none)
  | .str, v :: _ => .ok (.str (v.display cells), none)
  | .type, v :: _ => .ok (.str v.typeName, none)
  | _, [] => .ok (.null, none)

/-- The result of a call, and the text that it prints. -/
def run (cells : Cells κ) (b : Builtin) (values : List (Value κ)) :
    Except Fault (Value κ × Option String) :=
  match b.arity with
  | some n =>
    if values.length = n then b.apply cells values
    else .error (.builtinArity b.name n values.length)
  | none => b.apply cells values

end Builtin

end SnapshotScript
