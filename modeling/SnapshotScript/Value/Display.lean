import SnapshotScript.Tree.Render
import SnapshotScript.Value

/-!
# Values as text

Instances are written with their fields.  They may refer to each other in a circle, so only so many
levels of them are written out, and of an instance below these only the name of its type.
-/

namespace SnapshotScript

/-- How many levels of instances are written out. -/
def displayLevels : Nat := 8

namespace Value

variable {κ : Type}

/-- The text of a value with `levels` levels of instances.  A text stands between quotes. -/
def displayWithin (cells : Cells κ) : Nat → Value κ → String
  | _, .int n => toString n.toInt
  | _, .float x => floatText x
  | _, .str text => "'" ++ text ++ "'"
  | _, .bool b => if b then "true" else "false"
  | _, .null => "null"
  | _, .structType type => "<struct " ++ type.name ++ ">"
  | _, .function f =>
    match f.name with
    | some name => "<fun " ++ name ++ ">"
    | none => "<fun>"
  | _, .builtin b => "<builtin " ++ b.name ++ ">"
  | 0, .object type _ => type.name ++ "(...)"
  | levels + 1, .object type cell =>
    let values := cells.getD cell []
    let shown := type.fields.zipWith
      (fun f v => f.name ++ ": " ++ displayWithin cells levels v) values
    type.name ++ "(" ++ commaList shown ++ ")"

/-- The text of a value in which a text is told from other values by its quotes. -/
def inspect (cells : Cells κ) (v : Value κ) : String :=
  v.displayWithin cells displayLevels

/-- The text of a value as it is printed.  A text is printed as it is, but inside an instance it
stands between quotes. -/
def display (cells : Cells κ) : Value κ → String
  | .str text => text
  | v => v.inspect cells

end Value

/-- The head of a function definition. -/
def Function.signature {κ : Type} (f : Function κ) : String :=
  "fun " ++ f.displayName ++ "(" ++ commaList f.parameters ++ ")"

end SnapshotScript
