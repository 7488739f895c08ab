import SnapshotScript.Text.Position

/-!
# Programs as trees

Every construct of the language is an expression.  Each node carries the position to which an error
in it is attributed.
-/

namespace SnapshotScript

/-- The operators with two operands. -/
inductive BinaryOperator where
  | add | subtract | multiply | divide | power
  | equal | notEqual
  | less | greater | lessEqual | greaterEqual
  | and | or
deriving DecidableEq, Repr

/-- The written form of an operator. -/
def BinaryOperator.symbol : BinaryOperator → String
  | .add => "+"
  | .subtract => "-"
  | .multiply => "*"
  | .divide => "/"
  | .power => "^"
  | .equal => "=="
  | .notEqual => "!="
  | .less => "<"
  | .greater => ">"
  | .lessEqual => "<="
  | .greaterEqual => ">="
  | .and => "and"
  | .or => "or"

/-- The operators with one operand, `not` apart. -/
inductive UnaryOperator where
  | plus | minus
deriving DecidableEq, Repr

/-- The written form of an operator. -/
def UnaryOperator.symbol : UnaryOperator → String
  | .plus => "+"
  | .minus => "-"

/-- What may be stored in a field of a struct. -/
inductive TypeTag where
  | int | float | str | bool | null | function
  | any
  /-- An instance of a struct with this name, or nothing. -/
  | struct (name : String)
deriving DecidableEq, Repr

namespace TypeTag

/-- The written form of a tag. -/
def text : TypeTag → String
  | .int => "int"
  | .float => "float"
  | .str => "str"
  | .bool => "bool"
  | .null => "null"
  | .function => "fun"
  | .any => "any"
  | .struct name => name

/-- The tag that a name stands for; a name that is not one of a basic type is that of a struct. -/
def ofName (name : String) : TypeTag :=
  if name = "int" then .int
  else if name = "float" then .float
  else if name = "str" then .str
  else if name = "bool" then .bool
  else if name = "any" then .any
  else .struct name

end TypeTag

/-- A field of a struct as it is declared. -/
structure Field where
  name : String
  tag : TypeTag
deriving DecidableEq, Repr

/-- A constant that is written into a program. -/
inductive Literal where
  | int (value : Int64)
  | float (value : Float)
  | str (value : String)
  | bool (value : Bool)
  | null
deriving DecidableEq

/-- An argument of a call, with the name of a field if one is given. -/
structure Argument (α : Type) where
  name : Option String
  value : α

/-- A branch of a choice, taken if its condition holds. -/
structure Branch (α : Type) where
  condition : α
  body : α

/-- An expression. -/
inductive Expr where
  | literal (value : Literal) (position : Position)
  | identifier (name : String) (position : Position)
  | assign (name : String) (value : Expr) (position : Position)
  | binary (operator : BinaryOperator) (left right : Expr) (position : Position)
  | unary (operator : UnaryOperator) (operand : Expr) (position : Position)
  | not (operand : Expr) (position : Position)
  | call (callee : Expr) (arguments : List (Argument Expr)) (position : Position)
  | member (target : Expr) (field : String) (position : Position)
  | memberSet (target : Expr) (field : String) (value : Expr) (position : Position)
  /-- The first branch whose condition holds is taken, and `otherwise` if none does. -/
  | choice (branches : List (Branch Expr)) (otherwise : Option Expr) (position : Position)
  | forLoop (name : String) (first bound : Expr) (step : Option Expr) (body : Expr)
      (position : Position)
  | whileLoop (condition body : Expr) (position : Position)
  | function (name : Option String) (parameters : List String) (body : Expr) (position : Position)
  | struct (name : Option String) (fields : List Field) (position : Position)
  | returning (value : Option Expr) (position : Position)
  /-- Expressions one after the other; also a whole program. -/
  | block (items : List Expr) (position : Position)

namespace Expr

/-- The position to which errors are attributed. -/
def position : Expr → Position
  | .literal _ p | .identifier _ p | .assign _ _ p | .binary _ _ _ p | .unary _ _ p | .not _ p
  | .call _ _ p | .member _ _ p | .memberSet _ _ _ p | .choice _ _ p | .forLoop _ _ _ _ _ p
  | .whileLoop _ _ p | .function _ _ _ p | .struct _ _ p | .returning _ p | .block _ p => p

/-- Whether an expression is a block without items. -/
def isEmptyBlock : Expr → Bool
  | .block [] _ => true
  | _ => false

end Expr

end SnapshotScript
