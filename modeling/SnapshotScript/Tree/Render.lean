import SnapshotScript.Number.Numeral
import SnapshotScript.Tree

/-!
# Trees as text

The text of an expression shows its structure: operators and assignments are set in parentheses,
blocks in braces.
-/

namespace SnapshotScript

/-- The text of a constant.  The content of a text literal is put between quotes as it is. -/
def Literal.render : Literal → String
  | .int value => toString value.toInt
  | .float value => floatText value
  | .str value => "'" ++ value ++ "'"
  | .bool value => if value then "true" else "false"
  | .null => "null"

/-- The text of a declared field. -/
def Field.render (f : Field) : String :=
  f.name ++ ": " ++ f.tag.text

/-- Items in a row, with commas between them. -/
def commaList (items : List String) : String :=
  ", ".intercalate items

/-- The name of a definition behind its keyword. -/
def definitionName (name : Option String) : String :=
  match name with
  | some name => " " ++ name
  | none => ""

namespace Expr

mutual

/-- The text of an expression. -/
def render : Expr → String
  | .literal value _ => value.render
  | .identifier name _ => name
  | .assign name value _ => "(set " ++ name ++ " = " ++ value.render ++ ")"
  | .binary operator left right _ =>
    "(" ++ left.render ++ " " ++ operator.symbol ++ " " ++ right.render ++ ")"
  | .unary operator operand _ => "(" ++ operator.symbol ++ operand.render ++ ")"
  | .not operand _ => "(not " ++ operand.render ++ ")"
  | .call callee arguments _ => callee.render ++ "(" ++ commaList (renderArguments arguments) ++ ")"
  | .member target field _ => target.render ++ "." ++ field
  | .memberSet target field value _ =>
    "(set " ++ target.render ++ "." ++ field ++ " = " ++ value.render ++ ")"
  | .choice branches none _ => " ".intercalate (renderBranches "if" branches)
  | .choice branches (some otherwise) _ =>
    " ".intercalate (renderBranches "if" branches ++ ["el " ++ otherwise.render])
  | .forLoop name first bound none body _ =>
    "for " ++ name ++ " = " ++ first.render ++ " to " ++ bound.render ++ " then " ++ body.render
  | .forLoop name first bound (some step) body _ =>
    "for " ++ name ++ " = " ++ first.render ++ " to " ++ bound.render ++ " step " ++ step.render
      ++ " then " ++ body.render
  | .whileLoop condition body _ => "while " ++ condition.render ++ " then " ++ body.render
  | .function name parameters body _ =>
    "fun" ++ definitionName name ++ "(" ++ commaList parameters ++ ") -> " ++ body.render
  | .struct name fields _ =>
    "struct" ++ definitionName name ++ "(" ++ commaList (fields.map Field.render) ++ ")"
  | .returning none _ => "return"
  | .returning (some value) _ => "return " ++ value.render
  | .block [] _ => "\x7b\x7d"
  | .block items _ => "\x7b " ++ "; ".intercalate (renderItems items) ++ " \x7d"

/-- The texts of expressions. -/
def renderItems : List Expr → List String
  | [] => []
  | item :: items => item.render :: renderItems items

/-- The texts of arguments, those with a name behind it. -/
def renderArguments : List (Argument Expr) → List String
  | [] => []
  | ⟨none, value⟩ :: arguments => value.render :: renderArguments arguments
  | ⟨some name, value⟩ :: arguments =>
    (name ++ ": " ++ value.render) :: renderArguments arguments

/-- The texts of branches; the first one begins with `word` and the others with `eli`. -/
def renderBranches (word : String) : List (Branch Expr) → List String
  | [] => []
  | ⟨condition, body⟩ :: branches =>
    (word ++ " " ++ condition.render ++ " then " ++ body.render) :: renderBranches "eli" branches

end

end Expr

end SnapshotScript
