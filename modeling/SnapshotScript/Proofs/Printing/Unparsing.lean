import SnapshotScript.Number.Numeral
import SnapshotScript.Proofs.Grammar.Productions
import SnapshotScript.Proofs.Lexical.Lexeme
import SnapshotScript.Tree.Children

/-!
# From trees back to tokens

`Expr.unparse` writes an expression as the pieces of a program: the kinds and texts of tokens that
stand nowhere yet.  An expression in a place that asks for a tighter one is set in parentheses, and
no other is.

Not every tree can be read back.  `Shaped` lists the rules that a tree has to follow at each of its
nodes, and `Separated` what is lost where nothing stands between the items of a block or where the
name of a struct is one of a basic type.
-/

namespace SnapshotScript

/-- The kind and the text of a token. -/
abbrev Piece := Token.Kind × String

/-- What is left of a token without its place. -/
def Token.piece (t : Token) : Piece :=
  (t.kind, t.text)

namespace Printing

/-- A piece that is always written in the same way. -/
def fixed (k : Token.Kind) : Piece :=
  (k, k.spelling)

/-- The piece of a reserved word. -/
def reserved (word : Keyword) : Piece :=
  fixed (.keyword word)

/-- The piece of a name. -/
def name (text : String) : Piece :=
  (.identifier, text)

@[simp] theorem fixed_fst (k : Token.Kind) : (fixed k).1 = k := rfl

@[simp] theorem reserved_fst (word : Keyword) : (reserved word).1 = .keyword word := rfl

@[simp] theorem name_fst (text : String) : (name text).1 = .identifier := rfl

/-! ### Strengths -/

/-- How tightly an expression is bound together by its outermost construct.  A form is a construct
that begins with a reserved word of its own. -/
inductive Strength where
  | form | logical | comparison | arithmetic | term | factor | power | call | members | atom
deriving DecidableEq, Repr

/-- The place of a strength among all of them, counted from the loosest one. -/
def Strength.rank : Strength → Nat
  | .form => 0
  | .logical => 1
  | .comparison => 2
  | .arithmetic => 3
  | .term => 4
  | .factor => 5
  | .power => 6
  | .call => 7
  | .members => 8
  | .atom => 9

/-- How an operator with two operands is written. -/
structure InfixForm where
  sign : Token.Kind
  /-- The strength of the whole expression. -/
  strength : Strength
  /-- The strengths that the operands have to have. -/
  left : Strength
  right : Strength

/-- The operators: the logical ones and those of arithmetic can be chained from left to right,
powers from right to left, and comparisons not at all. -/
def infixForm : BinaryOperator → InfixForm
  | .and => ⟨.keyword .and, .logical, .logical, .comparison⟩
  | .or => ⟨.keyword .or, .logical, .logical, .comparison⟩
  | .equal => ⟨.equal, .comparison, .arithmetic, .arithmetic⟩
  | .notEqual => ⟨.notEqual, .comparison, .arithmetic, .arithmetic⟩
  | .less => ⟨.less, .comparison, .arithmetic, .arithmetic⟩
  | .greater => ⟨.greater, .comparison, .arithmetic, .arithmetic⟩
  | .lessEqual => ⟨.lessEqual, .comparison, .arithmetic, .arithmetic⟩
  | .greaterEqual => ⟨.greaterEqual, .comparison, .arithmetic, .arithmetic⟩
  | .add => ⟨.plus, .arithmetic, .arithmetic, .term⟩
  | .subtract => ⟨.minus, .arithmetic, .arithmetic, .term⟩
  | .multiply => ⟨.times, .term, .term, .factor⟩
  | .divide => ⟨.divide, .term, .term, .factor⟩
  | .power => ⟨.power, .power, .call, .factor⟩

/-- The sign in front of an operand. -/
def prefixSign : UnaryOperator → Token.Kind
  | .plus => .plus
  | .minus => .minus

/-- The strength of an expression.  A member of what a call gives is no better than a call, as only
one group of arguments may follow an atom. -/
def strength : Expr → Strength
  | .literal _ _ | .identifier _ _ | .block _ _ => .atom
  | .member target _ _ => if strength target = .call then .call else .members
  | .call _ _ _ => .call
  | .binary operator _ _ _ => (infixForm operator).strength
  | .unary _ _ _ => .factor
  | .not _ _ => .comparison
  | .assign _ _ _ | .memberSet _ _ _ _ | .choice _ _ _ | .forLoop _ _ _ _ _ _
  | .whileLoop _ _ _ | .function _ _ _ _ | .struct _ _ _ | .returning _ _ => .form

/-! ### Pieces -/

/-- Sets pieces in parentheses. -/
def enclose (pieces : List Piece) : List Piece :=
  fixed .leftParen :: (pieces ++ [fixed .rightParen])

/-- The pieces of an expression in a place that asks for the strength `needed`. -/
def fit (needed actual : Strength) (pieces : List Piece) : List Piece :=
  if needed.rank ≤ actual.rank then pieces else enclose pieces

/-- Groups of pieces with commas between them. -/
def separate (groups : List (List Piece)) : List Piece :=
  [fixed .comma].intercalate groups

/-- The piece of a constant.  The text of a floating-point number is chosen by `decimal`. -/
def literal (decimal : Float → String) : Literal → Piece
  | .int value => (.int, String.ofList (decimalDigits value.toInt.toNat))
  | .float value => (.float, decimal value)
  | .str value => (.string, value)
  | .bool true => reserved .true
  | .bool false => reserved .false
  | .null => reserved .null

/-- The piece of a type. -/
def tag : TypeTag → Piece
  | .function => reserved .fun
  | .null => reserved .null
  | other => name other.text

/-- The pieces of the declaration of a field. -/
def field (f : Field) : List Piece :=
  [name f.name, fixed .colon, tag f.tag]

/-- The pieces of the name of a definition, which may be absent. -/
def definedName : Option String → List Piece
  | some text => [name text]
  | none => []

section Unparse

variable (decimal : Float → String)

mutual

/-- The pieces of an expression. -/
def unparse : Expr → List Piece
  | .literal value _ => [literal decimal value]
  | .identifier text _ => [name text]
  | .assign text value _ =>
    reserved .set :: name text :: fixed .assign :: fit .logical (strength value) (unparse value)
  | .binary operator left right _ =>
    fit (infixForm operator).left (strength left) (unparse left) ++
      fixed (infixForm operator).sign ::
        fit (infixForm operator).right (strength right) (unparse right)
  | .unary operator operand _ =>
    fixed (prefixSign operator) :: fit .factor (strength operand) (unparse operand)
  | .not operand _ => reserved .not :: fit .comparison (strength operand) (unparse operand)
  | .call callee arguments _ =>
    fit .members (strength callee) (unparse callee) ++
      enclose (separate (unparseArguments arguments))
  | .member target text _ =>
    fit .call (strength target) (unparse target) ++ [fixed .dot, name text]
  | .memberSet target text value _ =>
    reserved .set :: (fit .call (strength target) (unparse target) ++
      fixed .dot :: name text :: fixed .assign :: fit .logical (strength value) (unparse value))
  | .choice branches none _ => unparseBranches .if branches
  | .choice branches (some otherwise) _ =>
    unparseBranches .if branches ++
      reserved .el :: fit .logical (strength otherwise) (unparse otherwise)
  | .forLoop text first bound none body _ =>
    reserved .for :: name text :: fixed .assign ::
      (fit .logical (strength first) (unparse first) ++
        reserved .to :: (fit .logical (strength bound) (unparse bound) ++
          reserved .then :: fit .logical (strength body) (unparse body)))
  | .forLoop text first bound (some step) body _ =>
    reserved .for :: name text :: fixed .assign ::
      (fit .logical (strength first) (unparse first) ++
        reserved .to :: (fit .logical (strength bound) (unparse bound) ++
          reserved .step :: (fit .logical (strength step) (unparse step) ++
            reserved .then :: fit .logical (strength body) (unparse body))))
  | .whileLoop condition body _ =>
    reserved .while :: (fit .logical (strength condition) (unparse condition) ++
      reserved .then :: fit .logical (strength body) (unparse body))
  | .function text parameters body _ =>
    reserved .fun :: (definedName text ++ enclose (separate (parameters.map fun p => [name p])) ++
      fixed .arrow :: fit .logical (strength body) (unparse body))
  | .struct text fields _ =>
    reserved .struct :: (definedName text ++ enclose (separate (fields.map field)))
  | .returning none _ => [reserved .return]
  | .returning (some value) _ => reserved .return :: fit .logical (strength value) (unparse value)
  | .block items _ => enclose (unparseItems items)

/-- The pieces of expressions that stand side by side. -/
def unparseItems : List Expr → List Piece
  | [] => []
  | item :: items => unparse item ++ unparseItems items

/-- The pieces of each argument, those with a name behind it. -/
def unparseArguments : List (Argument Expr) → List (List Piece)
  | [] => []
  | ⟨none, value⟩ :: arguments =>
    fit .logical (strength value) (unparse value) :: unparseArguments arguments
  | ⟨some text, value⟩ :: arguments =>
    (name text :: fixed .colon :: fit .logical (strength value) (unparse value)) ::
      unparseArguments arguments

/-- The pieces of branches; the first one begins with `word` and the others with `eli`. -/
def unparseBranches (word : Keyword) : List (Branch Expr) → List Piece
  | [] => []
  | ⟨condition, body⟩ :: branches =>
    reserved word :: (fit .logical (strength condition) (unparse condition) ++
      reserved .then :: (fit .logical (strength body) (unparse body) ++
        unparseBranches .eli branches))

end

end Unparse

end Printing

/-! ### Trees without places -/

namespace Expr

mutual

/-- The expression with all its nodes in one and the same place. -/
@[simp] def unplaced : Expr → Expr
  | .literal value _ => .literal value .start
  | .identifier name _ => .identifier name .start
  | .assign name value _ => .assign name value.unplaced .start
  | .binary operator left right _ => .binary operator left.unplaced right.unplaced .start
  | .unary operator operand _ => .unary operator operand.unplaced .start
  | .not operand _ => .not operand.unplaced .start
  | .call callee arguments _ => .call callee.unplaced (unplacedArguments arguments) .start
  | .member target field _ => .member target.unplaced field .start
  | .memberSet target field value _ => .memberSet target.unplaced field value.unplaced .start
  | .choice branches none _ => .choice (unplacedBranches branches) none .start
  | .choice branches (some otherwise) _ =>
    .choice (unplacedBranches branches) (some otherwise.unplaced) .start
  | .forLoop name first bound none body _ =>
    .forLoop name first.unplaced bound.unplaced none body.unplaced .start
  | .forLoop name first bound (some step) body _ =>
    .forLoop name first.unplaced bound.unplaced (some step.unplaced) body.unplaced .start
  | .whileLoop condition body _ => .whileLoop condition.unplaced body.unplaced .start
  | .function name parameters body _ => .function name parameters body.unplaced .start
  | .struct name fields _ => .struct name fields .start
  | .returning none _ => .returning none .start
  | .returning (some value) _ => .returning (some value.unplaced) .start
  | .block items _ => .block (unplacedItems items) .start

/-- The expressions, each without places. -/
@[simp] def unplacedItems : List Expr → List Expr
  | [] => []
  | item :: items => item.unplaced :: unplacedItems items

/-- The arguments without places. -/
@[simp] def unplacedArguments : List (Argument Expr) → List (Argument Expr)
  | [] => []
  | ⟨name, value⟩ :: arguments => ⟨name, value.unplaced⟩ :: unplacedArguments arguments

/-- The branches without places. -/
@[simp] def unplacedBranches : List (Branch Expr) → List (Branch Expr)
  | [] => []
  | ⟨condition, body⟩ :: branches =>
    ⟨condition.unplaced, body.unplaced⟩ :: unplacedBranches branches

end

end Expr

/-! ### Rules for trees -/

namespace Printing

/-- A name with members behind it. -/
def IsPath : Expr → Prop
  | .identifier _ _ => True
  | .member target _ _ => IsPath target
  | _ => False

/-- The text consists of digits, a point and digits, and it denotes the number. -/
def IsDecimal (text : String) (x : Float) : Prop :=
  Lexical.Lexeme .float text.toList text.toList ∧ readFloat? text.toList = some x

/-- The expressions that may stand behind another item of a block. -/
def Continues : Expr → Prop
  | .identifier _ _ | .literal _ _ | .not _ _ | .assign _ _ _ | .memberSet _ _ _ _
  | .choice _ _ _ | .forLoop _ _ _ _ _ _ | .whileLoop _ _ _ | .function _ _ _ _
  | .struct _ _ _ | .returning (some _) _ => True
  | _ => False

/-- The rules for the shape of a tree at one node. -/
def Shaped : Expr → Prop
  | .literal (.int value) _ => 0 ≤ value.toInt
  | .literal (.float value) _ => ∃ text, IsDecimal text value
  | .memberSet target _ _ _ => IsPath target
  | .choice branches _ _ =>
    branches ≠ [] ∧ ∀ b ∈ branches.tail, ∀ position, b.condition ≠ .block [] position
  | .function _ parameters _ _ => parameters.Nodup
  | .struct _ fields _ => (fields.map Field.name).Nodup
  | .block items _ => items.length ≠ 1 ∧ ∀ item ∈ items.tail, Continues item
  | _ => True

/-- What gets lost at one node: a `return` without a value takes the item behind it for one, and a
struct with the name of a basic type for the type itself. -/
def Separated : Expr → Prop
  | .block items _ => ∀ position, items.head? ≠ some (.returning none position)
  | .struct _ fields _ =>
    ∀ f ∈ fields, ∀ text, f.tag = .struct text → TypeTag.ofName text = .struct text
  | _ => True

end Printing

end SnapshotScript
