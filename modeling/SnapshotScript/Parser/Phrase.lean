import SnapshotScript.Number.Numeral
import SnapshotScript.Number.Word
import SnapshotScript.Parser.Stream
import SnapshotScript.Tree

/-!
# Reading expressions

The grammar of expressions, from the operators that bind loosest to those that bind tightest:

* `set` with a target, or operands with `and` and `or` between them, from left to right;
* `not`, or at most one comparison;
* sums and differences, from left to right;
* products and quotients, from left to right;
* a sign, or a power, whose exponent may again have a sign;
* a call with members before and after it;
* literals, names, blocks in parentheses and the constructs that begin with a word.

Expressions follow each other without a separator, so a phrase ends where the next token cannot
continue it.  Three of the levels occur inside others, `Level`.  Every such inner phrase begins
behind at least one token of the outer one.  Hence the number of tokens bounds the nesting, and the
number of rounds of every loop as well.
-/

namespace SnapshotScript

open SnapshotScript.Parser

namespace Phrase

/-- The levels of the grammar that occur inside others. -/
inductive Level where
  | expression | comparison | factor
deriving DecidableEq, Repr

/-! ### Tables -/

/-- The operators between the operands of a logical expression. -/
def logicalOperator? : Token.Kind → Option BinaryOperator
  | .keyword .and => some .and
  | .keyword .or => some .or
  | _ => none

/-- The operators of comparison. -/
def comparisonOperator? : Token.Kind → Option BinaryOperator
  | .equal => some .equal
  | .notEqual => some .notEqual
  | .less => some .less
  | .greater => some .greater
  | .lessEqual => some .lessEqual
  | .greaterEqual => some .greaterEqual
  | _ => none

/-- The operators between the terms of a sum. -/
def sumOperator? : Token.Kind → Option BinaryOperator
  | .plus => some .add
  | .minus => some .subtract
  | _ => none

/-- The operators between the factors of a product. -/
def productOperator? : Token.Kind → Option BinaryOperator
  | .times => some .multiply
  | .divide => some .divide
  | _ => none

/-- The operators in front of a factor. -/
def signOperator? : Token.Kind → Option UnaryOperator
  | .plus => some .plus
  | .minus => some .minus
  | _ => none

/-- Whether a token of this kind can begin an expression. -/
def startsExpression : Token.Kind → Bool
  | .int | .float | .string | .identifier | .leftParen | .plus | .minus => true
  | .keyword .set | .keyword .not | .keyword .if | .keyword .for | .keyword .while
  | .keyword .fun | .keyword .struct | .keyword .return | .keyword .true | .keyword .false
  | .keyword .null => true
  | _ => false

/-! ### The levels

In what follows `recur` reads an inner phrase, and `bound` bounds the rounds of loops. -/

variable (recur : Level → Parser Expr) (bound : Nat)

/-- Reads the tokens `.name` behind the target of an assignment.  `path` holds the names read so
far in reverse, and is returned in reverse. -/
def assignmentPath : Nat → List Token → Parser (List Token)
  | 0, path => return path
  | rounds + 1, path => do
    if ← accept .dot then
      let field ← expect .identifier .fieldAfterDot
      assignmentPath rounds (field :: path)
    else
      return path

/-- Reads an assignment whose first word stands at `position`. -/
def assignment (position : Position) : Parser Expr := do
  let name ← expect .identifier .assignedName
  let path ← assignmentPath bound []
  let _ ← expect .assign .assignSign
  let value ← recur .expression
  match path with
  | [] => return .assign name.text value position
  | field :: before =>
    let root := Expr.identifier name.text name.first
    let target := before.foldr (fun m target => .member target m.text m.first) root
    return .memberSet target field.text value position

/-- Reads operators of one level with operands between them, from left to right. -/
def leftChain (operator? : Token.Kind → Option BinaryOperator) (operand : Parser Expr) :
    Nat → Expr → Parser Expr
  | 0, left => return left
  | rounds + 1, left => do
    let t ← current
    match operator? t.kind with
    | none => return left
    | some operator =>
      advance
      let right ← operand
      leftChain operator? operand rounds (.binary operator left right t.first)

/-- Reads members of `target`. -/
def members : Nat → Expr → Parser Expr
  | 0, target => return target
  | rounds + 1, target => do
    if ← accept .dot then
      let field ← expect .identifier .fieldAfterDot
      members rounds (.member target field.text field.first)
    else
      return target

/-- Reads an argument.  It has a name if a name and a colon come first. -/
def argument : Parser (Argument Expr) := do
  let s ← get
  match s.rest with
  | name :: colon :: rest =>
    if name.kind = .identifier ∧ colon.kind = .colon then
      set { s with rest := rest }
      return ⟨some name.text, ← recur .expression⟩
    else
      return ⟨none, ← recur .expression⟩
  | _ => return ⟨none, ← recur .expression⟩

/-- Reads a list with commas in it, which is empty right before a closing parenthesis. -/
def list {α : Type} (item : List α → Parser α) : Parser (List α) := do
  if ← isAt .rightParen then return []
  else commaSeparated item bound []

/-- Reads a list up to a closing parenthesis, which it passes. -/
def parenthesized {α : Type} (item : List α → Parser α) (expected : Expectation) :
    Parser (List α) := do
  let items ← list bound item
  let _ ← expect .rightParen expected
  return items

/-- Reads the items of a block up to a closing parenthesis or the end of the input. -/
def items : Nat → List Expr → Parser (List Expr)
  | 0, read => return read.reverse
  | rounds + 1, read => do
    let t ← current
    if t.kind = .rightParen ∨ t.kind = .endOfInput then return read.reverse
    else
      let item ← recur .expression
      items rounds (item :: read)

/-- Reads a block behind its opening parenthesis.  A block of one item is that item. -/
def block (position : Position) : Parser Expr := do
  let read ← items recur bound []
  let _ ← expect .rightParen .endOfBlock
  match read with
  | [item] => return item
  | read => return .block read position

/-- Reads the condition of a further branch.  It may be absent or an empty block, and then the
branch is taken in any case. -/
def furtherCondition : Parser (Option Expr) := do
  if ← isAt (.keyword .then) then return none
  else
    let condition ← recur .expression
    return if condition.isEmptyBlock then none else some condition

/-- Reads further branches of a choice and what is done if none is taken.  Nothing follows a branch
without a condition. -/
def furtherBranches : Nat → List (Branch Expr) → Parser (List (Branch Expr) × Option Expr)
  | 0, read => return (read.reverse, none)
  | rounds + 1, read => do
    if ← accept (.keyword .eli) then
      let condition ← furtherCondition recur
      let _ ← expect (.keyword .then) .thenAfterEli
      let body ← recur .expression
      match condition with
      | some condition => furtherBranches rounds (⟨condition, body⟩ :: read)
      | none => return (read.reverse, some body)
    else if ← accept (.keyword .el) then
      let body ← recur .expression
      return (read.reverse, some body)
    else
      return (read.reverse, none)

/-- Reads a choice behind its first word. -/
def choice (position : Position) : Parser Expr := do
  let condition ← recur .expression
  let _ ← expect (.keyword .then) .thenAfterIf
  let body ← recur .expression
  let (branches, otherwise) ← furtherBranches recur bound [⟨condition, body⟩]
  return .choice branches otherwise position

/-- Reads the step of a loop over numbers, if it has one. -/
def loopStep : Parser (Option Expr) := do
  if ← accept (.keyword .step) then return some (← recur .expression)
  else return none

/-- Reads a loop over numbers behind its first word. -/
def forLoop (position : Position) : Parser Expr := do
  let name ← expect .identifier .loopVariable
  let _ ← expect .assign .assignAfterVariable
  let first ← recur .expression
  let _ ← expect (.keyword .to) .toAfterStart
  let last ← recur .expression
  let step ← loopStep recur
  let _ ← expect (.keyword .then) .thenAfterBounds
  let body ← recur .expression
  return .forLoop name.text first last step body position

/-- Reads a loop with a condition behind its first word. -/
def whileLoop (position : Position) : Parser Expr := do
  let condition ← recur .expression
  let _ ← expect (.keyword .then) .thenAfterWhile
  let body ← recur .expression
  return .whileLoop condition body position

/-- Reads the name of a definition, if there is one. -/
def definedName : Parser (Option String) := do
  let t ← current
  if t.kind = .identifier then
    advance
    return some t.text
  else
    return none

/-- Reads the name of a parameter, which has to differ from those before it. -/
def parameter (read : List String) : Parser String := do
  let name ← expect .identifier .parameterName
  if name.text ∈ read then failAt name .uniqueParameter else return name.text

/-- Reads a function behind its first word. -/
def function (position : Position) : Parser Expr := do
  let name ← definedName
  let _ ← expect .leftParen .startOfParameters
  let parameters ← parenthesized bound parameter .endOfParameters
  let _ ← expect .arrow .arrowBeforeBody
  let body ← recur .expression
  return .function name parameters body position

/-- Reads the type of a field. -/
def typeTag : Parser TypeTag := do
  if ← accept (.keyword .fun) then return .function
  else if ← accept (.keyword .null) then return .null
  else return .ofName (← expect .identifier .fieldType).text

/-- Reads the type of a field behind a colon.  Without one the field holds anything. -/
def declaredTag : Parser TypeTag := do
  if ← accept .colon then typeTag else return .any

/-- Reads the declaration of a field, whose name has to differ from those before it. -/
def field (read : List Field) : Parser Field := do
  let name ← expect .identifier .fieldName
  if name.text ∈ read.map Field.name then failAt name .uniqueField
  else
    return ⟨name.text, ← declaredTag⟩

/-- Reads a struct behind its first word. -/
def struct (position : Position) : Parser Expr := do
  let name ← definedName
  let _ ← expect .leftParen .startOfFields
  let fields ← parenthesized bound field .endOfFields
  return .struct name fields position

/-- Reads a return behind its word.  It has a value if the next token can begin one. -/
def returning (position : Position) : Parser Expr := do
  if startsExpression (← current).kind then
    return .returning (some (← recur .expression)) position
  else
    return .returning none position

/-- Passes the token of a literal. -/
def literal (value : Literal) (position : Position) : Parser Expr := do
  advance
  return .literal value position

/-- Reads an atom. -/
def atom : Parser Expr := do
  let t ← current
  let p := t.first
  match t.kind with
  | .int =>
    match (readInteger? t.text.toList).bind word? with
    | some n => literal (.int n) p
    | none => failAt t .integerInRange
  | .float =>
    match readFloat? t.text.toList with
    | some x => literal (.float x) p
    | none => failAt t .floatNumeral
  | .string => literal (.str t.text) p
  | .keyword .true => literal (.bool true) p
  | .keyword .false => literal (.bool false) p
  | .keyword .null => literal .null p
  | .identifier =>
    advance
    return .identifier t.text p
  | .leftParen => advance *> block recur bound p
  | .keyword .if => advance *> choice recur bound p
  | .keyword .for => advance *> forLoop recur p
  | .keyword .while => advance *> whileLoop recur p
  | .keyword .fun => advance *> function recur bound p
  | .keyword .struct => advance *> struct bound p
  | .keyword .return => advance *> returning recur p
  | _ => failAt t .expression

/-- Reads an atom with members, and one call of it with members. -/
def call : Parser Expr := do
  let callee ← members bound (← atom recur bound)
  if ← accept .leftParen then
    let arguments ← parenthesized bound (fun _ => argument recur) .endOfArguments
    members bound (.call callee arguments callee.position)
  else
    return callee

/-- Reads a power.  Its exponent is a factor, so powers group from right to left. -/
def power : Parser Expr := do
  let base ← call recur bound
  let t ← current
  if t.kind = .power then
    advance
    let exponent ← recur .factor
    return .binary .power base exponent t.first
  else
    return base

/-- Reads a factor. -/
def factor : Parser Expr := do
  let t ← current
  match signOperator? t.kind with
  | some operator =>
    advance
    let operand ← recur .factor
    return .unary operator operand t.first
  | none => power recur bound

/-- Reads a product. -/
def term : Parser Expr := do
  leftChain productOperator? (factor recur bound) bound (← factor recur bound)

/-- Reads a sum. -/
def arithmetic : Parser Expr := do
  leftChain sumOperator? (term recur bound) bound (← term recur bound)

/-- Reads a comparison.  Comparisons do not chain. -/
def comparison : Parser Expr := do
  let t ← current
  if t.kind = .keyword .not then
    advance
    let operand ← recur .comparison
    return .not operand t.first
  else
    let left ← arithmetic recur bound
    let t ← current
    match comparisonOperator? t.kind with
    | some operator =>
      advance
      let right ← arithmetic recur bound
      return .binary operator left right t.first
    | none => return left

/-- Reads an expression. -/
def expression : Parser Expr := do
  let t ← current
  if t.kind = .keyword .set then
    advance
    assignment recur bound t.first
  else
    leftChain logicalOperator? (comparison recur bound) bound (← comparison recur bound)

/-- Reads a phrase of the given level. -/
def step : Level → Parser Expr
  | .expression => expression recur bound
  | .comparison => comparison recur bound
  | .factor => factor recur bound

end Phrase

/-- Reads a phrase from a stream with fewer than `bound` tokens. -/
def phrase : Nat → Phrase.Level → Parser Expr
  | 0, _ => fail .expression
  | bound + 1, level => Phrase.step (phrase bound) bound level

end SnapshotScript
