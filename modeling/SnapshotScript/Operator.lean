import SnapshotScript.Fault
import SnapshotScript.Value

/-!
# Operators

Integers are combined exactly; where the result does not fit into an integer, the operands are
combined as floating-point numbers instead.
-/

namespace SnapshotScript

/-- The greatest length in bytes of a text made by repetition. -/
def longestRepetition : Nat := Nat.pow 2 30

/-- A text written `count` times in a row. -/
def repeatText (text : String) (count : Nat) : String :=
  if count = 0 then ""
  else
    let half := repeatText text (count / 2)
    if count % 2 = 0 then half ++ half else half ++ half ++ text
termination_by count

namespace Operator

variable {κ : Type}

/-- An integer if there is one, and a floating-point number otherwise. -/
def intOr (n? : Option Int64) (x : Float) : Value κ :=
  match n? with
  | some n => .int n
  | none => .float x

/-- The sum of two numbers. -/
def sum : NumericPair → Value κ
  | .ints m n => intOr (word? (m.toInt + n.toInt)) (wordToFloat m + wordToFloat n)
  | .floats x y => .float (x + y)

/-- The difference of two numbers. -/
def difference : NumericPair → Value κ
  | .ints m n => intOr (word? (m.toInt - n.toInt)) (wordToFloat m - wordToFloat n)
  | .floats x y => .float (x - y)

/-- The product of two numbers. -/
def product : NumericPair → Value κ
  | .ints m n => intOr (word? (m.toInt * n.toInt)) (wordToFloat m * wordToFloat n)
  | .floats x y => .float (x * y)

/-- The quotient of two numbers.  It is an integer if the division leaves no rest. -/
def quotient : NumericPair → Except Fault (Value κ)
  | .ints m n =>
    if n = 0 then .error .divisionByZero
    else if n.toInt ∣ m.toInt then
      .ok (intOr (word? (m.toInt / n.toInt)) (wordToFloat m / wordToFloat n))
    else .ok (.float (wordToFloat m / wordToFloat n))
  | .floats x y => if y == 0.0 then .error .divisionByZero else .ok (.float (x / y))

/-- The power of two numbers.  It is an integer if the exponent is one that is not negative and
below `exponentBound`, and the result fits. -/
def power : NumericPair → Value κ
  | .ints m n =>
    let exact := if 0 ≤ n.toInt ∧ n.toInt < exponentBound then wordPower? m n.toInt.toNat else none
    intOr exact ((wordToFloat m).pow (wordToFloat n))
  | .floats x y => .float (x.pow y)

/-- The text written `count` times. -/
def repetition (text : String) (count : Int64) : Except Fault (Value κ) :=
  if count < 0 then .error .negativeRepetition
  else if text.utf8ByteSize * count.toInt.toNat ≤ longestRepetition then
    .ok (.str (repeatText text count.toInt.toNat))
  else .error (.longRepetition longestRepetition)

/-- Whether two values are equal.  `null` is equal to itself only, numbers are compared as numbers,
and other values have to be of one type. -/
def areEqual (v w : Value κ) : Except Fault Bool :=
  match v, w with
  | .null, w => .ok ((Value.null : Value κ).same w)
  | v, .null => .ok (v.same .null)
  | v, w =>
    if v.isNumber && w.isNumber then .ok (v.compareNumbers? w == some .eq)
    else if v.typeName = w.typeName then .ok (v.same w)
    else .error (.incomparable v.typeName w.typeName)

/-- The order of two texts or two numbers. -/
def order (v w : Value κ) : Except Fault Ordering :=
  let ordering? :=
    match v, w with
    | .str s, .str t => some (compare s t)
    | v, w => v.compareNumbers? w
  match ordering? with
  | some ordering => .ok ordering
  | none => .error (.unordered v.typeName w.typeName)

/-- Combines two numbers, or finds fault with the operands. -/
def onNumbers (operator : BinaryOperator) (v w : Value κ)
    (combine : NumericPair → Except Fault (Value κ)) : Except Fault (Value κ) :=
  match v.numericPair? w with
  | some pair => combine pair
  | none => .error (.binaryOperands operator v.typeName w.typeName)

/-- The value of a binary operator. -/
def binary (operator : BinaryOperator) (v w : Value κ) : Except Fault (Value κ) :=
  match operator with
  | .add =>
    match v, w with
    | .str s, .str t => .ok (.str (s ++ t))
    | v, w => onNumbers .add v w fun pair => .ok (sum pair)
  | .subtract => onNumbers .subtract v w fun pair => .ok (difference pair)
  | .multiply =>
    match v, w with
    | .str text, .int count => repetition text count
    | .int count, .str text => repetition text count
    | v, w => onNumbers .multiply v w fun pair => .ok (product pair)
  | .divide => onNumbers .divide v w quotient
  | .power => onNumbers .power v w fun pair => .ok (power pair)
  | .equal => return .bool (← areEqual v w)
  | .notEqual => return .bool !(← areEqual v w)
  | .less => return .bool ((← order v w) == .lt)
  | .greater => return .bool ((← order v w) == .gt)
  | .lessEqual => return .bool ((← order v w) != .gt)
  | .greaterEqual => return .bool ((← order v w) != .lt)
  | .and => .ok (.bool (v.truthy && w.truthy))
  | .or => .ok (.bool (v.truthy || w.truthy))

/-- The value of a unary operator. -/
def unary (operator : UnaryOperator) (v : Value κ) : Except Fault (Value κ) :=
  match operator, v with
  | .plus, .int n => .ok (.int n)
  | .plus, .float x => .ok (.float x)
  | .minus, .int n => .ok (intOr (word? (-n.toInt)) (-(wordToFloat n)))
  | .minus, .float x => .ok (.float (-x))
  | operator, v => .error (.unaryOperand operator v.typeName)

/-- In which direction a loop with the given step runs: up to its bound from below, or down to it
from above.  It cannot run with a step that is neither positive nor negative. -/
def stepDirection (step : Value κ) : Except Fault Ordering :=
  if step.isNumber then
    match step.compareNumbers? (.int 0) with
    | some .gt => .ok .lt
    | some .lt => .ok .gt
    | _ => .error .zeroStep
  else .error (.stepType step.typeName)

end Operator

end SnapshotScript
