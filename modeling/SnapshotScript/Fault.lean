import SnapshotScript.Number.Numeral
import SnapshotScript.Tree

/-!
# Faults of running programs

A fault is a reason why an expression has no value.  Types are mentioned by their names.
-/

namespace SnapshotScript

/-- The kinds of faults. -/
inductive Fault.Kind where
  | name | type | arity | divisionByZero | recursionLimit
deriving DecidableEq, Repr

/-- The written form of a kind. -/
def Fault.Kind.text : Fault.Kind → String
  | .name => "NameError"
  | .type => "TypeError"
  | .arity => "ArityError"
  | .divisionByZero => "DivisionByZero"
  | .recursionLimit => "RecursionLimit"

/-- A reason why an expression has no value. -/
inductive Fault where
  | undefinedVariable (name : String)
  | unknownField (struct field : String)
  | repeatedField (struct field : String)
  | missingField (struct field : String)
  | unaryOperand (operator : UnaryOperator) (type : String)
  | binaryOperands (operator : BinaryOperator) (left right : String)
  | incomparable (left right : String)
  | unordered (left right : String)
  | negativeRepetition
  | longRepetition (limit : Nat)
  | loopBounds (first bound : String)
  | zeroStep
  | stepType (type : String)
  | loopVariable (name : String)
  | notCallable (type : String)
  | namedArguments (callee : String)
  | mixedArguments (struct : String)
  | notAnObject (field type : String)
  | fieldType (struct : String) (field : Field) (type : String)
  | inconvertible (source target : String)
  | noInteger (x : Float)
  | functionArity (name : String) (expected given : Nat)
  | builtinArity (name : String) (expected given : Nat)
  | structArity (name : String) (expected given : Nat)
  | divisionByZero
  | recursionLimit (limit : Nat)
deriving DecidableEq

namespace Fault

/-- The kind of a fault. -/
def kind : Fault → Kind
  | .undefinedVariable .. | .unknownField .. | .repeatedField .. | .missingField .. => .name
  | .functionArity .. | .builtinArity .. | .structArity .. => .arity
  | .divisionByZero => .divisionByZero
  | .recursionLimit .. => .recursionLimit
  | .unaryOperand .. | .binaryOperands .. | .incomparable .. | .unordered .. | .negativeRepetition
  | .longRepetition .. | .loopBounds .. | .zeroStep | .stepType .. | .loopVariable ..
  | .notCallable .. | .namedArguments .. | .mixedArguments .. | .notAnObject .. | .fieldType ..
  | .inconvertible .. | .noInteger .. => .type

/-- The fault in words. -/
def message : Fault → String
  | .undefinedVariable name => s!"Undefined variable '{name}'"
  | .unknownField struct field => s!"Struct '{struct}' has no field '{field}'"
  | .repeatedField struct field => s!"Field '{field}' of struct '{struct}' given more than once"
  | .missingField struct field => s!"Missing field '{field}' for struct '{struct}'"
  | .unaryOperand operator type =>
    s!"Unsupported operand type for unary {operator.symbol}: '{type}'"
  | .binaryOperands operator left right =>
    s!"Unsupported operand types for {operator.symbol}: '{left}' and '{right}'"
  | .incomparable left right => s!"Cannot compare '{left}' and '{right}'"
  | .unordered left right => s!"Cannot order '{left}' and '{right}'"
  | .negativeRepetition => "Cannot repeat a string a negative number of times"
  | .longRepetition limit => s!"Repeated string would be longer than {limit} bytes"
  | .loopBounds first bound => s!"For loop bounds must be numbers, got '{first}' and '{bound}'"
  | .zeroStep => "For loop step cannot be zero"
  | .stepType type => s!"For loop step must be a number, got '{type}'"
  | .loopVariable name => s!"For loop variable '{name}' must stay a number"
  | .notCallable type => s!"'{type}' is not callable"
  | .namedArguments callee => s!"'{callee}' does not accept named arguments"
  | .mixedArguments struct =>
    s!"Struct '{struct}' takes either all named or all positional arguments"
  | .notAnObject field type => s!"Cannot access field '{field}' of '{type}'"
  | .fieldType struct field type =>
    s!"Field '{field.name}' of struct '{struct}' expects {field.tag.text}, got '{type}'"
  | .inconvertible source target => s!"Cannot convert '{source}' to {target}"
  | .noInteger x => s!"Cannot convert {plainFloatText x} to int"
  | .functionArity name expected given =>
    s!"Function '{name}' expects {expected} argument(s), got {given}"
  | .builtinArity name expected given =>
    s!"Builtin '{name}' expects {expected} argument(s), got {given}"
  | .structArity name expected given =>
    s!"Struct '{name}' expects {expected} field(s), got {given}"
  | .divisionByZero => "Division by zero"
  | .recursionLimit limit => s!"Maximum recursion depth of {limit} exceeded"

end Fault

/-- A call that has not ended yet. -/
structure ActiveCall where
  /-- The name of the function. -/
  name : String
  /-- The position of the call. -/
  site : Position
deriving DecidableEq, Repr

/-- A fault with its place and the calls that were active, the outermost one first. -/
structure RuntimeError where
  fault : Fault
  position : Position
  trace : List ActiveCall
deriving DecidableEq

/-- The error in words, with the kind of the fault. -/
def RuntimeError.message (e : RuntimeError) : String :=
  e.fault.kind.text ++ ": " ++ e.fault.message

end SnapshotScript
