import SnapshotScript.Token

/-!
# Streams of tokens

A stream holds the tokens that have not been read yet and the place where the input ends.  A parser
reads from a stream and gives a result or an error; either way the stream is left where the reading
stopped.
-/

namespace SnapshotScript

/-- What a parser was looking for when it failed. -/
inductive Expectation where
  | assignedName | fieldAfterDot | assignSign
  | endOfArguments
  | integerInRange | floatNumeral | expression
  | endOfBlock
  | thenAfterIf | thenAfterEli
  | loopVariable | assignAfterVariable | toAfterStart | thenAfterBounds
  | thenAfterWhile
  | startOfParameters | parameterName | uniqueParameter | endOfParameters | arrowBeforeBody
  | startOfFields | fieldName | uniqueField | fieldType | endOfFields
deriving DecidableEq, Repr

/-- The expectation in words. -/
def Expectation.text : Expectation → String
  | .assignedName => "variable name after 'set'"
  | .fieldAfterDot => "field name after '.'"
  | .assignSign => "'=' after assignment target"
  | .endOfArguments => "')' after call arguments"
  | .integerInRange => "integer literal in range"
  | .floatNumeral => "float literal"
  | .expression => "expression"
  | .endOfBlock => "')' after expression"
  | .thenAfterIf => "'then' after 'if' condition"
  | .thenAfterEli => "'then' after 'eli' condition"
  | .loopVariable => "loop variable after 'for'"
  | .assignAfterVariable => "'=' after loop variable"
  | .toAfterStart => "'to' after loop start"
  | .thenAfterBounds => "'then' after loop bounds"
  | .thenAfterWhile => "'then' after 'while' condition"
  | .startOfParameters => "'(' before function parameters"
  | .parameterName => "parameter name"
  | .uniqueParameter => "unique parameter name"
  | .endOfParameters => "')' after function parameters"
  | .arrowBeforeBody => "'->' before function body"
  | .startOfFields => "'(' before struct fields"
  | .fieldName => "field name"
  | .uniqueField => "unique field name"
  | .fieldType => "field type"
  | .endOfFields => "')' after struct fields"

/-- A token that cannot continue the program, and what was expected in its place. -/
structure SyntaxError where
  expected : Expectation
  found : Token
deriving DecidableEq, Repr

namespace SyntaxError

/-- The place of the token. -/
def position (e : SyntaxError) : Position := e.found.first

/-- The error in words. -/
def message (e : SyntaxError) : String :=
  s!"Expected {e.expected.text}, found {e.found.display}"

end SyntaxError

/-- Tokens to be read, none of which is the end of the input, and the place of that end. -/
structure TokenStream where
  rest : List Token
  finish : Position
deriving Repr

namespace TokenStream

/-- The stream of the tokens before the first end of input.  If there is none, the input ends
behind the last token. -/
def ofTokens (tokens : List Token) : TokenStream where
  rest := tokens.takeWhile (·.kind ≠ .endOfInput)
  finish :=
    match tokens.find? (·.kind = .endOfInput) with
    | some t => t.first
    | none => (tokens.getLast?.map Token.last).getD .start

/-- The next token. -/
def current (s : TokenStream) : Token :=
  s.rest.headD (.endAt s.finish)

end TokenStream

/-- A parser reads from a stream of tokens. -/
abbrev Parser := EStateM SyntaxError TokenStream

namespace Parser

/-- Looks at the next token. -/
def current : Parser Token :=
  return (← get).current

/-- Passes the next token.  The end of the input stays where it is. -/
def advance : Parser Unit :=
  modify fun s => { s with rest := s.rest.tail }

/-- Fails at the token `found`. -/
def failAt {α : Type} (found : Token) (expected : Expectation) : Parser α :=
  throw ⟨expected, found⟩

/-- Fails at the next token. -/
def fail {α : Type} (expected : Expectation) : Parser α := do
  failAt (← current) expected

/-- Whether the next token is of the given kind. -/
def isAt (kind : Token.Kind) : Parser Bool :=
  return (← current).kind == kind

/-- Passes the next token if it is of the given kind, and tells whether it was. -/
def accept (kind : Token.Kind) : Parser Bool := do
  if ← isAt kind then
    advance
    return true
  else
    return false

/-- Passes the next token, which has to be of the given kind. -/
def expect (kind : Token.Kind) (expected : Expectation) : Parser Token := do
  let t ← current
  if t.kind = kind then
    advance
    return t
  else
    failAt t expected

/-- Reads items with commas between them, at most `bound`.  Each item may depend on those before
it, which `read` holds in reverse. -/
def commaSeparated {α : Type} (item : List α → Parser α) : Nat → List α → Parser (List α)
  | 0, read => return read.reverse
  | bound + 1, read => do
    let x ← item read
    if ← accept .comma then commaSeparated item bound (x :: read)
    else return (x :: read).reverse

end Parser

end SnapshotScript
