import SnapshotScript.Number.Digits
import SnapshotScript.Text.Blank
import SnapshotScript.Token

/-!
# Reading tokens

A cursor moves over the characters of a source text.  `Cursor.scan` skips blanks and comments and
reads the longest lexeme at the cursor; it always says where it stopped, also when it fails, so
that a reader may go on behind an error.  `tokenize` reads a whole text and gives up at the first
error.
-/

namespace SnapshotScript

/-! ### Character classes -/

/-- The characters that may begin a name: the ASCII letters and the underscore. -/
def isNameStart (c : Char) : Bool :=
  c.isAlpha || c == '_'

/-- The characters of which a name consists. -/
def isNamePart (c : Char) : Bool :=
  isNameStart c || isDigit c

/-- The largest integer that a literal may denote. -/
def largestInteger : Nat := Nat.pow 2 63 - 1

/-! ### Errors -/

/-- Why no token could be read, with the place that is at fault. -/
inductive LexError where
  /-- No lexeme begins with the character. -/
  | unexpectedCharacter (position : Position) (c : Char)
  /-- The text literal that begins here has no closing quote. -/
  | unterminatedString (position : Position)
  /-- The backslash that stands here is followed by a character that needs none. -/
  | unknownEscape (position : Position) (escape : Char)
  /-- The integer literal that begins here is too large. -/
  | invalidNumber (position : Position) (literal : String)
deriving DecidableEq, Repr

namespace LexError

/-- The place at fault. -/
def position : LexError → Position
  | .unexpectedCharacter p _ | .unterminatedString p | .unknownEscape p _
  | .invalidNumber p _ => p

/-- The error in words. -/
def message : LexError → String
  | .unexpectedCharacter _ c => s!"Unexpected character '{c}'"
  | .unterminatedString _ => "Unterminated string"
  | .unknownEscape _ escape => s!"Unknown escape sequence '\\{escape}'"
  | .invalidNumber _ literal => s!"Invalid number literal '{literal}'"

end LexError

/-! ### Cursors -/

/-- What is left of a source text, and the position where it begins. -/
structure Cursor where
  rest : List Char
  position : Position
deriving DecidableEq, Repr

/-- The result of one attempt to read a token, and where the attempt stopped. -/
structure Scan where
  outcome : Except LexError Token
  next : Cursor

/-- Skips blanks and comments.  A comment begins with a number sign and ends with its line;
`inComment` tells whether the cursor stands in one. -/
def skipLayout : Bool → List Char → Position → Cursor
  | _, [], p => ⟨[], p⟩
  | true, c :: cs, p => skipLayout (c ≠ '\n') cs (p.advance c)
  | false, c :: cs, p =>
    if isBlank c then skipLayout false cs (p.advance c)
    else if c = '#' then skipLayout true cs (p.advance c)
    else ⟨c :: cs, p⟩

/-! ### Text literals -/

/-- The character that a backslash before `c` stands for. -/
def unescape? : Char → Option Char
  | '\'' => some '\''
  | '\\' => some '\\'
  | 'n' => some '\n'
  | 't' => some '\t'
  | _ => none

/-- How the reading of a text literal ended. -/
inductive Quoted where
  | closed (content : List Char) (next : Cursor)
  | unterminated (next : Cursor)
  | unknownEscape (position : Position) (escape : Char) (next : Cursor)

/-- Reads a text literal after its opening quote.  `content` holds the characters read so far in
reverse. -/
def scanQuoted (content : List Char) : List Char → Position → Quoted
  | [], p => .unterminated ⟨[], p⟩
  | '\'' :: cs, p => .closed content.reverse ⟨cs, p.advance '\''⟩
  | ['\\'], p => .unterminated ⟨[], p.advance '\\'⟩
  | '\\' :: c :: cs, p =>
    let after := (p.advance '\\').advance c
    match unescape? c with
    | some d => scanQuoted (d :: content) cs after
    | none => .unknownEscape p c ⟨cs, after⟩
  | c :: cs, p => scanQuoted (c :: content) cs (p.advance c)

/-! ### Other lexemes -/

/-- The symbol at the beginning of a text and what follows it; two characters go before one. -/
def symbol? : List Char → Option (Token.Kind × List Char)
  | '-' :: '>' :: cs => some (.arrow, cs)
  | '=' :: '=' :: cs => some (.equal, cs)
  | '<' :: '=' :: cs => some (.lessEqual, cs)
  | '>' :: '=' :: cs => some (.greaterEqual, cs)
  | '!' :: '=' :: cs => some (.notEqual, cs)
  | '(' :: cs => some (.leftParen, cs)
  | ')' :: cs => some (.rightParen, cs)
  | ',' :: cs => some (.comma, cs)
  | ':' :: cs => some (.colon, cs)
  | '.' :: cs => some (.dot, cs)
  | '+' :: cs => some (.plus, cs)
  | '*' :: cs => some (.times, cs)
  | '/' :: cs => some (.divide, cs)
  | '^' :: cs => some (.power, cs)
  | '-' :: cs => some (.minus, cs)
  | '=' :: cs => some (.assign, cs)
  | '<' :: cs => some (.less, cs)
  | '>' :: cs => some (.greater, cs)
  | _ => none

/-- The digits of a number at the beginning of a text: those before the point, those after it if a
point with a digit behind it follows, and what is left. -/
def splitNumber (cs : List Char) : List Char × Option (List Char) × List Char :=
  let whole := cs.takeWhile isDigit
  match cs.dropWhile isDigit with
  | '.' :: d :: rest =>
    if isDigit d then
      (whole, some ((d :: rest).takeWhile isDigit), (d :: rest).dropWhile isDigit)
    else (whole, none, '.' :: d :: rest)
  | rest => (whole, none, rest)

namespace Cursor

/-- The cursor at the beginning of a text. -/
def ofText (source : String) : Cursor :=
  ⟨source.toList, .start⟩

/-- A token of the given kind whose lexeme is `lexeme`, from `first` on. -/
def accept (kind : Token.Kind) (lexeme rest : List Char) (first : Position) : Scan :=
  let last := first.advanceAll lexeme
  ⟨.ok ⟨kind, String.ofList lexeme, first, last⟩, ⟨rest, last⟩⟩

/-- Reads a text literal whose opening quote, standing at `first`, has been read. -/
def scanString (cs : List Char) (first : Position) : Scan :=
  match scanQuoted [] cs (first.advance '\'') with
  | .closed content next => ⟨.ok ⟨.string, String.ofList content, first, next.position⟩, next⟩
  | .unterminated next => ⟨.error (.unterminatedString first), next⟩
  | .unknownEscape p escape next => ⟨.error (.unknownEscape p escape), next⟩

/-- Reads a number.  An integer has to be at most `largestInteger`. -/
def scanNumber (cs : List Char) (first : Position) : Scan :=
  match splitNumber cs with
  | (whole, some fraction, rest) => accept .float (whole ++ '.' :: fraction) rest first
  | (whole, none, rest) =>
    if decimalValue whole ≤ largestInteger then accept .int whole rest first
    else ⟨.error (.invalidNumber first (String.ofList whole)), ⟨rest, first.advanceAll whole⟩⟩

/-- Reads a name or a reserved word. -/
def scanName (cs : List Char) (first : Position) : Scan :=
  let lexeme := cs.takeWhile isNamePart
  let kind :=
    match Keyword.ofWord? (String.ofList lexeme) with
    | some word => .keyword word
    | none => .identifier
  accept kind lexeme (cs.dropWhile isNamePart) first

/-- Reads a symbol, or fails at a character with which no lexeme begins. -/
def scanSymbol (c : Char) (cs : List Char) (first : Position) : Scan :=
  match symbol? (c :: cs) with
  | some (kind, rest) => accept kind kind.spelling.toList rest first
  | none => ⟨.error (.unexpectedCharacter first c), ⟨cs, first.advance c⟩⟩

/-- Reads the lexeme that begins right here. -/
def scanLexeme (cursor : Cursor) : Scan :=
  match cursor.rest with
  | [] => ⟨.ok (.endAt cursor.position), cursor⟩
  | c :: cs =>
    if c = '\'' then scanString cs cursor.position
    else if isDigit c then scanNumber (c :: cs) cursor.position
    else if isNameStart c then scanName (c :: cs) cursor.position
    else scanSymbol c cs cursor.position

/-- Reads the next token behind blanks and comments. -/
def scan (cursor : Cursor) : Scan :=
  (skipLayout false cursor.rest cursor.position).scanLexeme

/-- The results of `count` attempts to read a token, each from where the one before stopped. -/
def scanTimes : Nat → Cursor → List (Except LexError Token)
  | 0, _ => []
  | count + 1, cursor =>
    let step := cursor.scan
    step.outcome :: scanTimes count step.next

/-- Reads tokens up to the end of the input, which takes at most one token more than there are
characters.  `read` holds the tokens read so far in reverse. -/
def scanAll : Nat → List Token → Cursor → Except LexError (List Token)
  | 0, read, _ => .ok read.reverse
  | bound + 1, read, cursor =>
    let step := cursor.scan
    match step.outcome with
    | .error e => .error e
    | .ok t =>
      if t.kind = .endOfInput then .ok (t :: read).reverse
      else scanAll bound (t :: read) step.next

end Cursor

/-- The tokens of a text, the last of which is its end, or the first error in it. -/
def tokenize (source : String) : Except LexError (List Token) :=
  Cursor.scanAll (source.length + 1) [] (.ofText source)

end SnapshotScript
