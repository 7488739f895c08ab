import SnapshotScript.Text.Position

/-!
# Tokens

A token is the smallest unit of a program: a number, a text, a name, a reserved word or a symbol,
with the place where it stands.  The end of the input is a token of its own.
-/

namespace SnapshotScript

/-- The reserved words. -/
inductive Keyword where
  | set | and | or | not
  | if | eli | el | then
  | for | to | step | while
  | fun | return | struct
  | true | false | null
deriving DecidableEq, Repr

namespace Keyword

/-- Every reserved word. -/
def all : List Keyword :=
  [.set, .and, .or, .not, .if, .eli, .el, .then, .for, .to, .step, .while, .fun, .return,
    .struct, .true, .false, .null]

/-- The word as it is written. -/
def word : Keyword → String
  | .set => "set"
  | .and => "and"
  | .or => "or"
  | .not => "not"
  | .if => "if"
  | .eli => "eli"
  | .el => "el"
  | .then => "then"
  | .for => "for"
  | .to => "to"
  | .step => "step"
  | .while => "while"
  | .fun => "fun"
  | .return => "return"
  | .struct => "struct"
  | .true => "true"
  | .false => "false"
  | .null => "null"

/-- The reserved word that `text` spells. -/
def ofWord? (text : String) : Option Keyword :=
  all.find? fun k => k.word == text

/-- The list `all` leaves no reserved word out. -/
theorem mem_all (k : Keyword) : k ∈ all := by cases k <;> decide

/-- Reading a reserved word gives it back. -/
theorem ofWord?_word (k : Keyword) : ofWord? k.word = some k := by cases k <;> rfl

end Keyword

/-- The kinds of tokens. -/
inductive Token.Kind where
  | int | float | string
  | identifier
  | keyword (word : Keyword)
  | assign | plus | minus | times | divide | power
  | equal | notEqual | less | greater | lessEqual | greaterEqual
  | leftParen | rightParen | comma | arrow | colon | dot
  | endOfInput
deriving DecidableEq, Repr

/-- The text of a kind that is always written in the same way, and the empty text for the
others. -/
def Token.Kind.spelling : Token.Kind → String
  | .keyword word => word.word
  | .assign => "="
  | .plus => "+"
  | .minus => "-"
  | .times => "*"
  | .divide => "/"
  | .power => "^"
  | .equal => "=="
  | .notEqual => "!="
  | .less => "<"
  | .greater => ">"
  | .lessEqual => "<="
  | .greaterEqual => ">="
  | .leftParen => "("
  | .rightParen => ")"
  | .comma => ","
  | .arrow => "->"
  | .colon => ":"
  | .dot => "."
  | .int | .float | .string | .identifier | .endOfInput => ""

/-- A token with its place in the source. -/
structure Token where
  kind : Token.Kind
  /-- The characters of the token; for a text literal its content, without quotes and escapes. -/
  text : String
  /-- The position of the first character. -/
  first : Position
  /-- The position after the last character. -/
  last : Position
deriving DecidableEq, Repr

namespace Token

/-- The token as error messages name it. -/
def display (t : Token) : String :=
  match t.kind with
  | .endOfInput => "end of input"
  | .string => "'" ++ t.text ++ "'"
  | _ => "`" ++ t.text ++ "`"

/-- The end of the input at the position `p`. -/
def endAt (p : Position) : Token := ⟨.endOfInput, "", p, p⟩

end Token

end SnapshotScript
