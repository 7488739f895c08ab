import SnapshotScript.Token.Lexer

/-!
# The lexical grammar

What the tokens of a text are, told without reading it.  A text consists of lexemes with layout
between them.  `Lexeme` lists the lexemes of each kind of token, together with the text that the
token keeps; `Layout` is what may stand between lexemes.  Of the lexemes that begin at one place the
longest one counts (`Longest`).

`Tokenizes` puts this together: it follows a text from its beginning and gives either its tokens,
each with the positions of its two ends, or the first place at which no lexeme can be accepted
(`Faulty`).
-/

namespace SnapshotScript

namespace Position

/-- The position behind a text that stands at the beginning: the line is one more than there are
line feeds in it, and the column one more than there are characters behind the last of them. -/
def behind (before : List Char) : Position :=
  ⟨before.count '\n' + 1, (before.reverse.takeWhile (· ≠ '\n')).length + 1⟩

/-- A character more moves the position on by that character. -/
theorem behind_concat (before : List Char) (c : Char) :
    behind (before ++ [c]) = (behind before).advance c := by
  by_cases hc : c = '\n'
  · simp [behind, advance, hc]
  · simp [behind, advance, hc]

/-- Moving on over more characters leads to the position behind all of them. -/
theorem behind_append (before cs : List Char) :
    behind (before ++ cs) = (behind before).advanceAll cs := by
  induction cs generalizing before with
  | nil => simp
  | cons c cs ih =>
    rw [← List.singleton_append, ← List.append_assoc, ih, behind_concat]
    rfl

/-- Positions are ordered as they come in a text. -/
instance : LE Position :=
  ⟨fun p q => p.line < q.line ∨ p.line = q.line ∧ p.column ≤ q.column⟩

theorem le_def {p q : Position} :
    p ≤ q ↔ p.line < q.line ∨ p.line = q.line ∧ p.column ≤ q.column :=
  Iff.rfl

theorem le_trans {p q r : Position} (hpq : p ≤ q) (hqr : q ≤ r) : p ≤ r := by
  rw [le_def] at *
  omega

/-- A character leads forward. -/
theorem le_advance (p : Position) (c : Char) : p ≤ p.advance c := by
  rw [le_def]
  by_cases hc : c = '\n'
  · simp [advance, hc]
  · simp [advance, hc]

/-- Characters lead forward. -/
theorem le_advanceAll (p : Position) (cs : List Char) : p ≤ p.advanceAll cs := by
  induction cs generalizing p with
  | nil => exact .inr ⟨rfl, Nat.le_refl _⟩
  | cons c cs ih => exact le_trans (le_advance p c) (ih (p.advance c))

end Position

namespace Lexical

/-! ### Lexemes -/

/-- The kinds of tokens that are written as one or two punctuation characters. -/
def symbols : List Token.Kind :=
  [.assign, .plus, .minus, .times, .divide, .power, .equal, .notEqual, .less, .greater,
    .lessEqual, .greaterEqual, .leftParen, .rightParen, .comma, .arrow, .colon, .dot]

/-- A backslash before the first character stands for the second one. -/
inductive Escape : Char → Char → Prop
  | quote : Escape '\'' '\''
  | backslash : Escape '\\' '\\'
  | lineFeed : Escape 'n' '\n'
  | tab : Escape 't' '\t'

/-- The first text is a way to write the second one between quotes. -/
inductive Written : List Char → List Char → Prop
  | nil : Written [] []
  | plain {c cs ds} : c ≠ '\'' → c ≠ '\\' → Written cs ds → Written (c :: cs) (c :: ds)
  | escaped {c d cs ds} : Escape c d → Written cs ds → Written ('\\' :: c :: cs) (d :: ds)

/-- Digits, at least one. -/
def Digits (cs : List Char) : Prop :=
  cs ≠ [] ∧ ∀ c ∈ cs, isDigit c = true

/-- The characters are a lexeme of this kind, of which the token keeps the given text.  That is the
lexeme itself, and for a text literal its content. -/
inductive Lexeme : Token.Kind → List Char → List Char → Prop
  | identifier {c cs} : isNameStart c = true → (∀ d ∈ cs, isNamePart d = true) →
    (∀ word : Keyword, c :: cs ≠ word.word.toList) → Lexeme .identifier (c :: cs) (c :: cs)
  | keyword (word : Keyword) : Lexeme (.keyword word) word.word.toList word.word.toList
  | int {cs} : Digits cs → Lexeme .int cs cs
  | float {cs ds} : Digits cs → Digits ds → Lexeme .float (cs ++ '.' :: ds) (cs ++ '.' :: ds)
  | string {written content} : Written written content →
    Lexeme .string ('\'' :: (written ++ ['\''])) content
  | symbol {k} : k ∈ symbols → Lexeme k k.spelling.toList k.spelling.toList

/-- The lexeme stands at the beginning of the text, and no longer one does. -/
structure Longest (k : Token.Kind) (lexeme content text : List Char) : Prop where
  isLexeme : Lexeme k lexeme content
  isBeginning : lexeme <+: text
  maximal : ∀ k' lexeme' content', Lexeme k' lexeme' content' → lexeme' <+: text →
    lexeme'.length ≤ lexeme.length

/-- The text begins with a lexeme that makes a token.  An integer may not be too large. -/
structure Accepted (k : Token.Kind) (lexeme content text : List Char) : Prop
    extends Longest k lexeme content text where
  inRange : k = .int → decimalValue lexeme ≤ largestInteger

/-! ### Layout -/

/-- The first text is layout before the second one: blank characters and complete comments.  A
comment goes on to the end of its line, which may be the end of the whole text. -/
inductive Layout : List Char → List Char → Prop
  | nil {rest} : Layout [] rest
  | blank {c gap rest} : isBlank c = true → Layout gap rest → Layout (c :: gap) rest
  | comment {text gap rest} : '\n' ∉ text → Layout gap rest →
    Layout ('#' :: (text ++ '\n' :: gap)) rest
  | lastComment {text} : '\n' ∉ text → Layout ('#' :: text) []

/-! ### Faults -/

/-- Behind the text `before`, the characters `read` have to be given up with the error, and `rest`
is what follows them. -/
inductive Faulty (before : List Char) : List Char → List Char → LexError → Prop
  /-- No lexeme begins with the character. -/
  | unexpectedCharacter {c rest} : isBlank c = false → c ≠ '#' → c ≠ '\'' →
    (∀ k lexeme content, Lexeme k lexeme content → ¬ lexeme <+: c :: rest) →
    Faulty before [c] rest (.unexpectedCharacter (.behind before) c)
  /-- The text ends within the text literal that begins here. -/
  | unterminatedString {written content tail} : Written written content →
    tail = [] ∨ tail = ['\\'] →
    Faulty before ('\'' :: (written ++ tail)) [] (.unterminatedString (.behind before))
  /-- In the text literal that begins here, a backslash stands before a character that needs
  none. -/
  | unknownEscape {written content c rest} : Written written content → (∀ d, ¬ Escape c d) →
    Faulty before ('\'' :: (written ++ ['\\', c])) rest
      (.unknownEscape (.behind (before ++ '\'' :: written)) c)
  /-- The longest lexeme is an integer, and it is too large. -/
  | invalidNumber {digits rest} : Longest .int digits digits (digits ++ rest) →
    largestInteger < decimalValue digits →
    Faulty before digits rest (.invalidNumber (.behind before) (String.ofList digits))

/-! ### Tokens of a text -/

/-- The token of a lexeme that stands behind the text `before`. -/
def token (before : List Char) (k : Token.Kind) (lexeme content : List Char) : Token :=
  ⟨k, String.ofList content, .behind before, .behind (before ++ lexeme)⟩

/-- The text `text`, which stands behind `before`, has these tokens, up to the end of the text, or
this first error.  All lexemes before an error are accepted. -/
inductive Tokenizes : List Char → List Char → Except LexError (List Token) → Prop
  | finish {before gap} : Layout gap [] →
    Tokenizes before gap (.ok [.endAt (.behind (before ++ gap))])
  | fault {before gap read rest e} : Layout gap (read ++ rest) →
    Faulty (before ++ gap) read rest e → Tokenizes before (gap ++ (read ++ rest)) (.error e)
  | token {before gap k lexeme content rest result} : Layout gap (lexeme ++ rest) →
    Accepted k lexeme content (lexeme ++ rest) →
    Tokenizes (before ++ gap ++ lexeme) rest result →
    Tokenizes before (gap ++ (lexeme ++ rest))
      (result.map (Lexical.token (before ++ gap) k lexeme content :: ·))

end Lexical

end SnapshotScript
