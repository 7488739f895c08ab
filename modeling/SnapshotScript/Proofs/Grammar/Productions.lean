import SnapshotScript.Parser

/-!
# The grammar

A derivation shows that a phrase stands at the beginning of a list of tokens and what is left
behind it.  It also gives the tree of the phrase, with the place of every node.  Phrases are derived
from the productions of the grammar, one for each level of binding strength from expressions down
to atoms.

Phrases are greedy: no phrase ends right before a token that could extend it.  Where more tokens
could belong to a phrase, the production says which token must not come next.
-/

namespace SnapshotScript

namespace Grammar

/-- The kinds of phrases, from those that bind loosest to those that bind tightest. -/
inductive Nonterminal where
  | expression | comparison | arithmetic | term | factor | power | call | atom
deriving DecidableEq, Repr

namespace Nonterminal

/-- The phrases that bind tighter by one level. -/
def tighter : Nonterminal → Nonterminal
  | .expression => .comparison
  | .comparison => .arithmetic
  | .arithmetic => .term
  | .term => .factor
  | .factor => .power
  | .power => .call
  | .call => .atom
  | .atom => .atom

end Nonterminal

/-- The kind of the next token. -/
def next : List Token → Token.Kind
  | [] => .endOfInput
  | t :: _ => t.kind

/-! ### Tables -/

/-- The operators with two operands, by the phrases of which they are the outermost.  That of powers
is not among them, as its operands are of different kinds. -/
inductive Infix : Nonterminal → Token.Kind → BinaryOperator → Prop
  | and : Infix .expression (.keyword .and) .and
  | or : Infix .expression (.keyword .or) .or
  | equal : Infix .comparison .equal .equal
  | notEqual : Infix .comparison .notEqual .notEqual
  | less : Infix .comparison .less .less
  | greater : Infix .comparison .greater .greater
  | lessEqual : Infix .comparison .lessEqual .lessEqual
  | greaterEqual : Infix .comparison .greaterEqual .greaterEqual
  | add : Infix .arithmetic .plus .add
  | subtract : Infix .arithmetic .minus .subtract
  | multiply : Infix .term .times .multiply
  | divide : Infix .term .divide .divide

/-- The operators in front of a factor. -/
inductive Sign : Token.Kind → UnaryOperator → Prop
  | plus : Sign .plus .plus
  | minus : Sign .minus .minus

/-- The constants that tokens stand for.  The text of a number has to be a numeral, and that of an
integer one in the range of 64 bits. -/
inductive Constant : Token.Kind → String → Literal → Prop
  | int {text z n} : readInteger? text.toList = some z → word? z = some n →
    Constant .int text (.int n)
  | float {text x} : readFloat? text.toList = some x → Constant .float text (.float x)
  | str {text} : Constant .string text (.str text)
  | true {text} : Constant (.keyword .true) text (.bool true)
  | false {text} : Constant (.keyword .false) text (.bool false)
  | null {text} : Constant (.keyword .null) text .null

/-- The tokens with which atoms can begin. -/
def atomBeginnings : List Token.Kind :=
  [.int, .float, .string, .keyword .true, .keyword .false, .keyword .null, .identifier, .leftParen,
    .keyword .if, .keyword .for, .keyword .while, .keyword .fun, .keyword .struct,
    .keyword .return]

/-- The tokens with which phrases can begin. -/
def Nonterminal.beginnings : Nonterminal → List Token.Kind
  | .expression => [.keyword .set, .keyword .not, .plus, .minus] ++ atomBeginnings
  | .comparison => [.keyword .not, .plus, .minus] ++ atomBeginnings
  | .arithmetic | .term | .factor => [.plus, .minus] ++ atomBeginnings
  | .power | .call | .atom => atomBeginnings

/-! ### Parts of phrases -/

/-- The tokens `fields` name the members `.a.b.c` at the beginning, and no further member follows.
-/
inductive Members : List Token → List Token → List Token → Prop
  | done {ts} : next ts ≠ .dot → Members ts [] ts
  | more {dot field ts fields rest} : dot.kind = .dot → field.kind = .identifier →
    Members ts fields rest → Members (dot :: field :: ts) (field :: fields) rest

/-- Members of members of a value. -/
def select (e : Expr) (fields : List Token) : Expr :=
  fields.foldl (fun target field => .member target field.text field.first) e

/-- Items with commas between them, up to a closing parenthesis that belongs to them. -/
inductive Row {α : Type} (Item : List Token → α → List Token → Prop) :
    List Token → List α → List Token → Prop
  | last {ts a close rest} : Item ts a (close :: rest) → close.kind = .rightParen →
    Row Item ts [a] rest
  | more {ts a comma ts' as rest} : Item ts a (comma :: ts') → comma.kind = .comma →
    Row Item ts' as rest → Row Item ts (a :: as) rest

/-- Like a row, but there need not be any items. -/
inductive Parenthesized {α : Type} (Item : List Token → α → List Token → Prop) :
    List Token → List α → List Token → Prop
  | none {close rest} : close.kind = .rightParen → Parenthesized Item (close :: rest) [] rest
  | some {ts as rest} : Row Item ts as rest → Parenthesized Item ts as rest

/-- The name of a parameter. -/
inductive Parameter : List Token → String → List Token → Prop
  | name {t rest} : t.kind = .identifier → Parameter (t :: rest) t.text rest

/-- The type of a field.  Only a name can stand for the type of a struct. -/
inductive Tag : List Token → TypeTag → List Token → Prop
  | function {t rest} : t.kind = .keyword .fun → Tag (t :: rest) .function rest
  | null {t rest} : t.kind = .keyword .null → Tag (t :: rest) .null rest
  | name {t rest} : t.kind = .identifier → Tag (t :: rest) (.ofName t.text) rest

/-- The declaration of a field, which may have a type. -/
inductive FieldDeclaration : List Token → Field → List Token → Prop
  | untyped {t rest} : t.kind = .identifier → FieldDeclaration (t :: rest) ⟨t.text, .any⟩ rest
  | typed {t colon ts tag rest} : t.kind = .identifier → colon.kind = .colon → Tag ts tag rest →
    FieldDeclaration (t :: colon :: ts) ⟨t.text, tag⟩ rest

/-- The name of a definition, which may be absent. -/
inductive DefinedName : List Token → Option String → List Token → Prop
  | absent {ts} : DefinedName ts none ts
  | present {t rest} : t.kind = .identifier → DefinedName (t :: rest) (some t.text) rest

/-! ### Phrases -/

mutual

/-- A phrase stands at the beginning of the tokens, and these are its tree and what is left. -/
inductive Derives : Nonterminal → List Token → Expr → List Token → Prop
  | assign {set name sign ts value rest} : set.kind = .keyword .set → name.kind = .identifier →
    sign.kind = .assign → Derives .expression ts value rest →
    Derives .expression (set :: name :: sign :: ts) (.assign name.text value set.first) rest
  | memberSet {set name ts path field sign ts' value rest} : set.kind = .keyword .set →
    name.kind = .identifier → Members ts (path ++ [field]) (sign :: ts') →
    sign.kind = .assign → Derives .expression ts' value rest →
    Derives .expression (set :: name :: ts)
      (.memberSet (select (.identifier name.text name.first) path) field.text value set.first) rest
  | logical {ts left ts' e rest} : Derives .comparison ts left ts' →
    Chain .expression left ts' e rest → Derives .expression ts e rest
  | not {word ts e rest} : word.kind = .keyword .not → Derives .comparison ts e rest →
    Derives .comparison (word :: ts) (.not e word.first) rest
  | compare {ts left sign ts' o right rest} : Derives .arithmetic ts left (sign :: ts') →
    Infix .comparison sign.kind o → Derives .arithmetic ts' right rest →
    Derives .comparison ts (.binary o left right sign.first) rest
  | uncompared {ts e rest} : Derives .arithmetic ts e rest →
    (∀ o, ¬ Infix .comparison (next rest) o) → Derives .comparison ts e rest
  | sum {ts left ts' e rest} : Derives .term ts left ts' → Chain .arithmetic left ts' e rest →
    Derives .arithmetic ts e rest
  | product {ts left ts' e rest} : Derives .factor ts left ts' → Chain .term left ts' e rest →
    Derives .term ts e rest
  | signed {sign o ts e rest} : Sign sign.kind o → Derives .factor ts e rest →
    Derives .factor (sign :: ts) (.unary o e sign.first) rest
  | unsigned {ts e rest} : Derives .power ts e rest → Derives .factor ts e rest
  | raised {ts base sign ts' exponent rest} : Derives .call ts base (sign :: ts') →
    sign.kind = .power → Derives .factor ts' exponent rest →
    Derives .power ts (.binary .power base exponent sign.first) rest
  | unraised {ts e rest} : Derives .call ts e rest → next rest ≠ .power → Derives .power ts e rest
  | called {ts e ts₁ before paren ts₂ arguments ts₃ after rest} : Derives .atom ts e ts₁ →
    Members ts₁ before (paren :: ts₂) → paren.kind = .leftParen →
    Parenthesized DerivesArgument ts₂ arguments ts₃ → Members ts₃ after rest →
    Derives .call ts
      (select (.call (select e before) arguments (select e before).position) after) rest
  | uncalled {ts e ts' fields rest} : Derives .atom ts e ts' → Members ts' fields rest →
    next rest ≠ .leftParen → Derives .call ts (select e fields) rest
  | atom {t ts e rest} : Atom t.kind t ts e rest → Derives .atom (t :: ts) e rest

/-- Operators of one level with operands between them continue a phrase from left to right. -/
inductive Chain : Nonterminal → Expr → List Token → Expr → List Token → Prop
  | done {N e rest} : (∀ o, ¬ Infix N (next rest) o) → Chain N e rest e rest
  | more {N sign o ts left right ts' e rest} : Infix N sign.kind o →
    Derives N.tighter ts right ts' → Chain N (.binary o left right sign.first) ts' e rest →
    Chain N left (sign :: ts) e rest

/-- An argument of a call, which may have a name. -/
inductive DerivesArgument : List Token → Argument Expr → List Token → Prop
  | named {name colon ts e rest} : name.kind = .identifier → colon.kind = .colon →
    Derives .expression ts e rest → DerivesArgument (name :: colon :: ts) ⟨some name.text, e⟩ rest
  | unnamed {ts e rest} : Derives .expression ts e rest → DerivesArgument ts ⟨none, e⟩ rest

/-- An atom whose first token `t` is of the given kind. -/
inductive Atom : Token.Kind → Token → List Token → Expr → List Token → Prop
  | constant {k t rest v} : Constant k t.text v → Atom k t rest (.literal v t.first) rest
  | name {t rest} : Atom .identifier t rest (.identifier t.text t.first) rest
  | group {t ts e close rest} : Items ts [e] (close :: rest) → close.kind = .rightParen →
    Atom .leftParen t ts e rest
  | block {t ts items close rest} : Items ts items (close :: rest) → close.kind = .rightParen →
    items.length ≠ 1 → Atom .leftParen t ts (.block items t.first) rest
  | choice {t ts condition word ts₁ body ts₂ branches otherwise rest} :
    Derives .expression ts condition (word :: ts₁) → word.kind = .keyword .then →
    Derives .expression ts₁ body ts₂ → Branches ts₂ branches otherwise rest →
    Atom (.keyword .if) t ts (.choice (⟨condition, body⟩ :: branches) otherwise t.first) rest
  | forLoop {t name sign ts first mark ts₁ last word ts₂ body rest} : name.kind = .identifier →
    sign.kind = .assign → Derives .expression ts first (mark :: ts₁) → mark.kind = .keyword .to →
    Derives .expression ts₁ last (word :: ts₂) → word.kind = .keyword .then →
    Derives .expression ts₂ body rest →
    Atom (.keyword .for) t (name :: sign :: ts)
      (.forLoop name.text first last none body t.first) rest
  | forLoopStep {t name sign ts first mark ts₁ last word' ts₂ step word ts₃ body rest} :
    name.kind = .identifier → sign.kind = .assign → Derives .expression ts first (mark :: ts₁) →
    mark.kind = .keyword .to → Derives .expression ts₁ last (word' :: ts₂) →
    word'.kind = .keyword .step → Derives .expression ts₂ step (word :: ts₃) →
    word.kind = .keyword .then → Derives .expression ts₃ body rest →
    Atom (.keyword .for) t (name :: sign :: ts)
      (.forLoop name.text first last (some step) body t.first) rest
  | whileLoop {t ts condition word ts' body rest} : Derives .expression ts condition (word :: ts') →
    word.kind = .keyword .then → Derives .expression ts' body rest →
    Atom (.keyword .while) t ts (.whileLoop condition body t.first) rest
  | function {t ts name paren ts₁ parameters arrow ts₂ body rest} :
    DefinedName ts name (paren :: ts₁) → paren.kind = .leftParen →
    Parenthesized Parameter ts₁ parameters (arrow :: ts₂) → parameters.Nodup →
    arrow.kind = .arrow → Derives .expression ts₂ body rest →
    Atom (.keyword .fun) t ts (.function name parameters body t.first) rest
  | struct {t ts name paren ts' fields rest} : DefinedName ts name (paren :: ts') →
    paren.kind = .leftParen → Parenthesized FieldDeclaration ts' fields rest →
    (fields.map Field.name).Nodup →
    Atom (.keyword .struct) t ts (.struct name fields t.first) rest
  | returning {t ts e rest} : Derives .expression ts e rest →
    Atom (.keyword .return) t ts (.returning (some e) t.first) rest
  | returningNothing {t rest} : next rest ∉ Nonterminal.expression.beginnings →
    Atom (.keyword .return) t rest (.returning none t.first) rest

/-- Expressions one after the other. -/
inductive Items : List Token → List Expr → List Token → Prop
  | done {ts} : Items ts [] ts
  | more {ts e ts' items rest} : Derives .expression ts e ts' → Items ts' items rest →
    Items ts (e :: items) rest

/-- Further branches of a choice.  One without a condition, or whose condition is a block without
items, is taken in any case; no other follows it. -/
inductive Branches : List Token → List (Branch Expr) → Option Expr → List Token → Prop
  | done {ts} : next ts ≠ .keyword .eli → next ts ≠ .keyword .el → Branches ts [] none ts
  | otherwise {word ts e rest} : word.kind = .keyword .el → Derives .expression ts e rest →
    Branches (word :: ts) [] (some e) rest
  | noCondition {word word' ts e rest} : word.kind = .keyword .eli → word'.kind = .keyword .then →
    Derives .expression ts e rest → Branches (word :: word' :: ts) [] (some e) rest
  | emptyCondition {word ts position word' ts' e rest} : word.kind = .keyword .eli →
    Derives .expression ts (.block [] position) (word' :: ts') → word'.kind = .keyword .then →
    Derives .expression ts' e rest → Branches (word :: ts) [] (some e) rest
  | more {word ts condition word' ts₁ body ts₂ branches otherwise rest} :
    word.kind = .keyword .eli → Derives .expression ts condition (word' :: ts₁) →
    (∀ position, condition ≠ .block [] position) → word'.kind = .keyword .then →
    Derives .expression ts₁ body ts₂ → Branches ts₂ branches otherwise rest →
    Branches (word :: ts) (⟨condition, body⟩ :: branches) otherwise rest

end

/-- The tokens before the first end of the input are the expressions of the program, which stands
where they begin. -/
def Program (tokens : List Token) (e : Expr) : Prop :=
  ∃ items, Items (tokens.takeWhile (·.kind ≠ .endOfInput)) items [] ∧
    e = .block items (TokenStream.ofTokens tokens).current.first

end Grammar

end SnapshotScript
