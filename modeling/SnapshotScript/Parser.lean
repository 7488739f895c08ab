import SnapshotScript.Parser.Phrase

/-!
# Reading programs

A program is a row of expressions up to the end of the input.  Its tree is a block, which stands at
the first token.
-/

namespace SnapshotScript

namespace Program

/-- Reads expressions up to the end of the input, at most `rounds`.  `read` holds those read so far
in reverse. -/
def items (bound : Nat) : Nat → List Expr → Parser (List Expr)
  | 0, read => return read.reverse
  | rounds + 1, read => do
    if ← Parser.isAt .endOfInput then return read.reverse
    else
      let item ← phrase bound .expression
      items bound rounds (item :: read)

/-- Reads a program from the place that the stream has reached. -/
def parse : Parser Expr := do
  let s ← get
  let bound := s.rest.length + 1
  return .block (← items bound bound []) s.current.first

end Program

/-- The program that a list of tokens forms. -/
def parseTokens (tokens : List Token) : Except SyntaxError Expr :=
  match Program.parse (.ofTokens tokens) with
  | .ok program _ => .ok program
  | .error e _ => .error e

/-- The results of reading a program several times from one stream, each time from where the time
before stopped. -/
def parseRepeatedly : Nat → TokenStream → List (Except SyntaxError Expr)
  | 0, _ => []
  | attempts + 1, s =>
    match Program.parse s with
    | .ok program s => .ok program :: parseRepeatedly attempts s
    | .error e s => .error e :: parseRepeatedly attempts s

end SnapshotScript
