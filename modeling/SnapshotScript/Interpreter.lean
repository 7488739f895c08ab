import SnapshotScript.Evaluation
import SnapshotScript.Machine
import SnapshotScript.Parser
import SnapshotScript.Token.Lexer

/-!
# Running source texts

An interpreter reads a source text and evaluates it in the state that the texts before it have left
behind.  An error ends the text in which it arises, and what was done before it stays.
-/

namespace SnapshotScript

/-- Why a source text has no value. -/
inductive Failure where
  | lexical (e : LexError)
  | syntactic (e : SyntaxError)
  | runtime (e : RuntimeError)
  /-- The text itself could not be read. -/
  | unreadable (reason : String)
  /-- The steps that were allowed did not suffice. -/
  | exhausted
deriving DecidableEq

namespace Failure

/-- The place of the error, if it has one. -/
def position? : Failure → Option Position
  | .lexical e => some e.position
  | .syntactic e => some e.position
  | .runtime e => some e.position
  | .unreadable _ | .exhausted => none

/-- The error in words. -/
def message : Failure → String
  | .lexical e => e.message
  | .syntactic e => e.message
  | .runtime e => e.message
  | .unreadable reason => reason
  | .exhausted => "The program did not end within the allowed number of steps"

end Failure

/-- The program that a source text forms. -/
def parseSource (source : String) : Except Failure Expr :=
  match tokenize source with
  | .error e => .error (.lexical e)
  | .ok tokens =>
    match parseTokens tokens with
    | .error e => .error (.syntactic e)
    | .ok program => .ok program

/-- A text forms a program if its tokens do. -/
theorem parseSource_eq_ok_iff {source : String} {program : Expr} :
    parseSource source = .ok program ↔
      ∃ tokens, tokenize source = .ok tokens ∧ parseTokens tokens = .ok program := by
  unfold parseSource
  cases tokenize source with
  | error e => simp
  | ok tokens => cases hparse : parseTokens tokens <;> simp [hparse]

/-- The greatest depth of calls where none is given. -/
def defaultDepth : Nat := 1000

/-- The number of steps that a run may take where none is given.  No run of practical length needs
as many. -/
def defaultSteps : Nat := Nat.pow 10 18

/-- The state that source texts leave behind, and the limits of their evaluation. -/
structure Interpreter (σ : Type := Machine) where
  machine : σ
  depth : Nat
  steps : Nat

namespace Interpreter

/-- An interpreter that has not read anything. -/
def new (depth : Nat) : Interpreter :=
  ⟨.initial, depth, defaultSteps⟩

/-- The journal since it was last taken, and the interpreter with an empty one. -/
def takeJournal (i : Interpreter) : List Event × Interpreter :=
  (i.machine.journal.toList, { i with machine := { i.machine with journal := #[] } })

variable {σ κ : Type} [Runtime σ κ]

/-- Adds an entry to the journal. -/
def log (i : Interpreter σ) (entry : LogEntry) : Interpreter σ :=
  { i with machine := Runtime.record (.logged entry) i.machine }

/-- Evaluates a program.  A `return` outside of every function ends it with a value. -/
def run (i : Interpreter σ) (program : Expr) : Except Failure (Value κ) × Interpreter σ :=
  let finish (result : Except Failure (Value κ)) (m : σ) (ok : Bool) :=
    (result, { i with machine := Runtime.forgetCalls m : Interpreter σ }.log (.finished ok))
  match evaluate i.depth i.steps program i.machine with
  | .ok v m => finish (.ok v) m true
  | .error (.returned v) m => finish (.ok v) m true
  | .error (.failed e) m => finish (.error (.runtime e)) m false
  | .error .exhausted m => finish (.error .exhausted) m false

/-- A program does not change the limits. -/
theorem run_limits (i : Interpreter σ) (program : Expr) :
    (i.run program).2.depth = i.depth ∧ (i.run program).2.steps = i.steps := by
  unfold run
  cases evaluate i.depth i.steps program i.machine with
  | ok v m => exact ⟨rfl, rfl⟩
  | error u m => cases u <;> exact ⟨rfl, rfl⟩

/-- The number of expressions of a program. -/
def itemCount : Expr → Nat
  | .block items _ => items.length
  | _ => 1

/-- Reads and evaluates a source text. -/
def evaluateSource (i : Interpreter σ) (source : String) :
    Except Failure (Value κ) × Interpreter σ :=
  match tokenize source with
  | .error e => (.error (.lexical e), i)
  | .ok tokens =>
    let i := i.log (.tokenized tokens.length)
    match parseTokens tokens with
    | .error e => (.error (.syntactic e), i)
    | .ok program => (i.log (.parsed (itemCount program))).run program

/-- A source text does not change the limits. -/
theorem evaluateSource_limits (i : Interpreter σ) (source : String) :
    (i.evaluateSource source).2.depth = i.depth ∧
      (i.evaluateSource source).2.steps = i.steps := by
  unfold evaluateSource
  split
  · exact ⟨rfl, rfl⟩
  · dsimp only
    split
    · exact ⟨rfl, rfl⟩
    · exact run_limits ((i.log _).log _) _

end Interpreter

end SnapshotScript
