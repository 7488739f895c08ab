import SnapshotScript.Output
import SnapshotScript.Report
import SnapshotScript.Text.Blank
import SnapshotScript.Text.Lines

/-!
# Interactive sessions

A session collects lines until their parentheses balance and then evaluates them as one text.  The
word `exit` alone on the first line of a text ends the session.
-/

namespace SnapshotScript

/-- Adds the opening parentheses of a line to `sum` and takes away the closing ones.  Those in text
literals and comments do not count; `quoted` tells whether a text literal is open. -/
def parenBalance (sum : Int) : Bool → List Char → Int
  | _, [] => sum
  | true, ['\\'] => sum
  | true, '\\' :: _ :: cs => parenBalance sum true cs
  | quoted, '\'' :: cs => parenBalance sum (!quoted) cs
  | true, _ :: cs => parenBalance sum true cs
  | false, '#' :: _ => sum
  | false, '(' :: cs => parenBalance (sum + 1) false cs
  | false, ')' :: cs => parenBalance (sum - 1) false cs
  | false, _ :: cs => parenBalance sum false cs

/-- The lines that wait for their continuation. -/
structure Pending where
  text : String
  /-- How many parentheses are open. -/
  balance : Int
deriving DecidableEq, Repr

namespace Pending

/-- No lines. -/
def empty : Pending := ⟨"", 0⟩

/-- Adds a line. -/
def add (p : Pending) (line : String) : Pending where
  text := if p.text.isEmpty then line else p.text ++ "\n" ++ line
  balance := parenBalance p.balance false line.toList

/-- Whether another line is needed. -/
def isOpen (p : Pending) : Bool := 0 < p.balance

/-- Whether a line ends the session, where it would be the first of a text. -/
def isExit (p : Pending) (line : String) : Bool :=
  p.text.isEmpty && trimBlank line.toList = "exit".toList

end Pending

/-- The prompt for the first line of a text. -/
def prompt : String := "aurora> "

/-- The prompt for any further line. -/
def continuationPrompt : String := "   ...> "

/-- The name under which reports mention the lines of a session. -/
def sessionSource : String := "<stdin>"

/-- An interactive session. -/
structure Session where
  interpreter : Interpreter
  pending : Pending

namespace Session

/-- A session at its beginning. -/
def new (depth : Nat) : Session :=
  ⟨.new depth, .empty⟩

/-- Evaluates a text, and gives what this writes: what the program does, and its value unless that
is `null`, or the report of its error. -/
def evaluateText (i : Interpreter) (text : String) : List Output × Interpreter :=
  let (result, i) := i.evaluateSource text
  let (events, i) := i.takeJournal
  let shown :=
    match result with
    | .ok .null => []
    | .ok v => [.shown (v.display i.machine.cells ++ "\n")]
    | .error e => [.reported (e.report sessionSource text)]
  (events.map Event.output ++ shown, i)

/-- What a session does with a line: it ends, or writes something and waits for the next line. -/
def feed (s : Session) (line : String) : Option (List Output × Session) :=
  if s.pending.isExit line then none
  else
    let pending := s.pending.add line
    if pending.isOpen then some ([.shown continuationPrompt], { s with pending })
    else
      let (written, i) := evaluateText s.interpreter pending.text
      some (written ++ [.shown prompt], ⟨i, .empty⟩)

/-- What a session writes for the lines of its input, and the failure that ends it, if any.  A line
without a text, which stands for bytes that are no UTF-8, is such a failure.  `written` holds what
has been written before, the last piece first. -/
def feedAll (written : List (List Output)) (s : Session) :
    List (Option String) → List Output × Option Failure
  | [] => (written.reverse.flatten, none)
  | none :: _ => (written.reverse.flatten, some (.unreadable invalidText))
  | some line :: lines =>
    match s.feed line with
    | none => (written.reverse.flatten, none)
    | some (more, s) => feedAll (more :: written) s lines

/-- A whole session. -/
def run (depth : Nat) (lines : List (Option String)) : List Output × Option Failure :=
  feedAll [[.shown prompt]] (.new depth) lines

end Session

end SnapshotScript
