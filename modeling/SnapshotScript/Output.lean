import SnapshotScript.Log.Filter
import SnapshotScript.Machine

/-!
# What a run writes

A run writes to three places: the session or script writes prompts and values, the program prints,
and reports and log entries go to the error stream.  All of it is kept in the order of writing, and
each stream is a selection from it.
-/

namespace SnapshotScript

/-- A piece of what a run writes. -/
inductive Output where
  /-- A prompt or a value, written by a session. -/
  | shown (text : String)
  /-- A text that the program printed. -/
  | printed (text : String)
  /-- An error report. -/
  | reported (text : String)
  | logged (entry : LogEntry)
deriving DecidableEq, Repr

/-- An event of a run as output. -/
def Event.output : Event → Output
  | .printed text => .printed text
  | .logged entry => .logged entry

namespace Output

/-- What goes to the standard output. -/
def toStandard : Output → String
  | .shown text | .printed text => text
  | _ => ""

/-- What goes to the error stream. -/
def toErrors (filter : LogFilter) : Output → String
  | .reported text => text
  | .logged entry => if filter.admits entry then entry.line else ""
  | _ => ""

/-- What a session has written itself. -/
def toSession : Output → String
  | .shown text => text
  | _ => ""

/-- What the program has printed. -/
def toPrinted : Output → String
  | .printed text => text
  | _ => ""

/-- All that goes to one stream. -/
def collect (stream : Output → String) (written : List Output) : String :=
  String.join (written.map stream)

/-- What is written first goes to a stream first. -/
theorem collect_append (stream : Output → String) (written more : List Output) :
    collect stream (written ++ more) = collect stream written ++ collect stream more := by
  simp [collect, String.join_append]

end Output

end SnapshotScript
