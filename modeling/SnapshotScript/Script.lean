import SnapshotScript.Directory
import SnapshotScript.Output
import SnapshotScript.Report

/-!
# Scripts

A script is read from a file and evaluated as one text.
-/

namespace SnapshotScript

namespace Script

/-- Runs a script that is known under `path`, given its text or the reason why it cannot be read.
The result is what is written and the failure of the run, if any. -/
def run (depth : Nat) (path : String) :
    Except FileError String → List Output × Option Failure
  | .error e =>
    ([.reported s!"Error: Could not read {path}: {e.message}\n"], some (.unreadable e.message))
  | .ok text =>
    let i := (Interpreter.new depth).log (.runningScript path)
    let (result, i) := i.evaluateSource text
    let written := i.takeJournal.1.map Event.output
    match result with
    | .ok _ => (written, none)
    | .error e => (written ++ [.reported (e.report path text)], some e)

end Script

end SnapshotScript
