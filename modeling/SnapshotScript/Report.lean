import SnapshotScript.Interpreter
import SnapshotScript.Text.Lines

/-!
# Error reports

A report names the place of an error and its message, quotes the line in which it arose with a mark
below the place, and lists the calls that were active.
-/

namespace SnapshotScript

namespace Report

/-- A place in a source that is known under a name. -/
def location (source : String) (p : Position) : String :=
  s!"[{source}:{p.line}:{p.column}]"

/-- The quoted line with a mark below the column, if there is such a line. -/
def quotation (text : String) (p : Position) : String :=
  match line? (p.line - 1) text.toList with
  | some line =>
    let margin := String.ofList (List.replicate (p.column - 1) ' ')
    s!"    {String.ofList line}\n    {margin}^\n"
  | none => ""

/-- The active calls, the outermost one first. -/
def traceback (source : String) : List ActiveCall → String
  | [] => ""
  | calls =>
    "Traceback (most recent call last):\n" ++
      String.join (calls.map fun c => s!"  {location source c.site} in {c.name}\n")

end Report

/-- The report of a failure in a text that is known under the name `source`. -/
def Failure.report (e : Failure) (source text : String) : String :=
  match e.position? with
  | none => s!"Error: {e.message}\n"
  | some p =>
    let calls :=
      match e with
      | .runtime e => e.trace
      | _ => []
    s!"{Report.location source p} Error: {e.message}\n" ++ Report.quotation text p ++
      Report.traceback source calls

end SnapshotScript
