import SnapshotScript.Main
import SnapshotScript.Tree.Outline
import SnapshotScript.Proofs.Discipline
import SnapshotScript.Proofs.Places
import SnapshotScript.Proofs.Results
import SnapshotScript.Proofs.Simulation
import SnapshotScript.Proofs.Lockstep
import SnapshotScript.Proofs.Snapshot.Archive
import SnapshotScript.Proofs.Snapshot.Refinement
import SnapshotScript.Proofs.Instance.Typing
import SnapshotScript.Proofs.Instance.Matching
import SnapshotScript.Proofs.Grammar.Productions
import SnapshotScript.Proofs.Grammar.Properties
import SnapshotScript.Proofs.Grammar.Reading
import SnapshotScript.Proofs.Grammar.Agreement
import SnapshotScript.Proofs.Instance.Declaration
import SnapshotScript.Proofs.Grammar.Beginnings
import SnapshotScript.Proofs.Snapshot.Unfolding
import SnapshotScript.Proofs.Lexical.Lexeme
import SnapshotScript.Proofs.Lexical.Recognition
import SnapshotScript.Proofs.Lexical.Decomposition
import SnapshotScript.Proofs.Session.Course
import SnapshotScript.Proofs.Session.Continuation
import SnapshotScript.Proofs.Session.Division
import SnapshotScript.Proofs.Printing.Unparsing
import SnapshotScript.Proofs.Printing.Phrases
import SnapshotScript.Proofs.Printing.Constructs
import SnapshotScript.Proofs.Printing.Forms
import SnapshotScript.Proofs.Printing.Roundtrip
import SnapshotScript.Proofs.Failure.Culprit
import SnapshotScript.Proofs.Failure.Places
import SnapshotScript.Proofs.Failure.Origin
import SnapshotScript.Proofs.Session.Quotation
import SnapshotScript.Proofs.Judgement
import SnapshotScript.Proofs.Limit
import SnapshotScript.Tree.Relocation
import SnapshotScript.Proofs.Mirror
import SnapshotScript.Proofs.Recasting
import SnapshotScript.Proofs.Grammar.Relocation
import SnapshotScript.Proofs.Morphism
import SnapshotScript.Proofs.Relocation
import SnapshotScript.Proofs.Session.Layout
import SnapshotScript.Proofs.Failure.Traceback
import SnapshotScript.Proofs.Lexical.Juxtaposition
import SnapshotScript.Proofs.Lexical.Spelling
import SnapshotScript.Proofs.Grammar.Juxtaposition
import SnapshotScript.Proofs.Session.Splitting
import SnapshotScript.Proofs.Failure.Pointing
import SnapshotScript.Proofs.Frames.Operations
import SnapshotScript.Proofs.Frames.Acyclicity
import SnapshotScript.Proofs.Frames.Nesting
import SnapshotScript.Proofs.Arithmetic.Operations
import SnapshotScript.Proofs.Arithmetic.Powers
import SnapshotScript.Proofs.Arithmetic.Numerals
import SnapshotScript.Proofs.Arithmetic.Rounding
import SnapshotScript.Proofs.Arithmetic.Conversion
import SnapshotScript.Proofs.Grammar.FirstImpossible
import SnapshotScript.Proofs.Instance.Arguments
import SnapshotScript.Proofs.Comparison.Floats
import SnapshotScript.Proofs.Comparison.Ordering
import SnapshotScript.Proofs.Notes
import SnapshotScript.Proofs.Loops.Rounds
import SnapshotScript.Proofs.Loops.Counting
import SnapshotScript.Proofs.Grammar.Material
import SnapshotScript.Proofs.Occurrence
import SnapshotScript.Proofs.Names
import SnapshotScript.Proofs.Comparison.Equality
import SnapshotScript.Proofs.Display
import SnapshotScript.Proofs.Lexical.Progress
import SnapshotScript.Proofs.Grammar.Progress
import SnapshotScript.Proofs.Unreachable
import SnapshotScript.Proofs.Arithmetic.FloatTexts
