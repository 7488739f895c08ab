import SnapshotScript.Console
import SnapshotScript.Log.Filter.Reading
import SnapshotScript.Script

/-!
# The command line

The program runs a script, or a session if none is given.  Its arguments are read from left to
right; the first mistake or request for information ends the reading.
-/

namespace SnapshotScript

/-- What to run. -/
structure Settings where
  /-- The path of the script. -/
  script : Option String
  /-- The greatest depth of calls. -/
  depth : Nat
  verbose : Bool
deriving DecidableEq, Repr

/-- What a command line asks for. -/
inductive Request where
  | run (settings : Settings)
  | version
  | help
deriving DecidableEq, Repr

namespace CommandLine

/-- The options read so far. -/
structure Options where
  script : Option String
  depth : Option Nat
  verbose : Bool
deriving DecidableEq, Repr

/-- The options of an empty command line. -/
def Options.none : Options := ⟨.none, .none, false⟩

/-- The settings that the options amount to. -/
def Options.settings (o : Options) : Settings :=
  ⟨o.script, o.depth.getD defaultDepth, o.verbose⟩

/-- How far an argument has led: to more options, to a request, or to a mistake. -/
inductive Progress where
  | more (o : Options)
  | done (r : Request)
  | mistake

/-- Reads a natural number below `2 ^ 64`, with an optional plus in front of it. -/
def readDepth? (text : String) : Option Nat :=
  let digits :=
    match text.toList with
    | '+' :: cs => cs
    | cs => cs
  (readDigits? digits).filter fun n => n < Nat.pow 2 64

/-- Takes the path of the script, of which there is only one and which is not empty. -/
def takeScript (o : Options) (path : String) : Progress :=
  if path.isEmpty ∨ o.script.isSome then .mistake else .more { o with script := some path }

/-- Takes the depth of calls, which may be given once. -/
def takeDepth (o : Options) (text : String) : Progress :=
  match readDepth? text, o.depth with
  | some n, none => .more { o with depth := some n }
  | _, _ => .mistake

/-- Takes the flag for more output, which may be given once. -/
def takeVerbose (o : Options) : Progress :=
  if o.verbose then .mistake else .more { o with verbose := true }

/-- Takes flags of one letter that are written together. -/
def takeLetters (o : Options) : List Char → Progress
  | [] => .more o
  | 'v' :: cs =>
    match takeVerbose o with
    | .more o => takeLetters o cs
    | other => other
  | 'V' :: _ => .done .version
  | 'h' :: _ => .done .help
  | _ => .mistake

/-- Whether an argument is taken for an option and not for a value. -/
def isOption (argument : String) : Bool :=
  argument.startsWith "-" && argument ≠ "-"

/-- Takes an argument that is complete by itself. -/
def takeArgument (o : Options) (argument : String) : Progress :=
  if !isOption argument then takeScript o argument
  else if argument.startsWith "--max-depth=" then
    takeDepth o (String.ofList (argument.toList.drop "--max-depth=".length))
  else if argument = "--verbose" then takeVerbose o
  else if argument = "--version" then .done .version
  else if argument = "--help" then .done .help
  else if argument.startsWith "--" then .mistake
  else takeLetters o argument.toList.tail

/-- Reads arguments behind `--`, which are no options. -/
def readPaths (o : Options) : List String → Option Request
  | [] => some (.run o.settings)
  | path :: rest =>
    match takeScript o path with
    | .more o => readPaths o rest
    | .done r => some r
    | .mistake => none

/-- Reads arguments.  There is no request if they are not understood. -/
def readArguments (o : Options) : List String → Option Request
  | [] => some (.run o.settings)
  | "--" :: rest => readPaths o rest
  | ["--max-depth"] => none
  | "--max-depth" :: value :: rest =>
    if isOption value then none
    else
      match takeDepth o value with
      | .more o => readArguments o rest
      | .done r => some r
      | .mistake => none
  | argument :: rest =>
    match takeArgument o argument with
    | .more o => readArguments o rest
    | .done r => some r
    | .mistake => none

/-- What the arguments of the program ask for. -/
def request? (arguments : List String) : Option Request :=
  readArguments .none arguments

/-- The version of the program. -/
def version : String := "aurora_lang 0.1.0\n"

/-- How the program is called. -/
def usage : String :=
  "Usage: aurora_lang [OPTIONS] [INPUT]\n\n" ++
  "  INPUT              script to run; without it an interactive session starts\n" ++
  "  --max-depth N      greatest depth of function calls (default 1000)\n" ++
  "  -v, --verbose      write log entries\n" ++
  "  -h, --help         show this text\n" ++
  "  -V, --version      show the version\n"

/-- The filter for log entries: the given one if it can be read, or else the one that fits the
flag. -/
def logFilter (given : Option String) (verbose : Bool) : LogFilter :=
  (given.bind LogFilter.ofText?).getD (.default verbose)

end CommandLine

/-! ### Running -/

/-- What a run with these settings writes and the failure that ends it, if any, where `files` can be
read and `input` is the standard input. -/
def Settings.run (s : Settings) (files : Directory) (input : List UInt8) :
    List Output × Option Failure :=
  match s.script with
  | some path => Script.run s.depth path (files.readText input path)
  | none => Session.run s.depth ((byteLines input).map decodeText?)

end SnapshotScript
