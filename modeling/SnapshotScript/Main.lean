import SnapshotScript.CommandLine

/-!
# The program

Reads the arguments, the script and the lines of a session, and writes what a run gives.
-/

namespace SnapshotScript

namespace Terminal

/-- Writes what a run has given. -/
def write (filter : LogFilter) (written : List Output) : IO Unit := do
  let out ← IO.getStdout
  let err ← IO.getStderr
  for o in written do
    out.putStr o.toStandard
    err.putStr (o.toErrors filter)
  out.flush

/-- The number of the system's error for a path through a file. -/
def notDirectoryCode : UInt32 := 20

/-- The number of the system's error for a name or a path with too many bytes. -/
def nameTooLongCode : UInt32 := 36

/-- The reason why a file cannot be read, as the system gives it.  Some of its numbers come with a
minus. -/
def fileError : IO.Error → FileError
  | .inappropriateType _ code _ =>
    if code = notDirectoryCode ∨ code = -notDirectoryCode then .notDirectory else .isDirectory
  | .invalidArgument _ code _ =>
    if code = nameTooLongCode ∨ code = -nameTooLongCode then .nameTooLong else .nulInPath
  | .permissionDenied .. => .notPermitted
  | _ => .notFound

/-- The text of a script. -/
def readScript (path : String) : IO (Except FileError String) := do
  try
    let bytes ← IO.FS.readBinFile path
    match decodeText? bytes.toList with
    | some text => return .ok text
    | none => return .error .notText
  catch e => return .error (fileError e)

/-- Reads the bytes up to the next line feed, which is among them, or up to the end of the input.
`read` holds the bytes read so far in reverse. -/
partial def readLine (input : IO.FS.Stream) (read : List UInt8) : IO (List UInt8) := do
  match (← input.read 1).toList with
  | [] => return read.reverse
  | b :: _ => if b = lineFeed then return (b :: read).reverse else readLine input (b :: read)

/-- Feeds the lines of the standard input to a session. -/
partial def converse (filter : LogFilter) (input : IO.FS.Stream) (s : Session) :
    IO (Option Failure) := do
  match (byteLines (← readLine input [])).map decodeText? with
  | [] => return none
  | none :: _ => return some (.unreadable invalidText)
  | some line :: _ =>
    match s.feed line with
    | none => return none
    | some (written, s) =>
      write filter written
      converse filter input s

/-- Runs the program and gives its exit code. -/
def execute (arguments : List String) : IO UInt32 := do
  match CommandLine.request? arguments with
  | none =>
    (← IO.getStderr).putStr CommandLine.usage
    return 2
  | some .help =>
    IO.print CommandLine.usage
    return 0
  | some .version =>
    IO.print CommandLine.version
    return 0
  | some (.run settings) =>
    let filter := CommandLine.logFilter (← IO.getEnv "RUST_LOG") settings.verbose
    let failure ←
      match settings.script with
      | some path =>
        let (written, failure) := Script.run settings.depth path (← readScript path)
        write filter written
        pure failure
      | none =>
        write filter [.shown prompt]
        converse filter (← IO.getStdin) (.new settings.depth)
    return if failure.isSome then 1 else 0

end Terminal

end SnapshotScript

/-- Runs the program with the arguments of the command line. -/
def main (arguments : List String) : IO UInt32 :=
  SnapshotScript.Terminal.execute arguments
