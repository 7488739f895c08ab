import SnapshotScript.Text.Lines

/-!
# Directories of files

A directory holds files and other directories under relative paths.  Looking up a path either gives
the bytes of a file or says why it does not.  A path is followed name by name, and the first name
that leads nowhere decides.  An absolute path starts at the outermost directory of the system.
-/

namespace SnapshotScript

/-- Why a file cannot be read. -/
inductive FileError where
  | notFound | notPermitted | notDirectory | isDirectory | nameTooLong
  /-- The path contains the character NUL. -/
  | nulInPath
  | notText
deriving DecidableEq, Repr

/-- The reason in words. -/
def FileError.message : FileError → String
  | .notFound => "No such file or directory (os error 2)"
  | .notPermitted => "Permission denied (os error 13)"
  | .notDirectory => "Not a directory (os error 20)"
  | .isDirectory => "Is a directory (os error 21)"
  | .nameTooLong => "File name too long (os error 36)"
  | .nulInPath => "file name contained an unexpected NUL byte"
  | .notText => invalidText

/-- What stands under a path: a file with its bytes, or a directory. -/
inductive DirectoryEntry where
  | file (bytes : List UInt8)
  | directory
deriving DecidableEq, Repr

/-- Entries under their paths, which are lists of names. -/
abbrev Directory := List (List String × DirectoryEntry)

namespace Directory

/-- The names of which a path consists.  Empty names and those of a single point lead nowhere. -/
def components (path : String) : List String :=
  (path.splitOn "/").filter fun name => name ≠ "" ∧ name ≠ "."

/-- What stands under a path.  There is a directory wherever an entry stands below it. -/
def entry? (d : Directory) (path : List String) : Option DirectoryEntry :=
  match d.find? fun (other, _) => other = path with
  | some (_, entry) => some entry
  | none =>
    if path = [] ∨ d.any fun (other, _) => path.isPrefixOf other then some .directory else none

/-- The most bytes that a name can have. -/
def longestName : Nat := 255

/-- The most bytes that a path can have. -/
def longestPath : Nat := 4095

/-- What a path leads to that leaves the directory it starts in.  Of what is above that one no more
is known than that there are directories. -/
def above : List String → Except FileError DirectoryEntry
  | [] => .ok .directory
  | name :: names =>
    if name = ".." then above names
    else if longestName < name.utf8ByteSize then .error .nameTooLong
    else .error .notFound

/-- Follows a path name by name from the directory `here` on.  Two points lead to the directory
above, which for the outermost one is that directory itself. -/
def follow (d : Directory) (outermost : Bool) (here : List String) :
    List String → Except FileError DirectoryEntry
  | [] =>
    match d.entry? here with
    | some entry => .ok entry
    | none => .error .notFound
  | name :: names =>
    match d.entry? here with
    | none => .error .notFound
    | some (.file _) => .error .notDirectory
    | some .directory =>
      if name = ".." then
        if here = [] ∧ outermost = false then above names
        else d.follow outermost here.dropLast names
      else if longestName < name.utf8ByteSize then .error .nameTooLong
      else d.follow outermost (here ++ [name]) names

/-- Whether the last name of a path has to be that of a directory. -/
def endsInDirectory (path : String) : Bool :=
  match (path.splitOn "/").getLast? with
  | some name => name = "" || name = "."
  | none => false

/-- The names of the directories that a system has. -/
def systemNames : List String :=
  ["bin", "boot", "dev", "etc", "home", "lib", "lib64", "media", "mnt", "opt", "proc", "root",
    "run", "sbin", "srv", "sys", "tmp", "usr", "var"]

/-- The outermost directory of a system with the given standard input.  Of the files in it only
those are known that are there for every program. -/
def system (input : List UInt8) : Directory :=
  [(["dev", "null"], .file []), (["dev", "stdin"], .file input)] ++
    systemNames.map fun name => ([name], .directory)

/-- What stands under a path, where `input` is the standard input. -/
def lookup (d : Directory) (input : List UInt8) (path : String) : Except FileError DirectoryEntry :=
  if path = "" then .error .notFound
  else if path.toList.contains '\x00' then .error .nulInPath
  else if longestPath < path.utf8ByteSize then .error .nameTooLong
  else if path.startsWith "/" then (system input).follow true [] (components path)
  else d.follow false [] (components path)

/-- The bytes of the file under a path. -/
def readBytes (d : Directory) (input : List UInt8) (path : String) :
    Except FileError (List UInt8) :=
  match d.lookup input path with
  | .error e => .error e
  | .ok .directory => .error .isDirectory
  | .ok (.file bytes) => if endsInDirectory path then .error .notDirectory else .ok bytes

/-- The text of the file under a path. -/
def readText (d : Directory) (input : List UInt8) (path : String) : Except FileError String :=
  match d.readBytes input path with
  | .error e => .error e
  | .ok bytes =>
    match decodeText? bytes with
    | some text => .ok text
    | none => .error .notText

end Directory

end SnapshotScript
