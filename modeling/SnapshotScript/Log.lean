import SnapshotScript.Number.Numeral

/-!
# Log entries

The stages of a run leave entries in a log.  Each has a level, a target and named parts, from which
it is decided whether it is written.
-/

namespace SnapshotScript

/-- The levels of a log, from the one that admits nothing to the one that admits everything. -/
inductive LogLevel where
  | off | error | warn | info | debug | trace
deriving DecidableEq, Repr

namespace LogLevel

/-- All levels, each admitting more than those before it. -/
def all : List LogLevel :=
  [.off, .error, .warn, .info, .debug, .trace]

/-- The written form of a level. -/
def name : LogLevel → String
  | .off => "off"
  | .error => "error"
  | .warn => "warn"
  | .info => "info"
  | .debug => "debug"
  | .trace => "trace"

/-- The place of a level in the list of all of them. -/
def rank (l : LogLevel) : Nat :=
  all.idxOf l

/-- Reads a level: its name, in any case, or its place in the list of all of them, with an optional
plus in front of it. -/
def ofText? (text : List Char) : Option LogLevel :=
  let digits :=
    match text with
    | '+' :: cs => cs
    | cs => cs
  match readDigits? digits with
  | some n => all[n]?
  | none => all.find? fun l => l.name.toList == text.map Char.toLower

end LogLevel

/-- What a stage of a run reports. -/
inductive LogEntry where
  | runningScript (path : String)
  /-- A source has been split into so many tokens, its end among them. -/
  | tokenized (count : Nat)
  /-- A program of so many expressions has been read. -/
  | parsed (expressions : Nat)
  /-- An instance of a struct with so many fields has been made. -/
  | constructed (name : String) (fields : Nat)
  /-- A function is called while so many calls are active, this one among them. -/
  | calling (function : String) (depth : Nat)
  /-- A program has ended, with a value or with an error. -/
  | finished (ok : Bool)
deriving DecidableEq, Repr

namespace LogEntry

/-- The level of an entry. -/
def level : LogEntry → LogLevel
  | .runningScript .. | .parsed .. | .constructed .. => .debug
  | .tokenized .. | .calling .. | .finished .. => .trace

/-- The target of an entry. -/
def target : LogEntry → String
  | .runningScript .. => "aurora_lang"
  | .tokenized .. => "aurora_lang::interpreter::lexer"
  | .parsed .. => "aurora_lang::interpreter::parser"
  | .constructed .. | .calling .. | .finished .. => "aurora_lang::interpreter::evaluator"

/-- What has happened. -/
def message : LogEntry → String
  | .runningScript .. => "running script"
  | .tokenized .. => "tokenized source"
  | .parsed .. => "parsed program"
  | .constructed .. => "constructed struct instance"
  | .calling .. => "calling function"
  | .finished .. => "evaluation finished"

/-- The details of an entry under their names. -/
def details : LogEntry → List (String × String)
  | .runningScript path => [("path", path)]
  | .tokenized count => [("count", toString count)]
  | .parsed expressions => [("expressions", toString expressions)]
  | .constructed name fields => [("name", name), ("fields", toString fields)]
  | .calling function depth => [("function", "\"" ++ function ++ "\""), ("depth", toString depth)]
  | .finished ok => [("ok", toString ok)]

/-- The names of all parts of an entry. -/
def partNames (e : LogEntry) : List String :=
  "message" :: e.details.map Prod.fst

/-- The line of an entry, without the time. -/
def line (e : LogEntry) : String :=
  s!"{e.level.name.toUpper} {e.target}: {e.message}" ++
    String.join (e.details.map fun (name, text) => s!" {name}={text}") ++ "\n"

end LogEntry

end SnapshotScript
