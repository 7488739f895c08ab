import SnapshotScript.Log

/-!
# Log filters

A filter is a list of rules.  Each rule says up to which level the entries of some targets are
written; where several rules are about an entry, the most specific one decides.
-/

namespace SnapshotScript

/-- A rule of a filter: which entries it is about, and up to which level they are written. -/
structure LogRule where
  /-- What the targets of the entries begin with. -/
  target : String
  /-- The names of parts that the entries have to have. -/
  parts : List String
  level : LogLevel
deriving DecidableEq, Repr

namespace LogRule

/-- Whether a rule is about an entry. -/
def covers (r : LogRule) (e : LogEntry) : Bool :=
  r.target.toList.isPrefixOf e.target.toList && r.parts.all fun name => e.partNames.contains name

/-- How two rules compare in being specific: by the lengths of their targets, then by how many parts
they name, and then by these names. -/
def compareSpecific (r s : LogRule) : Ordering :=
  (compare r.target.utf8ByteSize s.target.utf8ByteSize).then <|
    (compare r.parts.length s.parts.length).then <| compare r.parts s.parts

end LogRule

/-- Which entries are written.  The most specific rule about an entry decides; of rules that are
equally specific it is the last one.  An entry that no rule is about is not written. -/
structure LogFilter where
  rules : List LogRule
deriving DecidableEq, Repr

namespace LogFilter

/-- The filter that admits nothing. -/
def silent : LogFilter := ⟨[]⟩

/-- The filter when none is given.  A verbose run writes more. -/
def default (verbose : Bool) : LogFilter :=
  if verbose then ⟨[⟨"aurora_lang", [], .debug⟩]⟩ else ⟨[⟨"", [], .warn⟩]⟩

/-- The more specific one of a rule found before and a later one. -/
def moreSpecific (found : Option LogRule) (r : LogRule) : Option LogRule :=
  match found with
  | some s => if r.compareSpecific s = .lt then some s else some r
  | none => some r

/-- The rule that decides on an entry. -/
def ruleFor? (f : LogFilter) (e : LogEntry) : Option LogRule :=
  (f.rules.filter fun r => r.covers e).foldl moreSpecific none

/-- Whether an entry is written. -/
def admits (f : LogFilter) (e : LogEntry) : Bool :=
  match f.ruleFor? e with
  | some r => e.level.rank ≤ r.level.rank
  | none => false

end LogFilter

end SnapshotScript
