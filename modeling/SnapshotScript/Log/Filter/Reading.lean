import SnapshotScript.Log.Filter
import SnapshotScript.Text.Blank
import SnapshotScript.Text.Symbol

/-!
# Reading log filters

A filter is written as rules with commas between them.  A rule is a level for all targets, or a
target and what follows it: square brackets, which hold the name of a span and a part in braces, and
an equals sign with a level.  All of these may be left out, and without a level everything is
written.  For example, `info,aurora_lang=debug` and `aurora_lang[{path}]=trace` are filters.

Blanks around a rule are allowed but not cut off.  They belong to the target or to the level that
they touch, and a level with blanks is none.
-/

namespace SnapshotScript

/-- What stands in square brackets: the name of a span and the part in braces. -/
structure WrittenSpan where
  name : List Char
  /-- The part, if there are braces. -/
  part : Option (List Char)
deriving DecidableEq, Repr

/-- The pieces of the text of a rule. -/
structure WrittenRule where
  /-- What stands in front of the brackets and of the equals sign. -/
  target : List Char
  /-- What stands in square brackets, if there are any. -/
  span : Option WrittenSpan
  /-- What follows the equals sign, if there is one. -/
  level : Option (List Char)
deriving DecidableEq, Repr

namespace WrittenRule

/-- Whether a target can begin with `c`: a letter, a digit or one of three signs. -/
def startsTarget (c : Char) : Bool :=
  c.isAlphanum || ['-', ':', '_'].contains c || (0x80 ≤ c.toNat && !isSymbol c)

/-- The brace in front of a part. -/
def openingBrace : Char := '\x7b'

/-- The brace behind a part. -/
def closingBrace : Char := '\x7d'

/-- Whether `c` ends a target. -/
def endsTarget (c : Char) : Bool :=
  c = '=' || c = '['

/-- Whether `c` ends the name of a span. -/
def endsSpanName (c : Char) : Bool :=
  c = ']' || c = openingBrace

/-- Reads what follows a target and its brackets: nothing, or an equals sign and a level. -/
def readLevelText (target : List Char) (span : Option WrittenSpan) (text : List Char) :
    Option WrittenRule :=
  if text.all isBlank then some ⟨target, span, none⟩
  else
    match text with
    | '=' :: level => some ⟨target, span, some level⟩
    | _ => none

/-- Reads what follows the opening bracket behind a target. -/
def readSpan (target text : List Char) : Option WrittenRule :=
  let name := text.takeWhile fun c => !endsSpanName c
  match text.dropWhile fun c => !endsSpanName c with
  | [] => none
  | ']' :: rest => readLevelText target (some ⟨name, none⟩) rest
  | _ :: rest =>
    let part := rest.takeWhile (· ≠ closingBrace)
    match rest.dropWhile (· ≠ closingBrace) with
    | _ :: ']' :: rest =>
      if part = [] then none else readLevelText target (some ⟨name, some part⟩) rest
    | _ => none

/-- Reads a rule that does not begin with a blank. -/
def read : List Char → Option WrittenRule
  | [] => none
  | '[' :: text => readSpan [] text
  | c :: text =>
    if startsTarget c then
      let target := c :: text.takeWhile fun d => !endsTarget d
      match text.dropWhile fun d => !endsTarget d with
      | [] => some ⟨target, none, none⟩
      | '=' :: level => some ⟨target, none, some level⟩
      | _ :: rest => readSpan target rest
    else none

/-- The level of a rule.  Everything is written if it is left out. -/
def level? (w : WrittenRule) : Option LogLevel :=
  match w.level with
  | none | some [] => some .trace
  | some text => LogLevel.ofText? text

/-- The names of the parts that entries have to have.  There are none for a rule about spans or
about the values of parts, which covers no entry. -/
def parts? (w : WrittenRule) : Option (List String) :=
  match w.span with
  | none => some []
  | some ⟨[], some part⟩ => if part.contains '=' then none else some [String.ofList part]
  | some _ => none

/-- The rules that a written one amounts to, which are none if it covers no entry.  A target by
itself is a level if it reads as one. -/
def rules? (w : WrittenRule) : Option (List LogRule) :=
  match w.span, w.level, LogLevel.ofText? w.target with
  | none, none, some level => some [⟨"", [], level⟩]
  | _, _, _ => w.level?.map fun level =>
    w.parts?.toList.map fun parts => ⟨String.ofList w.target, parts, level⟩

end WrittenRule

namespace LogFilter

/-- Reads a rule with the blanks around it.  A rule behind blanks covers no entry, and it cannot
have a level. -/
def readRule? (text : List Char) : Option (List LogRule) :=
  (WrittenRule.read (text.dropWhile isBlank)).bind fun w =>
    if (text.head?.any isBlank) = false then w.rules?
    else if w.level.isSome then none
    else some []

/-- The texts between the commas of a text. -/
def ruleTexts : List Char → List (List Char)
  | [] => [[]]
  | ',' :: cs => [] :: ruleTexts cs
  | c :: cs =>
    match ruleTexts cs with
    | [] => [[c]]
    | rule :: rules => (c :: rule) :: rules

/-- Reads a filter.  Empty rules are left out. -/
def ofText? (text : String) : Option LogFilter :=
  (((ruleTexts text.toList).filter fun rule => rule ≠ []).mapM readRule?).map fun rules =>
    ⟨rules.flatten⟩

example : ofText? "Trace" = some ⟨[⟨"", [], .trace⟩]⟩ := by decide +kernel

-- A rule can name a part.
example : ofText? "info,a[\x7bpath\x7d]=4" = some ⟨[⟨"", [], .info⟩, ⟨"a", ["path"], .debug⟩]⟩ := by
  decide +kernel

-- A blank in front of a level spoils a filter.
example : ofText? "a= trace" = none := by decide +kernel

end LogFilter

end SnapshotScript
