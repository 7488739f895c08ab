import SnapshotScript.Output
import SnapshotScript.Proofs.Grammar.Relocation
import SnapshotScript.Proofs.Printing.Unparsing
import SnapshotScript.Proofs.Relocation

/-!
# Layout

Two texts with the same tokens in different positions are the same program.  Their trees, the
functions that they make and the errors that they end with differ in positions only, and they print
the same.

What a machine is apart from positions and from its journal is its *gist*.  A machine and its gist
are both images of the machine with an empty journal, so an evaluation does the same with both.
Hence machines with one gist go on in the same way (`evaluate_alike`).
-/

namespace SnapshotScript

/-! ### What is left without positions -/

/-- The one position that stands for all. -/
def Position.forget (_ : Position) : Position := .start

/-- The value with the body of its function in one and the same place. -/
def Value.unplaced (v : Value) : Value :=
  v.recast (.onPositions .forget)

namespace Machine

/-- The machine without its journal. -/
def quiet (m : Machine) : Machine :=
  { m with journal := #[] }

/-- What is left of the machine without positions and without its journal. -/
def gist (m : Machine) : Machine :=
  m.quiet.relocate .forget

/-- All that programs have printed so far. -/
def printed (m : Machine) : String :=
  Output.collect Output.toPrinted (m.journal.toList.map Event.output)

/-- The machines differ in positions and in log entries only. -/
structure Alike (m m' : Machine) : Prop where
  gist : m.gist = m'.gist
  printed : m.printed = m'.printed

end Machine

/-- The interpreters differ in positions and in log entries only. -/
structure Interpreter.Alike (i j : Interpreter) : Prop where
  machine : i.machine.Alike j.machine
  depth : i.depth = j.depth
  steps : i.steps = j.steps

namespace Expr

mutual

/-- To put all nodes in one place is to forget their positions. -/
theorem relocate_forget (e : Expr) : e.relocate .forget = e.unplaced := by
  cases e with
  | literal value p => rfl
  | identifier name p => rfl
  | assign name value p => rw [relocate, unplaced, relocate_forget value, Position.forget]
  | binary operator left right p =>
    rw [relocate, unplaced, relocate_forget left, relocate_forget right, Position.forget]
  | unary operator operand p => rw [relocate, unplaced, relocate_forget operand, Position.forget]
  | not operand p => rw [relocate, unplaced, relocate_forget operand, Position.forget]
  | call callee arguments p =>
    rw [relocate, unplaced, relocate_forget callee, relocateArguments_forget arguments,
      Position.forget]
  | member target field p => rw [relocate, unplaced, relocate_forget target, Position.forget]
  | memberSet target field value p =>
    rw [relocate, unplaced, relocate_forget target, relocate_forget value, Position.forget]
  | choice branches otherwise p =>
    cases otherwise with
    | none => rw [relocate, unplaced, relocateBranches_forget branches, Position.forget]; rfl
    | some body =>
      rw [relocate, unplaced, relocateBranches_forget branches, relocateOption,
        relocate_forget body, Position.forget]
  | forLoop name first bound step body p =>
    cases step with
    | none =>
      rw [relocate, unplaced, relocate_forget first, relocate_forget bound, relocate_forget body,
        Position.forget]
      rfl
    | some step =>
      rw [relocate, unplaced, relocate_forget first, relocate_forget bound, relocateOption,
        relocate_forget step, relocate_forget body, Position.forget]
  | whileLoop condition body p =>
    rw [relocate, unplaced, relocate_forget condition, relocate_forget body, Position.forget]
  | function name parameters body p =>
    rw [relocate, unplaced, relocate_forget body, Position.forget]
  | struct name fields p => rfl
  | returning value p =>
    cases value with
    | none => rfl
    | some value =>
      rw [relocate, unplaced, relocateOption, relocate_forget value, Position.forget]
  | block items p => rw [relocate, unplaced, relocateItems_forget items, Position.forget]

theorem relocateItems_forget (items : List Expr) :
    relocateItems .forget items = unplacedItems items := by
  cases items with
  | nil => rfl
  | cons e items => rw [relocateItems, unplacedItems, relocate_forget e, relocateItems_forget items]

theorem relocateArguments_forget (arguments : List (Argument Expr)) :
    relocateArguments .forget arguments = unplacedArguments arguments := by
  rcases arguments with _ | ⟨⟨name, value⟩, arguments⟩
  · rfl
  · rw [relocateArguments, unplacedArguments, relocate_forget value,
      relocateArguments_forget arguments]

theorem relocateBranches_forget (branches : List (Branch Expr)) :
    relocateBranches .forget branches = unplacedBranches branches := by
  rcases branches with _ | ⟨⟨condition, body⟩, branches⟩
  · rfl
  · rw [relocateBranches, unplacedBranches, relocate_forget condition, relocate_forget body,
      relocateBranches_forget branches]

end

end Expr

/-! ### Machines that are alike -/

namespace Machine

variable {m m' : Machine}

/-- What is printed is what has been printed before and what the journal adds. -/
theorem printed_after (m : Machine) (events : Array Event) :
    (m.after events).printed =
      Output.collect Output.toPrinted (events.toList.map Event.output) ++ m.printed := by
  simp only [printed, after, Array.toList_append, List.map_append, Output.collect_append]

/-- A log entry is not printed. -/
theorem printed_logged (m : Machine) (entry : LogEntry) :
    (m.record (.logged entry)).printed = m.printed := by
  simp [printed, record, Output.collect, Event.output, Output.toPrinted]

/-- A name has the same value in the gist, without its places. -/
theorem lookup_gist (m : Machine) (name : String) :
    m.gist.lookup name = (m.lookup name).map Value.unplaced :=
  m.scopes.lookup_relocate .forget m.current name

namespace Alike

/-- Machines are alike in both directions. -/
theorem symm (h : m.Alike m') : m'.Alike m :=
  ⟨h.gist.symm, h.printed.symm⟩

/-- Machines that are like another one are alike. -/
theorem trans {m'' : Machine} (h : m.Alike m') (h' : m'.Alike m'') : m.Alike m'' :=
  ⟨h.gist.trans h'.gist, h.printed.trans h'.printed⟩

/-- Names have the same values, up to positions. -/
theorem lookup_eq (h : m.Alike m') (name : String) :
    (m.lookup name).map Value.unplaced = (m'.lookup name).map Value.unplaced := by
  rw [← lookup_gist, h.gist, lookup_gist]

/-- A value is written in the same way. -/
theorem display_eq (h : m.Alike m') {v v' : Value} (hv : v.unplaced = v'.unplaced) :
    v.display m.cells = v'.display m'.cells := by
  have hcells : m.cells.recast (.onPositions .forget) = m'.cells.recast (.onPositions .forget) :=
    congrArg Machine.cells h.gist
  rw [← Value.display_recast (.onPositions .forget) m.cells v, hcells]
  exact (congrArg (Value.display _) hv).trans (Value.display_recast _ m'.cells v')

/-- A log entry makes no difference. -/
theorem logged (m : Machine) (entry : LogEntry) : (m.record (.logged entry)).Alike m :=
  ⟨rfl, printed_logged m entry⟩

/-- Log entries on both sides make no difference. -/
theorem log (h : m.Alike m') (entry entry' : LogEntry) :
    (m.record (.logged entry)).Alike (m'.record (.logged entry')) :=
  (logged m entry).trans (h.trans (logged m' entry').symm)

/-- The end of all calls makes no difference. -/
theorem forgetCalls (h : m.Alike m') :
    (Runtime.forgetCalls m).Alike (Runtime.forgetCalls m') := by
  have hgist : ∀ m : Machine, (Runtime.forgetCalls m).gist = Runtime.forgetCalls m.gist :=
    fun m => congrArg (fun calls => ({ m.gist with calls } : Machine)) Array.map_empty
  exact ⟨by rw [hgist, hgist, h.gist], h.printed⟩

end Alike

/-- Outcomes that differ in positions and in log entries only. -/
inductive OutcomesAlike :
    EStateM.Result Unwind Machine Value → EStateM.Result Unwind Machine Value → Prop
  | ok {v v' : Value} {m m' : Machine} : v.unplaced = v'.unplaced → m.Alike m' →
    OutcomesAlike (.ok v m) (.ok v' m')
  | returned {v v' : Value} {m m' : Machine} : v.unplaced = v'.unplaced → m.Alike m' →
    OutcomesAlike (.error (.returned v) m) (.error (.returned v') m')
  | failed {e e' : RuntimeError} {m m' : Machine} : e.fault = e'.fault →
    e.trace.map ActiveCall.name = e'.trace.map ActiveCall.name → m.Alike m' →
    OutcomesAlike (.error (.failed e) m) (.error (.failed e') m')
  | exhausted {m m' : Machine} : m.Alike m' →
    OutcomesAlike (.error .exhausted m) (.error .exhausted m')

end Machine

/-- An evaluation adds to the journal and does not look at it. -/
theorem evaluate_quiet (limit steps : Nat) (e : Expr) (m : Machine) :
    evaluate limit steps e m =
      (Mirror.onStates (Machine.after m.journal)).outcome id (evaluate limit steps e m.quiet) := by
  have hstate : (Machine.relocation id m.journal).state = Machine.after m.journal := by
    funext t
    change (t.relocate id).after m.journal = _
    rw [Machine.relocate_id]
  have hstart : m.quiet.after m.journal = m :=
    congrArg (fun journal => ({ m with journal } : Machine)) Array.append_empty
  have hrun := (Machine.relocation id m.journal).evaluate_eq rfl rfl limit steps e m.quiet
  rwa [hstate, hstart] at hrun

/-- Without positions an evaluation does the same. -/
theorem evaluate_gist (limit steps : Nat) (e : Expr) (m : Machine) :
    evaluate limit steps e.unplaced m.gist =
      match evaluate limit steps e m.quiet with
      | .ok v t => .ok v.unplaced (t.relocate .forget)
      | .error u t => .error (u.recast (.onPositions .forget)) (t.relocate .forget) := by
  have hshows := (Machine.relocation .forget #[]).evaluate_shows limit steps e m.quiet
  have hstate : ∀ t, (Machine.relocation .forget #[]).mirror.state t = t.relocate .forget :=
    fun t => Machine.after_empty _
  have hexpr : e.relocate (Machine.relocation .forget #[]).position = e.unplaced :=
    e.relocate_forget
  rw [hstate, hexpr] at hshows
  refine hshows.trans ?_
  cases evaluate limit steps e m.quiet with
  | ok v t => exact congrArg (EStateM.Result.ok v.unplaced) (hstate t)
  | error u t => exact congrArg (EStateM.Result.error (u.recast (.onPositions .forget))) (hstate t)

/-- Machines are alike if they have one gist, have printed the same, and go on in the same way. -/
theorem Machine.Alike.after {m m' t t' : Machine} (h : m.Alike m')
    (ht : t.relocate .forget = t'.relocate .forget) :
    (t.after m.journal).Alike (t'.after m'.journal) := by
  have hjournal : (t.relocate .forget).journal = (t'.relocate .forget).journal := by rw [ht]
  refine ⟨congrArg quiet ht, ?_⟩
  have hprinted : t.printed = t'.printed :=
    congrArg (fun journal : Array Event =>
      Output.collect Output.toPrinted (journal.toList.map Event.output)) hjournal
  rw [printed_after, printed_after, hprinted]
  exact congrArg (· ++ t'.printed) h.printed

/-- Expressions that differ in positions only have outcomes that differ in positions only, on
machines that are alike. -/
theorem evaluate_alike (limit steps : Nat) {e e' : Expr} (he : e.unplaced = e'.unplaced)
    {m m' : Machine} (hm : m.Alike m') :
    Machine.OutcomesAlike (evaluate limit steps e m) (evaluate limit steps e' m') := by
  have hgist := evaluate_gist limit steps e m
  rw [he, hm.gist, evaluate_gist] at hgist
  rw [evaluate_quiet limit steps e m, evaluate_quiet limit steps e' m']
  generalize evaluate limit steps e m.quiet = x at hgist ⊢
  generalize evaluate limit steps e' m'.quiet = x' at hgist ⊢
  cases x with
  | ok v t =>
    cases x' with
    | ok v' t' =>
      injection hgist with hv ht
      exact .ok hv.symm (hm.after ht.symm)
    | error u' t' => cases hgist
  | error u t =>
    cases x' with
    | ok v' t' => cases hgist
    | error u' t' =>
      injection hgist with hu ht
      have hafter := hm.after ht.symm
      cases u with
      | returned v =>
        cases u' with
        | returned v' =>
          injection hu with hv
          exact .returned hv.symm hafter
        | _ => cases hu
      | failed error =>
        cases u' with
        | failed error' =>
          injection hu with herror
          refine .failed (congrArg RuntimeError.fault herror).symm ?_ hafter
          rw [← error.trace_names_relocate .forget, ← herror, error'.trace_names_relocate]
        | _ => cases hu
      | exhausted =>
        cases u' with
        | exhausted => exact .exhausted hafter
        | _ => cases hu

/-! ### Programs -/

/-- Results that differ in positions only, with the machines that are left: the values are written
in the same way, or the faults are the same in the same active calls. -/
inductive ResultsAlike (m m' : Machine) : Except Failure Value → Except Failure Value → Prop
  | value {v v' : Value} : v.unplaced = v'.unplaced → v.display m.cells = v'.display m'.cells →
    ResultsAlike m m' (.ok v) (.ok v')
  | fault {e e' : RuntimeError} : e.fault = e'.fault →
    e.trace.map ActiveCall.name = e'.trace.map ActiveCall.name →
    ResultsAlike m m' (.error (.runtime e)) (.error (.runtime e'))
  | exhausted : ResultsAlike m m' (.error .exhausted) (.error .exhausted)

namespace Interpreter

/-- Two texts have ended in the same way, and have left the same names and the same printed text, up
to positions. -/
structure EndsAlike (x y : Except Failure Value × Interpreter) : Prop where
  result : ResultsAlike x.2.machine y.2.machine x.1 y.1
  bindings : ∀ name, (x.2.machine.lookup name).map Value.unplaced =
    (y.2.machine.lookup name).map Value.unplaced
  interpreter : x.2.Alike y.2

variable {i j : Interpreter}

/-- A log entry makes no difference. -/
theorem Alike.log (h : i.Alike j) (entry entry' : LogEntry) :
    (i.log entry).Alike (j.log entry') :=
  ⟨h.machine.log entry entry', h.depth, h.steps⟩

/-- Runs end alike if their results and the interpreters that they leave are alike. -/
theorem EndsAlike.intro {result result' : Except Failure Value} (h : i.Alike j)
    (hresult : ResultsAlike i.machine j.machine result result') :
    EndsAlike (result, i) (result', j) :=
  ⟨hresult, h.machine.lookup_eq, h⟩

/-- Programs that have outcomes which differ in positions only end in the same way. -/
theorem run_alike_of_outcomes {program program' : Expr} (hdepth : i.depth = j.depth)
    (hsteps : i.steps = j.steps)
    (h : Machine.OutcomesAlike (evaluate i.depth i.steps program i.machine)
      (evaluate j.depth j.steps program' j.machine)) :
    EndsAlike (i.run program) (j.run program') := by
  have hend : ∀ {m m' : Machine} (ok : Bool), m.Alike m' →
      (Interpreter.log ⟨Runtime.forgetCalls m, i.depth, i.steps⟩ (.finished ok)).Alike
        (Interpreter.log ⟨Runtime.forgetCalls m', j.depth, j.steps⟩ (.finished ok)) :=
    fun ok hm => ⟨hm.forgetCalls.log _ _, hdepth, hsteps⟩
  unfold run
  dsimp only
  generalize evaluate i.depth i.steps program i.machine = x at h ⊢
  generalize evaluate j.depth j.steps program' j.machine = y at h ⊢
  cases h with
  | ok hv hm => exact .intro (hend true hm) (.value hv (hm.display_eq hv))
  | returned hv hm => exact .intro (hend true hm) (.value hv (hm.display_eq hv))
  | failed hfault htrace hm => exact .intro (hend false hm) (.fault hfault htrace)
  | exhausted hm => exact .intro (hend false hm) .exhausted

/-- Programs that differ in positions only run in the same way. -/
theorem run_alike (h : i.Alike j) {program program' : Expr}
    (hprogram : program.unplaced = program'.unplaced) :
    EndsAlike (i.run program) (j.run program') := by
  refine run_alike_of_outcomes h.depth h.steps ?_
  rw [← h.depth, ← h.steps]
  exact evaluate_alike i.depth i.steps hprogram h.machine

/-- A text that forms a program is run, after two log entries. -/
theorem evaluateSource_eq_run {source : String} {tokens : List Token} {program : Expr}
    (htokens : tokenize source = .ok tokens) (hparse : parseTokens tokens = .ok program) :
    i.evaluateSource source =
      ((i.log (.tokenized tokens.length)).log (.parsed (itemCount program))).run program := by
  unfold evaluateSource
  rw [htokens]
  dsimp only
  rw [hparse]

/-- Texts that form programs which differ in positions only are evaluated in the same way. -/
theorem evaluateSource_alike (h : i.Alike j) {source source' : String}
    {tokens tokens' : List Token} {program program' : Expr}
    (htokens : tokenize source = .ok tokens) (htokens' : tokenize source' = .ok tokens')
    (hparse : parseTokens tokens = .ok program) (hparse' : parseTokens tokens' = .ok program')
    (hprogram : program.unplaced = program'.unplaced) :
    EndsAlike (i.evaluateSource source) (j.evaluateSource source') := by
  rw [evaluateSource_eq_run htokens hparse, evaluateSource_eq_run htokens' hparse']
  exact run_alike ((h.log _ _).log _ _) hprogram

end Interpreter

/-! ### Texts -/

/-- Tokens with the same pieces are the same tokens in one place. -/
theorem relocate_forget_eq_of_pieces {ts ts' : List Token}
    (h : ts.map Token.piece = ts'.map Token.piece) :
    ts.map (Token.relocate .forget) = ts'.map (Token.relocate .forget) := by
  have hplace : ∀ ts : List Token, ts.map (Token.relocate .forget) =
      (ts.map Token.piece).map fun piece => ⟨piece.1, piece.2, .start, .start⟩ := by
    intro ts
    rw [List.map_map]
    rfl
  rw [hplace, h, hplace]

/-- Tokens with the same pieces form the same program, up to positions. -/
theorem parseTokens_of_pieces_eq {ts ts' : List Token} {program : Expr}
    (h : parseTokens ts = .ok program) (hpieces : ts.map Token.piece = ts'.map Token.piece) :
    ∃ program', parseTokens ts' = .ok program' ∧ program.unplaced = program'.unplaced := by
  have hread := parseTokens_relocate .forget rfl ts
  rw [relocate_forget_eq_of_pieces hpieces, parseTokens_relocate .forget rfl ts', h] at hread
  cases hparse : parseTokens ts' with
  | error e =>
    rw [hparse] at hread
    cases hread
  | ok program' =>
    rw [hparse] at hread
    injection hread with hprogram
    rw [Expr.relocate_forget, Expr.relocate_forget] at hprogram
    exact ⟨program', rfl, hprogram.symm⟩

/-- The layout of a text has no meaning.  Two texts whose tokens are of the same kinds with the same
texts either fail to form programs, with the same expectation at the same token; or they form the
same program up to positions.  Then they are evaluated in the same way by interpreters that are
alike: neither ends within the allowed number of steps, or they have the same value, or the same
fault in the same active calls; and they print the same and leave the same names. -/
theorem alike_of_pieces_eq {source source' : String} {ts ts' : List Token}
    (htokens : tokenize source = .ok ts) (htokens' : tokenize source' = .ok ts')
    (hpieces : ts.map Token.piece = ts'.map Token.piece) :
    (∃ e e', parseTokens ts = .error e ∧ parseTokens ts' = .error e' ∧
      e.expected = e'.expected ∧ e.found.piece = e'.found.piece ∧ e.message = e'.message) ∨
    ∃ program program', parseTokens ts = .ok program ∧ parseTokens ts' = .ok program' ∧
      program.unplaced = program'.unplaced ∧ ∀ i j : Interpreter, i.Alike j →
        Interpreter.EndsAlike (i.evaluateSource source) (j.evaluateSource source') := by
  cases hparse : parseTokens ts with
  | ok program =>
    obtain ⟨program', hparse', hprogram⟩ := parseTokens_of_pieces_eq hparse hpieces
    exact .inr ⟨program, program', rfl, hparse', hprogram, fun i j h =>
      Interpreter.evaluateSource_alike h htokens htokens' hparse hparse' hprogram⟩
  | error e =>
    cases hparse' : parseTokens ts' with
    | ok program' =>
      obtain ⟨program, hprogram, -⟩ := parseTokens_of_pieces_eq hparse' hpieces.symm
      rw [hparse] at hprogram
      cases hprogram
    | error e' =>
      have hread := parseTokens_relocate .forget rfl ts
      rw [relocate_forget_eq_of_pieces hpieces, parseTokens_relocate .forget rfl ts', hparse,
        hparse'] at hread
      injection hread with herror
      refine .inl ⟨e, e', rfl, rfl, (congrArg SyntaxError.expected herror).symm, ?_, ?_⟩
      · exact (congrArg (fun e => e.found.piece) herror).symm
      · exact (congrArg SyntaxError.message herror).symm

/-- A line feed within a text may be written as it is or as an escape, and blanks and comments may
stand between the tokens. -/
theorem alike_of_pieces_eq_sum :
    ∃ tokens tokens' : List Token, tokenize "'a\\nb'+f" = .ok tokens ∧
      tokenize "'a\nb' # text\n + f" = .ok tokens' ∧
      tokens.map Token.piece = tokens'.map Token.piece ∧
        ((∃ e e', parseTokens tokens = .error e ∧ parseTokens tokens' = .error e' ∧
          e.expected = e'.expected ∧ e.found.piece = e'.found.piece ∧ e.message = e'.message) ∨
        ∃ program program', parseTokens tokens = .ok program ∧ parseTokens tokens' = .ok program' ∧
          program.unplaced = program'.unplaced ∧ ∀ i j : Interpreter, i.Alike j →
            Interpreter.EndsAlike (i.evaluateSource "'a\\nb'+f")
              (j.evaluateSource "'a\nb' # text\n + f")) := by
  have htokens : tokenize "'a\\nb'+f" = .ok [⟨.string, "a\nb", ⟨1, 1⟩, ⟨1, 7⟩⟩,
      ⟨.plus, "+", ⟨1, 7⟩, ⟨1, 8⟩⟩, ⟨.identifier, "f", ⟨1, 8⟩, ⟨1, 9⟩⟩, .endAt ⟨1, 9⟩] := rfl
  have htokens' : tokenize "'a\nb' # text\n + f" = .ok [⟨.string, "a\nb", ⟨1, 1⟩, ⟨2, 3⟩⟩,
      ⟨.plus, "+", ⟨3, 2⟩, ⟨3, 3⟩⟩, ⟨.identifier, "f", ⟨3, 4⟩, ⟨3, 5⟩⟩, .endAt ⟨3, 5⟩] := rfl
  exact ⟨_, _, htokens, htokens', rfl, alike_of_pieces_eq htokens htokens' rfl⟩

end SnapshotScript
