import Mathlib.Logic.Function.Basic
import SnapshotScript.Proofs.Failure.Places
import SnapshotScript.Proofs.Grammar.Separation
import SnapshotScript.Proofs.Observer
import SnapshotScript.Proofs.Programs

/-!
# Runs that know their program

Frames are opened for the bodies of functions, and for the bodies and the steps of loops over
numbers.  How many of these surround an expression can be read off its program, in which it stands
at one place only.

To compare this with the frames of a run, we have to know from which program each expression comes
that is evaluated.  That is the program which is run or, within a call, the one in which the
function was defined, and this may be an earlier one.  So here the state of a run is a machine
together with the source programs of the functions, and the start of each evaluation is noted with
the program and with the machine at this moment.  Apart from this, the evaluation is the ordinary
one.
-/

namespace SnapshotScript

/-! ### How deep an expression stands -/

/-- The expression `n` stands inside of `e`, or is `e` itself, and on the way to it `k` frames are
opened: it is in the bodies of functions, or in the bodies or steps of loops over numbers, and `k`
is the number of these. -/
inductive Expr.Encloses (e : Expr) : Expr → Nat → Prop
  | refl : Encloses e e 0
  | level {n c k} : Encloses e n k → c ∈ n.level → Encloses e c k
  | opened {n c k} : Encloses e n k → c ∈ n.opened → Encloses e c (k + 1)

namespace Expr.Encloses

variable {e n : Expr} {k k' : Nat}

/-- An expression that another one encloses stands inside of it. -/
theorem within (h : e.Encloses n k) : n.Within e := by
  induction h with
  | refl => exact .refl
  | level _ hc ih => exact ih.child (mem_children_of_level hc)
  | opened _ hc ih => exact ih.child (mem_children_of_opened hc)

/-- The expression is the outer one, or stands inside of one that is directly inside of it. -/
theorem cases_head (h : e.Encloses n k) :
    n = e ∧ k = 0 ∨ (∃ c ∈ e.level, c.Encloses n k) ∨
      ∃ c ∈ e.opened, ∃ j, k = j + 1 ∧ c.Encloses n j := by
  induction h with
  | refl => exact .inl ⟨rfl, rfl⟩
  | @level n d k _ hd ih =>
    rcases ih with ⟨rfl, rfl⟩ | ⟨c, hc, hinside⟩ | ⟨c, hc, j, rfl, hinside⟩
    · exact .inr (.inl ⟨d, hd, .refl⟩)
    · exact .inr (.inl ⟨c, hc, hinside.level hd⟩)
    · exact .inr (.inr ⟨c, hc, j, rfl, hinside.level hd⟩)
  | @opened n d k _ hd ih =>
    rcases ih with ⟨rfl, rfl⟩ | ⟨c, hc, hinside⟩ | ⟨c, hc, j, rfl, hinside⟩
    · exact .inr (.inr ⟨d, hd, 0, rfl, .refl⟩)
    · exact .inr (.inl ⟨c, hc, hinside.opened hd⟩)
    · exact .inr (.inr ⟨c, hc, j + 1, rfl, hinside.opened hd⟩)

/-- An expression stands equally deep wherever it stands, if it stands at one place only. -/
theorem unique (he : e.Distinct) (h : e.Encloses n k) (h' : e.Encloses n k') : k = k' := by
  induction he generalizing k k' with
  | @node e hapart hchildren ih =>
    have hproper : ∀ {c j}, c ∈ e.children → c.Encloses e j → False := fun hc hinside =>
      Everywhere.not_within_child (.node hapart hchildren) hc hinside.within
    obtain ⟨hlevel, hopened, hacross⟩ := List.pairwise_append.1 (e.children_eq ▸ hapart)
    rcases h.cases_head with ⟨rfl, rfl⟩ | ⟨c, hc, hn⟩ | ⟨c, hc, j, rfl, hn⟩ <;>
      rcases h'.cases_head with ⟨heq, rfl⟩ | ⟨c', hc', hn'⟩ | ⟨c', hc', j', rfl, hn'⟩
    · rfl
    · exact (hproper (mem_children_of_level hc') hn').elim
    · exact (hproper (mem_children_of_opened hc') hn').elim
    · exact (hproper (mem_children_of_level hc) (heq ▸ hn)).elim
    · obtain rfl := eq_of_within hlevel hc hc' hn.within hn'.within
      exact ih c (mem_children_of_level hc) hn hn'
    · exact (hacross c hc c' hc' n hn.within hn'.within).elim
    · exact (hproper (mem_children_of_opened hc) (heq ▸ hn)).elim
    · exact (hacross c' hc' c hc n hn'.within hn.within).elim
    · obtain rfl := eq_of_within hopened hc hc' hn.within hn'.within
      rw [ih c (mem_children_of_opened hc) hn hn']

end Expr.Encloses

/-! ### Runs that note what they start -/

/-- The evaluation of an expression has started. -/
structure Start where
  /-- The program in which the expression stands. -/
  program : Expr
  node : Expr
  machine : Machine

/-- The machine of a run, with the programs from which its expressions come. -/
structure Traced where
  machine : Machine
  /-- The program in which the expressions stand that are evaluated at the moment. -/
  program : Expr
  /-- The programs of the calls around, the innermost one first. -/
  callers : List Expr
  /-- The program in which a function was defined, by the identity of the function. -/
  origin : Nat → Expr
  /-- All evaluations so far, the last one first. -/
  starts : List Start

namespace Traced

/-- The trace before the first program. -/
def initial (m : Machine) : Traced where
  machine := m
  program := .block [] .start
  callers := []
  origin _ := .block [] .start
  starts := []

/-- Changes the machine. -/
def update (m : Machine) (t : Traced) : Traced :=
  { t with machine := m }

/-- Goes on to another program. -/
def enter (program : Expr) (t : Traced) : Traced :=
  { t with program := program, callers := [] }

/-- Notes that the evaluation of an expression starts. -/
def note (e : Expr) (t : Traced) : Traced :=
  { t with starts := ⟨t.program, e, t.machine⟩ :: t.starts }

/-- A new function comes from the current program, and its body is evaluated as a part of that
program whenever it is called. -/
def observer : Observer Traced Machine FrameId where
  state := Traced.machine
  notice
    | .enterCall f _ _, m, t =>
      { t with machine := m, program := t.origin f.id, callers := t.program :: t.callers }
    | .leaveCall _, m, t =>
      { t with machine := m, program := t.callers.headD t.program, callers := t.callers.tail }
    | .freshId id, m, t => { t with machine := m, origin := Function.update t.origin id t.program }
    | _, m, t => t.update m
  state_notice step _ _ := by cases step <;> rfl

instance : Runtime Traced FrameId :=
  observer.runtime

end Traced

/-- Evaluates an expression, and notes this and all evaluations of expressions on the way. -/
def evaluateTracing (limit : Nat) : Nat → Expr → Action Traced FrameId Value
  | 0, _ => throw .exhausted
  | steps + 1, e => fun t =>
    Evaluation.node (evaluateTracing limit steps) limit steps e (t.note e)

namespace Interpreter

/-- Evaluates a program, and notes all evaluations. -/
def trace (i : Interpreter Traced) (program : Expr) :
    Except Failure Value × Interpreter Traced :=
  i.finish (evaluateTracing i.depth i.steps program (i.machine.enter program))

/-- The interpreter after programs that are evaluated one after another, whether they fail or not,
with all evaluations noted. -/
def traceAll (i : Interpreter Traced) (programs : List Expr) : Interpreter Traced :=
  programs.foldl (fun i program => (i.trace program).2) i

end Interpreter

end SnapshotScript
