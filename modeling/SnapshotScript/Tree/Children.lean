import SnapshotScript.Tree

/-!
# The expressions within an expression

The expressions right below a node of a tree, and properties that hold at all nodes of it.
-/

namespace SnapshotScript

/-- The expressions directly inside of an expression. -/
def Expr.children : Expr → List Expr
  | .literal .. | .identifier .. | .struct .. | .returning none _ => []
  | .assign _ e _ | .unary _ e _ | .not e _ | .member e _ _ | .function _ _ e _
  | .returning (some e) _ => [e]
  | .binary _ e e' _ | .memberSet e _ e' _ | .whileLoop e e' _ => [e, e']
  | .call callee arguments _ => callee :: arguments.map Argument.value
  | .choice branches otherwise _ =>
    branches.map Branch.condition ++ branches.map Branch.body ++ otherwise.toList
  | .forLoop _ first bound step body _ => first :: bound :: body :: step.toList
  | .block items _ => items

/-- The expressions directly inside of an expression for which a frame is opened: the body of a
function, and the body and the step of a loop over numbers. -/
def Expr.opened : Expr → List Expr
  | .function _ _ body _ => [body]
  | .forLoop _ _ _ step body _ => body :: step.toList
  | _ => []

/-- The expressions directly inside of an expression that are evaluated in the same frame as the
expression itself. -/
def Expr.level : Expr → List Expr
  | .function .. => []
  | .forLoop _ first bound _ _ _ => [first, bound]
  | e => e.children

/-- Each expression directly inside of another one is evaluated in the same frame or in one that is
opened for it. -/
theorem Expr.children_eq (e : Expr) : e.children = e.level ++ e.opened := by
  cases e <;> simp [children, level, opened]

/-- The expressions that are evaluated in the same frame are inside. -/
theorem Expr.mem_children_of_level {e c : Expr} (hc : c ∈ e.level) : c ∈ e.children :=
  e.children_eq ▸ List.mem_append_left _ hc

/-- The expressions for which a frame is opened are inside. -/
theorem Expr.mem_children_of_opened {e c : Expr} (hc : c ∈ e.opened) : c ∈ e.children :=
  e.children_eq ▸ List.mem_append_right _ hc

/-- Something holds directly inside of a call if it holds of the callee and the arguments. -/
theorem Expr.forall_children_call {P : Expr → Prop} {callee : Expr}
    {arguments : List (Argument Expr)} {p : Position} :
    (∀ c ∈ (Expr.call callee arguments p).children, P c) ↔
      P callee ∧ ∀ a ∈ arguments, P a.value := by
  simp [Expr.children]

/-- Something holds directly inside of a choice if it holds of all branches and the alternative. -/
theorem Expr.forall_children_choice {P : Expr → Prop} {branches : List (Branch Expr)}
    {otherwise : Option Expr} {p : Position} :
    (∀ c ∈ (Expr.choice branches otherwise p).children, P c) ↔
      (∀ b ∈ branches, P b.condition ∧ P b.body) ∧ ∀ e ∈ otherwise, P e := by
  simp only [Expr.children, List.forall_mem_append, List.forall_mem_map, Option.mem_toList,
    Option.mem_def, forall_and]

/-- The property holds of an expression and of all expressions within it. -/
inductive Expr.Everywhere (P : Expr → Prop) : Expr → Prop
  | node {e} : P e → (∀ c ∈ e.children, Everywhere P c) → Everywhere P e

/-- A property of an expression with none inside of it holds at all nodes. -/
theorem Expr.Everywhere.leaf {P : Expr → Prop} {e : Expr} (h : P e) (hleaf : e.children = []) :
    e.Everywhere P := by
  refine .node h fun c hc => ?_
  rw [hleaf] at hc
  cases hc

/-- A property that holds at all nodes holds at the outermost one. -/
theorem Expr.Everywhere.root {P : Expr → Prop} {e : Expr} (h : e.Everywhere P) : P e := by
  cases h with
  | node hroot _ => exact hroot

theorem Expr.Everywhere.mono {P Q : Expr → Prop} {e : Expr} (h : e.Everywhere P)
    (hPQ : ∀ n, P n → Q n) : e.Everywhere Q := by
  induction h with
  | node hP _ ih => exact .node (hPQ _ hP) ih

/-- Two properties that hold at all nodes hold there together. -/
theorem Expr.Everywhere.and {P Q : Expr → Prop} {e : Expr} (hP : e.Everywhere P)
    (hQ : e.Everywhere Q) : e.Everywhere fun e => P e ∧ Q e := by
  induction hP with
  | node hP _ ih =>
    cases hQ with
    | node hQ hchildren => exact .node ⟨hP, hQ⟩ fun c hc => ih c hc (hchildren c hc)

end SnapshotScript
