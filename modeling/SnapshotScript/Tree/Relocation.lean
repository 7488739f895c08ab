import SnapshotScript.Tree

/-!
# Trees in other places

`Expr.relocate` moves each node of a tree to another position and changes nothing else.
-/

namespace SnapshotScript

/-- The argument with another value. -/
def Argument.map {α β : Type} (f : α → β) (a : Argument α) : Argument β :=
  ⟨a.name, f a.value⟩

/-- The branch with another condition and another body. -/
def Branch.map {α β : Type} (f : α → β) (b : Branch α) : Branch β :=
  ⟨f b.condition, f b.body⟩

namespace Expr

section

variable (π : Position → Position)

mutual

/-- The expression with each node in another position. -/
def relocate : Expr → Expr
  | .literal value p => .literal value (π p)
  | .identifier name p => .identifier name (π p)
  | .assign name value p => .assign name value.relocate (π p)
  | .binary operator left right p => .binary operator left.relocate right.relocate (π p)
  | .unary operator operand p => .unary operator operand.relocate (π p)
  | .not operand p => .not operand.relocate (π p)
  | .call callee arguments p => .call callee.relocate (relocateArguments arguments) (π p)
  | .member target field p => .member target.relocate field (π p)
  | .memberSet target field value p => .memberSet target.relocate field value.relocate (π p)
  | .choice branches otherwise p =>
    .choice (relocateBranches branches) (relocateOption otherwise) (π p)
  | .forLoop name first bound step body p =>
    .forLoop name first.relocate bound.relocate (relocateOption step) body.relocate (π p)
  | .whileLoop condition body p => .whileLoop condition.relocate body.relocate (π p)
  | .function name parameters body p => .function name parameters body.relocate (π p)
  | .struct name fields p => .struct name fields (π p)
  | .returning value p => .returning (relocateOption value) (π p)
  | .block items p => .block (relocateItems items) (π p)

/-- The expression, if there is one, with each node in another position. -/
def relocateOption : Option Expr → Option Expr
  | none => none
  | some e => some e.relocate

/-- The expressions, each with its nodes in other positions. -/
def relocateItems : List Expr → List Expr
  | [] => []
  | e :: items => e.relocate :: relocateItems items

/-- The arguments with their nodes in other positions. -/
def relocateArguments : List (Argument Expr) → List (Argument Expr)
  | [] => []
  | ⟨name, value⟩ :: arguments => ⟨name, value.relocate⟩ :: relocateArguments arguments

/-- The branches with their nodes in other positions. -/
def relocateBranches : List (Branch Expr) → List (Branch Expr)
  | [] => []
  | ⟨condition, body⟩ :: branches =>
    ⟨condition.relocate, body.relocate⟩ :: relocateBranches branches

end

end

variable (π : Position → Position)

@[simp] theorem relocateOption_eq (e : Option Expr) : relocateOption π e = e.map (relocate π) := by
  cases e <;> rfl

@[simp] theorem relocateItems_eq (items : List Expr) :
    relocateItems π items = items.map (relocate π) := by
  induction items with
  | nil => rfl
  | cons e items ih => rw [relocateItems, ih, List.map_cons]

@[simp] theorem relocateArguments_eq (arguments : List (Argument Expr)) :
    relocateArguments π arguments = arguments.map (Argument.map (relocate π)) := by
  induction arguments with
  | nil => rfl
  | cons a arguments ih => rw [relocateArguments, ih, List.map_cons, Argument.map]

@[simp] theorem relocateBranches_eq (branches : List (Branch Expr)) :
    relocateBranches π branches = branches.map (Branch.map (relocate π)) := by
  induction branches with
  | nil => rfl
  | cons b branches ih => rw [relocateBranches, ih, List.map_cons, Branch.map]

@[simp] theorem position_relocate (e : Expr) : (e.relocate π).position = π e.position := by
  cases e <;> rfl

@[simp] theorem isEmptyBlock_relocate (e : Expr) :
    (e.relocate π).isEmptyBlock = e.isEmptyBlock := by
  cases e with
  | block items p => cases items <;> rfl
  | _ => rfl

mutual

/-- To leave each node where it is changes nothing. -/
@[simp] theorem relocate_id (e : Expr) : e.relocate id = e := by
  cases e with
  | literal value p => rfl
  | identifier name p => rfl
  | assign name value p => rw [relocate, relocate_id value, id]
  | binary operator left right p => rw [relocate, relocate_id left, relocate_id right, id]
  | unary operator operand p => rw [relocate, relocate_id operand, id]
  | not operand p => rw [relocate, relocate_id operand, id]
  | call callee arguments p =>
    rw [relocate, relocate_id callee, relocateArguments_id arguments, id]
  | member target field p => rw [relocate, relocate_id target, id]
  | memberSet target field value p => rw [relocate, relocate_id target, relocate_id value, id]
  | choice branches otherwise p =>
    rw [relocate, relocateBranches_id branches, relocateOption_id otherwise, id]
  | forLoop name first bound step body p =>
    rw [relocate, relocate_id first, relocate_id bound, relocateOption_id step, relocate_id body,
      id]
  | whileLoop condition body p => rw [relocate, relocate_id condition, relocate_id body, id]
  | function name parameters body p => rw [relocate, relocate_id body, id]
  | struct name fields p => rfl
  | returning value p => rw [relocate, relocateOption_id value, id]
  | block items p => rw [relocate, relocateItems_id items, id]

theorem relocateOption_id (e : Option Expr) : relocateOption id e = e := by
  cases e with
  | none => rfl
  | some e => rw [relocateOption, relocate_id e]

theorem relocateItems_id (items : List Expr) : relocateItems id items = items := by
  cases items with
  | nil => rfl
  | cons e items => rw [relocateItems, relocate_id e, relocateItems_id items]

theorem relocateArguments_id (arguments : List (Argument Expr)) :
    relocateArguments id arguments = arguments := by
  rcases arguments with _ | ⟨⟨name, value⟩, arguments⟩
  · rfl
  · rw [relocateArguments, relocate_id value, relocateArguments_id arguments]

theorem relocateBranches_id (branches : List (Branch Expr)) :
    relocateBranches id branches = branches := by
  rcases branches with _ | ⟨⟨condition, body⟩, branches⟩
  · rfl
  · rw [relocateBranches, relocate_id condition, relocate_id body, relocateBranches_id branches]

end

end Expr

end SnapshotScript
