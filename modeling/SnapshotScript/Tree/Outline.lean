import SnapshotScript.Tree

/-!
# Outlines of trees

The outline of an expression lists its nodes, each before those below it and these from left to
right, with the kind and the position of each.
-/

namespace SnapshotScript

/-- The kinds of nodes. -/
inductive NodeKind where
  | literal | identifier | assign | binary | unary | not | call | member | memberSet | choice
  | forLoop | whileLoop | function | struct | returning | block
deriving DecidableEq, Repr

/-- One entry of an outline. -/
structure OutlineEntry where
  kind : NodeKind
  position : Position
deriving DecidableEq, Repr

namespace Expr

mutual

/-- The outline of an expression. -/
def outline : Expr → List OutlineEntry
  | .literal _ p => [⟨.literal, p⟩]
  | .identifier _ p => [⟨.identifier, p⟩]
  | .assign _ value p => ⟨.assign, p⟩ :: value.outline
  | .binary _ left right p => ⟨.binary, p⟩ :: (left.outline ++ right.outline)
  | .unary _ operand p => ⟨.unary, p⟩ :: operand.outline
  | .not operand p => ⟨.not, p⟩ :: operand.outline
  | .call callee arguments p => ⟨.call, p⟩ :: (callee.outline ++ outlineArguments arguments)
  | .member target _ p => ⟨.member, p⟩ :: target.outline
  | .memberSet target _ value p => ⟨.memberSet, p⟩ :: (target.outline ++ value.outline)
  | .choice branches none p => ⟨.choice, p⟩ :: outlineBranches branches
  | .choice branches (some otherwise) p =>
    ⟨.choice, p⟩ :: (outlineBranches branches ++ otherwise.outline)
  | .forLoop _ first bound none body p =>
    ⟨.forLoop, p⟩ :: (first.outline ++ bound.outline ++ body.outline)
  | .forLoop _ first bound (some step) body p =>
    ⟨.forLoop, p⟩ :: (first.outline ++ bound.outline ++ step.outline ++ body.outline)
  | .whileLoop condition body p => ⟨.whileLoop, p⟩ :: (condition.outline ++ body.outline)
  | .function _ _ body p => ⟨.function, p⟩ :: body.outline
  | .struct _ _ p => [⟨.struct, p⟩]
  | .returning none p => [⟨.returning, p⟩]
  | .returning (some value) p => ⟨.returning, p⟩ :: value.outline
  | .block items p => ⟨.block, p⟩ :: outlineItems items

/-- The outlines of expressions, one after the other. -/
def outlineItems : List Expr → List OutlineEntry
  | [] => []
  | item :: items => item.outline ++ outlineItems items

/-- The outlines of the values of arguments. -/
def outlineArguments : List (Argument Expr) → List OutlineEntry
  | [] => []
  | ⟨_, value⟩ :: arguments => value.outline ++ outlineArguments arguments

/-- The outlines of branches, each with its condition before its body. -/
def outlineBranches : List (Branch Expr) → List OutlineEntry
  | [] => []
  | ⟨condition, body⟩ :: branches =>
    condition.outline ++ body.outline ++ outlineBranches branches

end

end Expr

end SnapshotScript
