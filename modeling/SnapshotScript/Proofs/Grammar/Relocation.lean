import SnapshotScript.Parser
import SnapshotScript.Proofs.Mirror
import SnapshotScript.Tree.Relocation

/-!
# Positions do not matter to the parser

A parser looks at the kinds and texts of the tokens and hands their positions on.  So it does not
matter whether the tokens are moved to other positions before they are read or the tree afterwards;
and if reading fails, it fails at the same token with the same expectation
(`parseTokens_relocate`).
-/

namespace SnapshotScript

/-! ### Tokens in other positions -/

section

variable (π : Position → Position)

/-- The token in another position. -/
def Token.relocate (t : Token) : Token :=
  ⟨t.kind, t.text, π t.first, π t.last⟩

/-- The error with its token in another position. -/
def SyntaxError.relocate (e : SyntaxError) : SyntaxError :=
  ⟨e.expected, e.found.relocate π⟩

/-- The stream with its tokens and the end of the input in other positions. -/
def TokenStream.relocate (s : TokenStream) : TokenStream :=
  ⟨s.rest.map (Token.relocate π), π s.finish⟩

/-- The mirror in which streams, and the tokens of errors, stand in other positions. -/
def Parser.mirror : Mirror SyntaxError TokenStream SyntaxError TokenStream :=
  ⟨TokenStream.relocate π, SyntaxError.relocate π⟩

@[simp] theorem Token.kind_relocate (t : Token) : (t.relocate π).kind = t.kind := rfl

@[simp] theorem Token.text_relocate (t : Token) : (t.relocate π).text = t.text := rfl

@[simp] theorem TokenStream.current_relocate (s : TokenStream) :
    (s.relocate π).current = s.current.relocate π := by
  obtain ⟨rest, finish⟩ := s
  cases rest <;> rfl

/-- To move tokens is to move the stream of them.  Where there are no tokens at all the input ends
at its start, which has to stay where it is. -/
theorem TokenStream.ofTokens_relocate (hstart : π .start = .start) (tokens : List Token) :
    ofTokens (tokens.map (Token.relocate π)) = (ofTokens tokens).relocate π := by
  have hkind : (fun t => decide (t.kind ≠ .endOfInput)) ∘ Token.relocate π =
      fun t : Token => decide (t.kind ≠ .endOfInput) := rfl
  have hend : (fun t => decide (t.kind = .endOfInput)) ∘ Token.relocate π =
      fun t : Token => decide (t.kind = .endOfInput) := rfl
  unfold ofTokens relocate
  rw [List.takeWhile_map, List.find?_map, hkind, hend, List.getLast?_map]
  cases tokens.find? fun t => decide (t.kind = .endOfInput) with
  | some t => rfl
  | none =>
    cases tokens.getLast? with
    | some t => rfl
    | none => exact congrArg (TokenStream.mk _) hstart.symm

end

/-! ### Reading tokens -/

namespace Parser

variable {π : Position → Position} {α α' : Type} {f : α → α'}

theorem current_shows : (mirror π).Shows (Token.relocate π) current current :=
  fun s => congrArg (EStateM.Result.ok · (s.relocate π)) (s.current_relocate π)

theorem advance_shows : (mirror π).Shows id advance advance :=
  Mirror.shows_modify fun s => congrArg (TokenStream.mk · (π s.finish)) List.map_tail.symm

theorem failAt_shows (found : Token) (expected : Expectation) :
    (mirror π).Shows f (failAt found expected) (failAt (found.relocate π) expected) :=
  .throw rfl

theorem fail_shows (expected : Expectation) :
    (mirror π).Shows f (fail expected) (fail expected) :=
  current_shows.bind fun t => failAt_shows t expected

theorem isAt_shows (kind : Token.Kind) : (mirror π).Shows id (isAt kind) (isAt kind) :=
  current_shows.bind fun _ => .pure rfl

theorem accept_shows (kind : Token.Kind) : (mirror π).Shows id (accept kind) (accept kind) := by
  refine (isAt_shows kind).bind fun found => ?_
  cases found with
  | true => exact advance_shows.bind fun _ => .pure rfl
  | false => exact .pure rfl

theorem expect_shows (kind : Token.Kind) (expected : Expectation) :
    (mirror π).Shows (Token.relocate π) (expect kind expected) (expect kind expected) := by
  refine current_shows.bind fun t => ?_
  rw [Token.kind_relocate]
  split
  · exact advance_shows.bind fun _ => .pure rfl
  · exact failAt_shows t expected

/-- Items with commas between them are moved if each of them is. -/
theorem commaSeparated_shows {item : List α → Parser α} {item' : List α' → Parser α'}
    (h : ∀ read, (mirror π).Shows f (item read) (item' (read.map f))) (bound : Nat)
    (read : List α) :
    (mirror π).Shows (List.map f) (commaSeparated item bound read)
      (commaSeparated item' bound (read.map f)) := by
  induction bound generalizing read with
  | zero => exact .pure List.map_reverse.symm
  | succ bound ih =>
    refine (h read).bind fun x => (accept_shows .comma).bind fun found => ?_
    cases found with
    | true => exact ih (x :: read)
    | false => exact .pure (List.map_reverse (l := x :: read)).symm

end Parser

/-! ### Phrases -/

namespace Phrase

open SnapshotScript.Parser

variable {π : Position → Position} {recur : Level → Parser Expr} {bound : Nat}

theorem assignmentPath_shows (rounds : Nat) (path : List Token) :
    (mirror π).Shows (List.map (Token.relocate π)) (assignmentPath rounds path)
      (assignmentPath rounds (path.map (Token.relocate π))) := by
  induction rounds generalizing path with
  | zero => exact .pure rfl
  | succ rounds ih =>
    refine (accept_shows .dot).bind fun found => ?_
    cases found with
    | true => exact (expect_shows _ _).bind fun field => ih (field :: path)
    | false => exact .pure rfl

/-- Operators with operands between them are moved if the operands are. -/
theorem leftChain_shows (operator? : Token.Kind → Option BinaryOperator) {operand : Parser Expr}
    (h : (mirror π).Shows (Expr.relocate π) operand operand) (rounds : Nat) (left : Expr) :
    (mirror π).Shows (Expr.relocate π) (leftChain operator? operand rounds left)
      (leftChain operator? operand rounds (left.relocate π)) := by
  induction rounds generalizing left with
  | zero => exact .pure rfl
  | succ rounds ih =>
    refine current_shows.bind fun t => ?_
    rw [Token.kind_relocate]
    split
    · exact .pure rfl
    · next operator _ =>
      exact advance_shows.bind fun _ => h.bind fun right => ih (.binary operator left right t.first)

theorem members_shows (rounds : Nat) (target : Expr) :
    (mirror π).Shows (Expr.relocate π) (members rounds target)
      (members rounds (target.relocate π)) := by
  induction rounds generalizing target with
  | zero => exact .pure rfl
  | succ rounds ih =>
    refine (accept_shows .dot).bind fun found => ?_
    cases found with
    | true =>
      exact (expect_shows _ _).bind fun field => ih (.member target field.text field.first)
    | false => exact .pure rfl

theorem parenthesized_shows {α α' : Type} {f : α → α'} {item : List α → Parser α}
    {item' : List α' → Parser α'} (h : ∀ read, (mirror π).Shows f (item read) (item' (read.map f)))
    (expected : Expectation) :
    (mirror π).Shows (List.map f) (parenthesized bound item expected)
      (parenthesized bound item' expected) := by
  have hlist : (mirror π).Shows (List.map f) (list bound item) (list bound item') := by
    refine (isAt_shows .rightParen).bind fun found => ?_
    cases found with
    | true => exact .pure rfl
    | false => exact commaSeparated_shows h bound []
  exact hlist.bind fun items => (expect_shows _ expected).bind fun _ => .pure rfl

theorem definedName_shows : (mirror π).Shows id definedName definedName := by
  refine current_shows.bind fun t => ?_
  rw [Token.kind_relocate]
  split
  · exact advance_shows.bind fun _ => .pure rfl
  · exact .pure rfl

theorem parameter_shows (read : List String) :
    (mirror π).Shows id (parameter read) (parameter read) := by
  refine (expect_shows _ _).bind fun name => ?_
  rw [Token.text_relocate]
  split
  · exact failAt_shows name _
  · exact .pure rfl

theorem typeTag_shows : (mirror π).Shows id typeTag typeTag := by
  refine (accept_shows _).bind fun isFunction => ?_
  cases isFunction with
  | true => exact .pure rfl
  | false =>
    refine (accept_shows _).bind fun isNull => ?_
    cases isNull with
    | true => exact .pure rfl
    | false => exact (expect_shows _ _).bind fun name => .pure rfl

theorem declaredTag_shows : (mirror π).Shows id declaredTag declaredTag := by
  refine (accept_shows _).bind fun given => ?_
  cases given with
  | true => exact typeTag_shows
  | false => exact .pure rfl

theorem field_shows (read : List Field) : (mirror π).Shows id (field read) (field read) := by
  refine (expect_shows _ _).bind fun name => ?_
  rw [Token.text_relocate]
  split
  · exact failAt_shows name _
  · exact declaredTag_shows.bind fun tag => .pure rfl

theorem struct_shows (p : Position) :
    (mirror π).Shows (Expr.relocate π) (struct bound p) (struct bound (π p)) := by
  refine definedName_shows.bind fun name => (expect_shows _ _).bind fun _ => ?_
  have hfields : (mirror π).Shows (List.map id) (parenthesized bound field .endOfFields)
      (parenthesized bound field .endOfFields) :=
    parenthesized_shows (fun read => by rw [List.map_id]; exact field_shows read) _
  refine hfields.bind fun fields => .pure ?_
  rw [List.map_id]
  rfl

theorem literal_shows (value : Literal) (p : Position) :
    (mirror π).Shows (Expr.relocate π) (literal value p) (literal value (π p)) :=
  advance_shows.bind fun _ => .pure rfl

/-! ### Phrases with others inside of them -/

section Inner

variable (h : ∀ level, (mirror π).Shows (Expr.relocate π) (recur level) (recur level))

include h

theorem assignment_shows (p : Position) :
    (mirror π).Shows (Expr.relocate π) (assignment recur bound p)
      (assignment recur bound (π p)) := by
  refine (expect_shows _ _).bind fun name => (assignmentPath_shows bound []).bind fun path => ?_
  refine (expect_shows _ _).bind fun _ => (h .expression).bind fun value => ?_
  have htarget : ∀ (fields : List Token) (root : Expr),
      (fields.map (Token.relocate π)).foldr (fun m target => .member target m.text m.first)
          (root.relocate π) =
        (fields.foldr (fun m target => .member target m.text m.first) root).relocate π := by
    intro fields root
    induction fields with
    | nil => rfl
    | cons m fields ih => rw [List.map_cons, List.foldr_cons, ih]; rfl
  cases path with
  | nil => exact .pure rfl
  | cons field before =>
    refine .pure ?_
    dsimp only [Expr.relocate]
    rw [← htarget]
    rfl

theorem argument_shows :
    (mirror π).Shows (Argument.map (Expr.relocate π)) (argument recur) (argument recur) := by
  have hunnamed : (mirror π).Shows (Argument.map (Expr.relocate π))
      (do return (⟨none, ← recur .expression⟩ : Argument Expr))
      (do return (⟨none, ← recur .expression⟩ : Argument Expr)) :=
    (h .expression).bind fun value => .pure rfl
  refine Mirror.Shows.get.bind fun s => ?_
  obtain ⟨rest, finish⟩ := s
  rcases rest with _ | ⟨name, _ | ⟨colon, rest⟩⟩
  · exact hunnamed
  · exact hunnamed
  · change (mirror π).Shows _
      (if name.kind = .identifier ∧ colon.kind = .colon then _ else _)
      (if name.kind = .identifier ∧ colon.kind = .colon then _ else _)
    split
    · have hset : (mirror π).Shows id (set (TokenStream.mk rest finish))
          (set (TokenStream.mk (rest.map (Token.relocate π)) (π finish))) := fun _ => rfl
      exact hset.bind fun _ => (h .expression).bind fun value => .pure rfl
    · exact hunnamed

theorem items_shows (rounds : Nat) (read : List Expr) :
    (mirror π).Shows (List.map (Expr.relocate π)) (items recur rounds read)
      (items recur rounds (read.map (Expr.relocate π))) := by
  induction rounds generalizing read with
  | zero => exact .pure List.map_reverse.symm
  | succ rounds ih =>
    refine current_shows.bind fun t => ?_
    rw [Token.kind_relocate]
    split
    · exact .pure List.map_reverse.symm
    · exact (h .expression).bind fun item => ih (item :: read)

theorem block_shows (p : Position) :
    (mirror π).Shows (Expr.relocate π) (block recur bound p) (block recur bound (π p)) := by
  refine (items_shows h bound []).bind fun read => (expect_shows _ _).bind fun _ => ?_
  rcases read with _ | ⟨item, _ | ⟨next, read⟩⟩
  · exact .pure rfl
  · exact .pure rfl
  · refine .pure ?_
    rw [Expr.relocate, Expr.relocateItems_eq]
    rfl

theorem furtherCondition_shows :
    (mirror π).Shows (Option.map (Expr.relocate π)) (furtherCondition recur)
      (furtherCondition recur) := by
  refine (isAt_shows _).bind fun absent => ?_
  cases absent with
  | true => exact .pure rfl
  | false =>
    refine (h .expression).bind fun condition => .pure ?_
    rw [Expr.isEmptyBlock_relocate]
    split <;> rfl

theorem furtherBranches_shows (rounds : Nat) (read : List (Branch Expr)) :
    (mirror π).Shows
      (Prod.map (List.map (Branch.map (Expr.relocate π))) (Option.map (Expr.relocate π)))
      (furtherBranches recur rounds read)
      (furtherBranches recur rounds (read.map (Branch.map (Expr.relocate π)))) := by
  induction rounds generalizing read with
  | zero => exact .pure (congrArg (·, none) List.map_reverse.symm)
  | succ rounds ih =>
    refine (accept_shows _).bind fun further => ?_
    cases further with
    | true =>
      refine (furtherCondition_shows h).bind fun condition => (expect_shows _ _).bind fun _ => ?_
      refine (h .expression).bind fun body => ?_
      cases condition with
      | some condition => exact ih (⟨condition, body⟩ :: read)
      | none => exact .pure (congrArg (·, some (body.relocate π)) List.map_reverse.symm)
    | false =>
      refine (accept_shows _).bind fun last => ?_
      cases last with
      | true =>
        exact (h .expression).bind fun body =>
          .pure (congrArg (·, some (body.relocate π)) List.map_reverse.symm)
      | false => exact .pure (congrArg (·, none) List.map_reverse.symm)

theorem choice_shows (p : Position) :
    (mirror π).Shows (Expr.relocate π) (choice recur bound p) (choice recur bound (π p)) := by
  refine (h .expression).bind fun condition => (expect_shows _ _).bind fun _ => ?_
  refine (h .expression).bind fun body => ?_
  refine (furtherBranches_shows h bound [⟨condition, body⟩]).bind fun ⟨branches, otherwise⟩ => ?_
  refine .pure ?_
  rw [Expr.relocate, Expr.relocateBranches_eq, Expr.relocateOption_eq]

theorem forLoop_shows (p : Position) :
    (mirror π).Shows (Expr.relocate π) (forLoop recur p) (forLoop recur (π p)) := by
  have hstep : (mirror π).Shows (Option.map (Expr.relocate π)) (loopStep recur)
      (loopStep recur) := by
    refine (accept_shows _).bind fun given => ?_
    cases given with
    | true => exact (h .expression).bind fun step => .pure rfl
    | false => exact .pure rfl
  refine (expect_shows _ _).bind fun name => (expect_shows _ _).bind fun _ => ?_
  refine (h .expression).bind fun first => (expect_shows _ _).bind fun _ => ?_
  refine (h .expression).bind fun last => hstep.bind fun step => (expect_shows _ _).bind fun _ => ?_
  refine (h .expression).bind fun body => .pure ?_
  rw [Expr.relocate, Expr.relocateOption_eq]
  rfl

theorem whileLoop_shows (p : Position) :
    (mirror π).Shows (Expr.relocate π) (whileLoop recur p) (whileLoop recur (π p)) :=
  (h .expression).bind fun _ => (expect_shows _ _).bind fun _ =>
    (h .expression).bind fun _ => .pure rfl

theorem function_shows (p : Position) :
    (mirror π).Shows (Expr.relocate π) (function recur bound p) (function recur bound (π p)) := by
  refine definedName_shows.bind fun name => (expect_shows _ _).bind fun _ => ?_
  have hparameters : (mirror π).Shows (List.map id)
      (parenthesized bound parameter .endOfParameters)
      (parenthesized bound parameter .endOfParameters) :=
    parenthesized_shows (fun read => by rw [List.map_id]; exact parameter_shows read) _
  refine hparameters.bind fun parameters => (expect_shows _ _).bind fun _ => ?_
  refine (h .expression).bind fun body => .pure ?_
  rw [List.map_id]
  rfl

theorem returning_shows (p : Position) :
    (mirror π).Shows (Expr.relocate π) (returning recur p) (returning recur (π p)) := by
  refine current_shows.bind fun t => ?_
  rw [Token.kind_relocate]
  split
  · exact (h .expression).bind fun value => .pure rfl
  · exact .pure rfl

theorem atom_shows :
    (mirror π).Shows (Expr.relocate π) (atom recur bound) (atom recur bound) := by
  refine current_shows.bind fun t => ?_
  obtain ⟨kind, text, first, last⟩ := t
  have hother : (mirror π).Shows (Expr.relocate π)
      (failAt ⟨kind, text, first, last⟩ .expression)
      (failAt ⟨kind, text, π first, π last⟩ .expression) := failAt_shows _ _
  dsimp only [Token.relocate]
  cases kind with
  | int =>
    dsimp only
    split
    · exact literal_shows _ _
    · exact failAt_shows _ _
  | float =>
    dsimp only
    split
    · exact literal_shows _ _
    · exact failAt_shows _ _
  | string => exact literal_shows _ _
  | identifier => exact advance_shows.bind fun _ => .pure rfl
  | leftParen => exact advance_shows.seqRight (block_shows h first)
  | keyword word =>
    cases word with
    | true | false | null => exact literal_shows _ _
    | «if» => exact advance_shows.seqRight (choice_shows h first)
    | «for» => exact advance_shows.seqRight (forLoop_shows h first)
    | «while» => exact advance_shows.seqRight (whileLoop_shows h first)
    | «fun» => exact advance_shows.seqRight (function_shows h first)
    | struct => exact advance_shows.seqRight (struct_shows first)
    | «return» => exact advance_shows.seqRight (returning_shows h first)
    | _ => exact hother
  | _ => exact hother

theorem call_shows :
    (mirror π).Shows (Expr.relocate π) (call recur bound) (call recur bound) := by
  refine (atom_shows h).bind fun root => (members_shows bound root).bind fun callee => ?_
  refine (accept_shows _).bind fun called => ?_
  cases called with
  | false => exact .pure rfl
  | true =>
    refine (parenthesized_shows (fun _ => argument_shows h) _).bind fun arguments => ?_
    rw [Expr.position_relocate, ← Expr.relocateArguments_eq]
    exact members_shows bound (.call callee arguments callee.position)

theorem power_shows :
    (mirror π).Shows (Expr.relocate π) (power recur bound) (power recur bound) := by
  refine (call_shows h).bind fun base => current_shows.bind fun t => ?_
  rw [Token.kind_relocate]
  split
  · exact advance_shows.bind fun _ => (h .factor).bind fun exponent => .pure rfl
  · exact .pure rfl

theorem factor_shows :
    (mirror π).Shows (Expr.relocate π) (factor recur bound) (factor recur bound) := by
  refine current_shows.bind fun t => ?_
  rw [Token.kind_relocate]
  split
  · exact advance_shows.bind fun _ => (h .factor).bind fun operand => .pure rfl
  · exact power_shows h

theorem arithmetic_shows :
    (mirror π).Shows (Expr.relocate π) (arithmetic recur bound) (arithmetic recur bound) := by
  have hterm : (mirror π).Shows (Expr.relocate π) (term recur bound) (term recur bound) :=
    (factor_shows h).bind fun first => leftChain_shows _ (factor_shows h) bound first
  exact hterm.bind fun first => leftChain_shows _ hterm bound first

theorem comparison_shows :
    (mirror π).Shows (Expr.relocate π) (comparison recur bound) (comparison recur bound) := by
  refine current_shows.bind fun t => ?_
  rw [Token.kind_relocate]
  split
  · exact advance_shows.bind fun _ => (h .comparison).bind fun operand => .pure rfl
  · refine (arithmetic_shows h).bind fun left => current_shows.bind fun t => ?_
    rw [Token.kind_relocate]
    split
    · exact advance_shows.bind fun _ => (arithmetic_shows h).bind fun right => .pure rfl
    · exact .pure rfl

/-- A phrase of any level reads the same in other positions, if the phrases inside of it do. -/
theorem step_shows (level : Level) :
    (mirror π).Shows (Expr.relocate π) (step recur bound level) (step recur bound level) := by
  cases level with
  | expression =>
    refine current_shows.bind fun t => ?_
    rw [Token.kind_relocate]
    split
    · exact advance_shows.bind fun _ => assignment_shows h t.first
    · exact (comparison_shows h).bind fun first =>
        leftChain_shows _ (comparison_shows h) bound first
  | comparison => exact comparison_shows h
  | factor => exact factor_shows h

end Inner

end Phrase

/-! ### Programs -/

section

open SnapshotScript.Parser

variable (π : Position → Position)

/-- A phrase reads the same in other positions, however deep phrases may be nested. -/
theorem phrase_shows (bound : Nat) (level : Phrase.Level) :
    (mirror π).Shows (Expr.relocate π) (phrase bound level) (phrase bound level) := by
  induction bound generalizing level with
  | zero => exact fail_shows _
  | succ bound ih => exact Phrase.step_shows ih level

theorem Program.items_shows (bound rounds : Nat) (read : List Expr) :
    (mirror π).Shows (List.map (Expr.relocate π)) (Program.items bound rounds read)
      (Program.items bound rounds (read.map (Expr.relocate π))) := by
  induction rounds generalizing read with
  | zero => exact .pure List.map_reverse.symm
  | succ rounds ih =>
    refine (isAt_shows _).bind fun finished => ?_
    cases finished with
    | true => exact .pure List.map_reverse.symm
    | false => exact (phrase_shows π bound .expression).bind fun item => ih (item :: read)

/-- A program reads the same in other positions. -/
theorem Program.parse_shows :
    (mirror π).Shows (Expr.relocate π) Program.parse Program.parse := by
  refine Mirror.Shows.get.bind fun s => ?_
  have hlength : ((mirror π).state s).rest.length = s.rest.length := List.length_map _
  have hfirst : ((mirror π).state s).current.first = π s.current.first :=
    congrArg Token.first (s.current_relocate π)
  rw [hlength, hfirst]
  refine (Program.items_shows π _ _ []).bind fun items => .pure ?_
  rw [Expr.relocate, Expr.relocateItems_eq]

/-- To move tokens before they are read is to move what is read from them. -/
theorem parseTokens_relocate (hstart : π .start = .start) (tokens : List Token) :
    parseTokens (tokens.map (Token.relocate π)) =
      match parseTokens tokens with
      | .ok program => .ok (program.relocate π)
      | .error e => .error (e.relocate π) := by
  unfold parseTokens
  rw [TokenStream.ofTokens_relocate π hstart]
  have hread : Program.parse ((TokenStream.ofTokens tokens).relocate π) = _ :=
    Program.parse_shows π (TokenStream.ofTokens tokens)
  rw [hread]
  cases Program.parse (TokenStream.ofTokens tokens) <;> rfl

end

end SnapshotScript
