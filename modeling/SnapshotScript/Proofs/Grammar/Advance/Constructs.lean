import SnapshotScript.Proofs.Grammar.Advance
import SnapshotScript.Proofs.Grammar.Constructs

/-!
# Constructs go forward

The loops of the parser and the functions for single constructs advance, provided that the parsers
of the phrases inside them do.
-/

namespace SnapshotScript

open SnapshotScript.Grammar SnapshotScript.Parser SnapshotScript.TokenStream

namespace Phrase

section Functions

variable {n rounds rounds' bound bound' : Nat} {s : TokenStream}

/-! ### Loops -/

theorem assignmentPath_advances (hrounds : s.rest.length < rounds)
    (hrounds' : s.rest.length < rounds') (path : List Token) :
    Advances False 0 (assignmentPath rounds path) (assignmentPath rounds' path) s := by
  induction rounds generalizing rounds' s path with
  | zero => exact absurd hrounds (Nat.not_lt_zero _)
  | succ rounds ih =>
    cases rounds' with
    | zero => exact absurd hrounds' (Nat.not_lt_zero _)
    | succ rounds' =>
      rw [assignmentPath, assignmentPath]
      refine .accept (by decide) (fun s₁ h₁ => ?_) (.pure _)
      refine (Advances.expect (by decide) (by decide) fun field s₂ h₂ => ?_).zero
      have hlength := (h₁.trans h₂).length_le
      exact ih (by omega) (by omega) (field :: path)

theorem members_advances (hrounds : s.rest.length < rounds) (hrounds' : s.rest.length < rounds')
    (target : Expr) : Advances False 0 (members rounds target) (members rounds' target) s := by
  induction rounds generalizing rounds' s target with
  | zero => exact absurd hrounds (Nat.not_lt_zero _)
  | succ rounds ih =>
    cases rounds' with
    | zero => exact absurd hrounds' (Nat.not_lt_zero _)
    | succ rounds' =>
      rw [members, members]
      refine .accept (by decide) (fun s₁ h₁ => ?_) (.pure _)
      refine (Advances.expect (by decide) (by decide) fun field s₂ h₂ => ?_).zero
      have hlength := (h₁.trans h₂).length_le
      exact ih (by omega) (by omega) (.member target field.text field.first)

/-- Operators with operands between them advance if the operands pass a token each. -/
theorem leftChain_advances {operator? : Token.Kind → Option BinaryOperator}
    {operand operand' : Parser Expr} (hend : operator? .endOfInput = none)
    (hoperand : ∀ s : TokenStream, s.rest.length ≤ n → Advances False 1 operand operand' s)
    (hlength : s.rest.length ≤ n) (hrounds : s.rest.length < rounds)
    (hrounds' : s.rest.length < rounds') (left : Expr) :
    Advances False 0 (leftChain operator? operand rounds left)
      (leftChain operator? operand' rounds' left) s := by
  induction rounds generalizing rounds' s left with
  | zero => exact absurd hrounds (Nat.not_lt_zero _)
  | succ rounds ih =>
    cases rounds' with
    | zero => exact absurd hrounds' (Nat.not_lt_zero _)
    | succ rounds' =>
      rw [leftChain, leftChain]
      refine .current ?_
      cases hsign : operator? s.current.kind with
      | none => exact .pure _
      | some operator =>
        have hnext : s.current.kind ≠ .endOfInput := by
          intro heq
          rw [heq, hend] at hsign
          cases hsign
        refine (Advances.advance hnext fun s₁ h₁ => ?_).zero
        have hlength₁ := h₁.length_le
        refine ((hoperand s₁ (by omega)).bind fun right s₂ h₂ => ?_).zero
        have hlength₂ := h₂.length_le
        exact ih (by omega) (by omega) (by omega) _

theorem operands_advances {operator? : Token.Kind → Option BinaryOperator}
    {operand operand' : Parser Expr} (first : TokenStream → Prop)
    (hend : operator? .endOfInput = none)
    (hoperand : ∀ s : TokenStream, s.rest.length ≤ n → Advances (first s) 1 operand operand' s)
    (hlength : s.rest.length ≤ n) (hbound : n ≤ bound) (hbound' : n ≤ bound') :
    Advances (first s) 1 (do leftChain operator? operand bound (← operand))
      (do leftChain operator? operand' bound' (← operand')) s := by
  refine (hoperand s hlength).bind fun left s₁ h₁ => ?_
  have hlength₁ := h₁.length_le
  refine leftChain_advances (n := n) hend (fun s hs => ?_) ?_ ?_ ?_ left
  · exact (hoperand s hs).mono False.elim (Nat.le_refl 1)
  all_goals omega

/-- Items with commas between them advance if each item passes a token. -/
theorem commaSeparated_advances {α : Type} {item item' : List α → Parser α}
    (hitem : ∀ read (s : TokenStream), s.rest.length < n →
      Advances False 1 (item read) (item' read) s)
    (hlength : s.rest.length < n) (hrounds : s.rest.length < rounds)
    (hrounds' : s.rest.length < rounds') (read : List α) :
    Advances False 0 (commaSeparated item rounds read) (commaSeparated item' rounds' read) s := by
  induction rounds generalizing rounds' s read with
  | zero => exact absurd hrounds (Nat.not_lt_zero _)
  | succ rounds ih =>
    cases rounds' with
    | zero => exact absurd hrounds' (Nat.not_lt_zero _)
    | succ rounds' =>
      rw [commaSeparated, commaSeparated]
      refine ((hitem read s hlength).bind fun x s₁ h₁ => ?_).zero
      refine .accept (by decide) (fun s₂ h₂ => ?_) (.pure _)
      have hlength₂ := (h₁.trans h₂).length_le
      exact ih (by omega) (by omega) (by omega) (x :: read)

/-- A list passes its opening parenthesis at least. -/
theorem parenthesized_advances {α : Type} {item item' : List α → Parser α}
    (hitem : ∀ read (s : TokenStream), s.rest.length < n →
      Advances False 1 (item read) (item' read) s)
    (hlength : s.rest.length < n) (hbound : n ≤ bound) (hbound' : n ≤ bound')
    {expected : Expectation} (hexpected : expected.ofAtom = false) :
    Advances False 1 (parenthesized bound item expected) (parenthesized bound' item' expected)
      s := by
  have hlist : Advances False 0 (list bound item) (list bound' item') s := by
    refine .isAt ?_
    split
    · exact .pure _
    · exact commaSeparated_advances hitem hlength (by omega) (by omega) []
  exact hlist.bind_zero fun items s₁ h₁ => .expect (by decide) hexpected fun _ _ _ => .pure items

/-! ### Names and types -/

theorem definedName_advances : Advances False 0 definedName definedName s := by
  refine .current ?_
  split
  · next hname =>
    refine (Advances.advance ?_ fun s₁ _ => ?_).zero
    · rw [hname]
      decide
    · exact .pure _
  · exact .pure _

/-- A parser that may refuse the token it has passed advances. -/
theorem expect_unless_advances {α : Type} {kind : Token.Kind} {expected expected' : Expectation}
    {c : Token → Prop} [DecidablePred c] {f : Token → Parser α} (hkind : kind ≠ .endOfInput)
    (hexpected : expected.ofAtom = false) (hexpected' : expected'.ofAtom = false)
    (hf : ∀ t s', Advances False 0 (f t) (f t) s') :
    let p : Parser α := do
      let t ← Parser.expect kind expected
      if c t then failAt t expected' else f t
    Advances False 1 p p s := by
  refine .expect hkind hexpected fun t s' _ => ?_
  split
  · exact .failAt (justified_of_eq_false hexpected') fun _ => id
  · exact hf t s'

theorem parameter_advances (read : List String) :
    Advances False 1 (parameter read) (parameter read) s :=
  expect_unless_advances (by decide) (by decide) (by decide) fun _ _ => .pure _

theorem declaredTag_advances : Advances False 0 declaredTag declaredTag s := by
  have htag (s : TokenStream) : Advances False 0 typeTag typeTag s := by
    refine .accept (by decide) (fun _ _ => .pure _) ?_
    refine .accept (by decide) (fun _ _ => .pure _) ?_
    exact (Advances.expect (by decide) (by decide) fun _ _ _ => .pure _).zero
  exact .accept (by decide) (fun s₁ _ => htag s₁) (.pure _)

theorem field_advances (read : List Field) : Advances False 1 (field read) (field read) s :=
  expect_unless_advances (by decide) (by decide) (by decide) fun _ _ =>
    declaredTag_advances.bind_zero fun _ _ _ => .pure _

theorem struct_advances (hlength : s.rest.length < n) (hbound : n ≤ bound) (hbound' : n ≤ bound')
    (position : Position) :
    Advances False 0 (struct bound position) (struct bound' position) s := by
  refine definedName_advances.bind_zero fun name s₁ h₁ => ?_
  refine (Advances.expect (by decide) (by decide) fun _ s₂ h₂ => ?_).zero
  have hlength₂ := (h₁.trans h₂).length_le
  refine ((parenthesized_advances (n := n) ?_ (by omega) hbound hbound' (by decide)).bind ?_).zero
  · exact fun read s _ => field_advances read
  · exact fun fields s₃ _ => .pure _

/-! ### Constructs -/

variable {recur recur' : Level → Parser Expr}

/-- Inner phrases of fewer than `n` tokens are read in the same way by `recur` and `recur'`, which
go forward there. -/
def AdvancesInner (n : Nat) (recur recur' : Level → Parser Expr) : Prop :=
  ∀ level (s : TokenStream), s.rest.length < n →
    Advances (s.current.kind ∈ level.nonterminal.beginnings) 1 (recur level) (recur' level) s

variable (hinner : AdvancesInner n recur recur')

include hinner

/-- An inner phrase passes a token, also where no such phrase begins. -/
theorem AdvancesInner.reading (level : Level) (hlength : s.rest.length < n) :
    Advances False 1 (recur level) (recur' level) s :=
  (hinner level s hlength).mono False.elim (Nat.le_refl 1)

/-- Behind an inner expression and a token a parser goes on with fewer tokens. -/
theorem AdvancesInner.expression_expect {β : Type} {kind : Token.Kind} {expected : Expectation}
    {f f' : Expr → Parser β} (hlength : s.rest.length < n) (hkind : kind ≠ .endOfInput)
    (hexpected : expected.ofAtom = false)
    (hf : ∀ e (s' : TokenStream), s'.rest.length < n → Advances False 0 (f e) (f' e) s') :
    Advances False 0
      (do
        let e ← recur .expression
        let _ ← Parser.expect kind expected
        f e)
      (do
        let e ← recur' .expression
        let _ ← Parser.expect kind expected
        f' e) s := by
  refine ((hinner.reading .expression hlength).bind fun e s₁ h₁ => ?_).zero
  refine (Advances.expect hkind hexpected fun _ s₂ h₂ => ?_).zero
  have hlength₂ := (h₁.trans h₂).length_le
  exact hf e s₂ (by omega)

/-- A construct advances if it ends with an inner expression. -/
theorem AdvancesInner.last {β : Type} (hlength : s.rest.length < n) (g : Expr → β) :
    Advances False 0 (do return g (← recur .expression)) (do return g (← recur' .expression)) s :=
  ((hinner.reading .expression hlength).map).zero

theorem assignment_advances (hlength : s.rest.length < n) (hbound : n ≤ bound)
    (hbound' : n ≤ bound') (position : Position) :
    Advances False 0 (assignment recur bound position) (assignment recur' bound' position) s := by
  refine (Advances.expect (by decide) (by decide) fun name s₁ h₁ => ?_).zero
  have hlength₁ := h₁.length_le
  refine (assignmentPath_advances (by omega) (by omega) []).bind_zero fun path s₂ h₂ => ?_
  refine (Advances.expect (by decide) (by decide) fun _ s₃ h₃ => ?_).zero
  have hlength₃ := (h₂.trans h₃).length_le
  refine ((hinner.reading .expression (by omega)).bind fun value s₄ _ => ?_).zero
  cases path with
  | nil => exact .pure _
  | cons field before => exact .pure _

theorem argument_advances (hlength : s.rest.length < n) :
    Advances False 1 (argument recur) (argument recur') s := by
  have hvalue (s : TokenStream) (hs : s.rest.length < n) (name : Option String) :
      Advances False 1 (do return Argument.mk name (← recur .expression))
        (do return Argument.mk name (← recur' .expression)) s :=
    (hinner.reading .expression hs).map
  refine .get ?_
  obtain ⟨rest, finish⟩ := s
  split
  · next name colon ts hrest =>
    obtain rfl : rest = name :: colon :: ts := hrest
    split
    · have hpassed : Ahead 1 ⟨name :: colon :: ts, finish⟩ ⟨ts, finish⟩ :=
        ⟨rfl, (List.suffix_cons colon ts).trans (List.suffix_cons name _), by simp⟩
      exact .set hpassed (hvalue _ (Nat.lt_trans hpassed.length_le hlength) _).zero
    · exact hvalue _ hlength none
  · exact hvalue _ hlength none

theorem items_advances (hlength : s.rest.length < n) (hrounds : s.rest.length < rounds)
    (hrounds' : s.rest.length < rounds') (read : List Expr) :
    Advances False 0 (items recur rounds read) (items recur' rounds' read) s := by
  induction rounds generalizing rounds' s read with
  | zero => exact absurd hrounds (Nat.not_lt_zero _)
  | succ rounds ih =>
    cases rounds' with
    | zero => exact absurd hrounds' (Nat.not_lt_zero _)
    | succ rounds' =>
      rw [items, items]
      refine .current ?_
      split
      · exact .pure _
      · refine ((hinner.reading .expression hlength).bind fun item s₁ h₁ => ?_).zero
        have hlength₁ := h₁.length_le
        exact ih (by omega) (by omega) (by omega) (item :: read)

theorem block_advances (hlength : s.rest.length < n) (hbound : n ≤ bound) (hbound' : n ≤ bound')
    (position : Position) :
    Advances False 0 (block recur bound position) (block recur' bound' position) s := by
  refine (items_advances hinner hlength (by omega) (by omega) []).bind_zero fun read s₁ h₁ => ?_
  refine (Advances.expect (by decide) (by decide) fun _ s₂ _ => ?_).zero
  split
  · exact .pure _
  · exact .pure _

theorem furtherBranches_advances (hlength : s.rest.length < n) (hrounds : s.rest.length < rounds)
    (hrounds' : s.rest.length < rounds') (read : List (Branch Expr)) :
    Advances False 0 (furtherBranches recur rounds read) (furtherBranches recur' rounds' read)
      s := by
  induction rounds generalizing rounds' s read with
  | zero => exact absurd hrounds (Nat.not_lt_zero _)
  | succ rounds ih =>
    cases rounds' with
    | zero => exact absurd hrounds' (Nat.not_lt_zero _)
    | succ rounds' =>
      have hcondition (s : TokenStream) (hs : s.rest.length < n) :
          Advances False 0 (furtherCondition recur) (furtherCondition recur') s := by
        refine .isAt ?_
        split
        · exact .pure _
        · exact hinner.last hs _
      rw [furtherBranches, furtherBranches]
      refine .accept (by decide) (fun s₁ h₁ => ?_) ?_
      · have hlength₁ := h₁.length_le
        refine (hcondition s₁ (by omega)).bind_zero fun condition s₂ h₂ => ?_
        refine (Advances.expect (by decide) (by decide) fun _ s₃ h₃ => ?_).zero
        have hlength₃ := (h₂.trans h₃).length_le
        refine ((hinner.reading .expression (by omega)).bind fun body s₄ h₄ => ?_).zero
        have hlength₄ := h₄.length_le
        cases condition with
        | some condition => exact ih (by omega) (by omega) (by omega) _
        | none => exact .pure _
      · refine .accept (by decide) (fun s₁ h₁ => ?_) (.pure _)
        have hlength₁ := h₁.length_le
        exact hinner.last (by omega) _

theorem choice_advances (hlength : s.rest.length < n) (hbound : n ≤ bound) (hbound' : n ≤ bound')
    (position : Position) :
    Advances False 0 (choice recur bound position) (choice recur' bound' position) s := by
  refine hinner.expression_expect hlength (by decide) (by decide) fun condition s₁ h₁ => ?_
  refine ((hinner.reading .expression h₁).bind fun body s₂ h₂ => ?_).zero
  have hlength₂ := h₂.length_le
  refine (furtherBranches_advances hinner (by omega) (by omega) (by omega) _).bind_zero ?_
  exact fun branches s₃ _ => .pure _

theorem forLoop_advances (hlength : s.rest.length < n) (position : Position) :
    Advances False 0 (forLoop recur position) (forLoop recur' position) s := by
  refine (Advances.expect (by decide) (by decide) fun name s₁ h₁ => ?_).zero
  refine (Advances.expect (by decide) (by decide) fun _ s₂ h₂ => ?_).zero
  have hlength₂ := (h₁.trans h₂).length_le
  refine hinner.expression_expect (by omega) (by decide) (by decide) fun first s₃ h₃ => ?_
  refine ((hinner.reading .expression h₃).bind fun last s₄ h₄ => ?_).zero
  have hlength₄ := h₄.length_le
  have hstep : Advances False 0 (loopStep recur) (loopStep recur') s₄ := by
    refine .accept (by decide) (fun s₅ h₅ => ?_) (.pure _)
    have hlength₅ := h₅.length_le
    exact hinner.last (by omega) _
  refine hstep.bind_zero fun step s₅ h₅ => ?_
  refine (Advances.expect (by decide) (by decide) fun _ s₆ h₆ => ?_).zero
  have hlength₆ := (h₅.trans h₆).length_le
  exact hinner.last (by omega) _

theorem whileLoop_advances (hlength : s.rest.length < n) (position : Position) :
    Advances False 0 (whileLoop recur position) (whileLoop recur' position) s :=
  hinner.expression_expect hlength (by decide) (by decide) fun _ _ h => hinner.last h _

theorem function_advances (hlength : s.rest.length < n) (hbound : n ≤ bound) (hbound' : n ≤ bound')
    (position : Position) :
    Advances False 0 (function recur bound position) (function recur' bound' position) s := by
  refine definedName_advances.bind_zero fun name s₁ h₁ => ?_
  refine (Advances.expect (by decide) (by decide) fun _ s₂ h₂ => ?_).zero
  have hlength₂ := (h₁.trans h₂).length_le
  refine ((parenthesized_advances (n := n) ?_ (by omega) hbound hbound' (by decide)).bind ?_).zero
  · exact fun read s _ => parameter_advances read
  · intro parameters s₃ h₃
    refine (Advances.expect (by decide) (by decide) fun _ s₄ h₄ => ?_).zero
    have hlength₄ := (h₃.trans h₄).length_le
    exact hinner.last (by omega) _

theorem returning_advances (hlength : s.rest.length < n) (position : Position) :
    Advances False 0 (returning recur position) (returning recur' position) s := by
  refine .current ?_
  split
  · exact hinner.last hlength _
  · exact .pure _

end Functions

end Phrase

end SnapshotScript
