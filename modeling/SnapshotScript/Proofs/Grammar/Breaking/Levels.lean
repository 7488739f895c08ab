import SnapshotScript.Proofs.Grammar.Agreement
import SnapshotScript.Proofs.Grammar.Breaking.Constructs

/-!
# Failures in phrases

Phrases of each level fail at the first token that cannot belong to them, provided that the phrases
inside them do.  So, by induction on the number of tokens, all phrases do.
-/

namespace SnapshotScript

open SnapshotScript.Grammar SnapshotScript.Parser

namespace Phrase

variable {finish finish' : Position} {recur recur' : Level → Parser Expr}
  {n bound bound' : Nat} {ts used : List Token} {t : Token}

/-! ### Atoms -/

/-- A token that is passed does not fail. -/
theorem literal_breaks {G : List Token → Prop} (v : Literal) (position : Position) :
    Breaks finish finish' n (literal v position) (literal v position) (t :: ts) G := by
  rw [literal]
  exact .advance (.pure _)

/-- The word `null` is an atom in any place. -/
theorem viable_atom : Viable (Derives .atom) [] :=
  ⟨[sample (.keyword .null)], by decide, fun _ _ => ⟨_, .atom (.constant .null)⟩⟩

/-- What stands behind what is called. -/
def CallEnd (ts : List Token) (fields : List Token) (rest : List Token) : Prop :=
  next ts ≠ .leftParen ∧ rest = ts ∨
    After .leftParen (Sequence (Parenthesized DerivesArgument) fun _ => Members) ts fields rest

/-- What stands behind the base of a power. -/
def PowerEnd (base : Expr) (ts : List Token) (e : Expr) (rest : List Token) : Prop :=
  next ts ≠ .power ∧ e = base ∧ rest = ts ∨
    ∃ sign mid exponent, ts = sign :: mid ∧ sign.kind = .power ∧ Derives .factor mid exponent rest ∧
      e = .binary .power base exponent sign.first

/-- What stands behind the left side of a comparison. -/
def ComparisonEnd (left : Expr) (ts : List Token) (e : Expr) (rest : List Token) : Prop :=
  (∀ o, ¬ Infix .comparison (next ts) o) ∧ e = left ∧ rest = ts ∨
    ∃ sign mid o right, ts = sign :: mid ∧ Infix .comparison sign.kind o ∧
      Derives .arithmetic mid right rest ∧ e = .binary o left right sign.first

section Levels

variable (hinner : RecognizesInner finish finish' recur recur' bound bound')
  (hle : bound ≤ bound')

include hinner hle

theorem atom_breaks (hlt : ts.length ≤ bound) :
    Breaks finish finish' (bound' + 1) (atom recur bound) (atom recur' bound') ts
      (Viable (Derives .atom)) := by
  rw [atom, atom]
  refine .current fun t ht => ?_
  cases ts with
  | nil =>
    obtain rfl := ht
    exact .failAt rfl viable_atom rfl
  | cons t' ts =>
    obtain rfl : t = t' := ht
    rw [List.length_cons] at hlt
    have hatom : ∀ {used}, Viable (Atom t.kind t) used → Viable (Derives .atom) (t :: used) :=
      fun hused => hused.prepend [t] fun _ h => ⟨_, .atom h⟩
    have hfail {expected : Expectation} (hpassed : expected.passed = 0) :
        Breaks finish finish' (bound' + 1) (failAt (α := Expr) t expected) (failAt t expected)
          (t :: ts) (Viable (Derives .atom)) :=
      .failAt hpassed viable_atom rfl
    generalize t.kind = k at hatom
    cases k with
    | int =>
      dsimp only
      split
      · exact literal_breaks _ _
      · exact hfail rfl
    | float =>
      dsimp only
      split
      · exact literal_breaks _ _
      · exact hfail rfl
    | string => exact literal_breaks _ _
    | identifier => exact .advance (.pure _)
    | leftParen =>
      exact .advance_seqRight
        ((block_breaks hinner hle hlt _).mono (fun _ => hatom) (Nat.le_refl _))
    | keyword word =>
      cases word with
      | true => exact literal_breaks _ _
      | false => exact literal_breaks _ _
      | null => exact literal_breaks _ _
      | «if» =>
        exact .advance_seqRight
          ((choice_breaks hinner hle hlt _).mono (fun _ => hatom) (Nat.le_refl _))
      | «for» =>
        exact .advance_seqRight
          ((forLoop_breaks hinner hlt _).mono (fun _ => hatom) (Nat.le_refl _))
      | «while» =>
        exact .advance_seqRight
          ((whileLoop_breaks hinner hlt _).mono (fun _ => hatom) (Nat.le_refl _))
      | «fun» =>
        exact .advance_seqRight
          ((function_breaks hinner hle hlt _).mono (fun _ => hatom) (Nat.le_refl _))
      | struct =>
        exact .advance_seqRight ((struct_breaks hle hlt _).mono (fun _ => hatom) (Nat.le_refl _))
      | «return» =>
        exact .advance_seqRight
          ((returning_breaks hinner hlt _).mono (fun _ => hatom) (Nat.le_refl _))
      | _ => exact hfail rfl
    | _ => exact hfail rfl

theorem atom_recognizes : Recognizes finish finish' (bound + 1) (bound' + 1) (atom recur bound)
    (atom recur' bound') (Derives .atom) where
  reads hlt := atom_reads hinner.reads (Nat.le_of_lt_succ hlt)
  reads' hlt := atom_reads hinner.reads' (Nat.le_of_lt_succ hlt)
  breaks hlt := atom_breaks hinner hle (Nat.le_of_lt_succ hlt)

/-! ### Calls and powers -/

theorem call_recognizes : Recognizes finish finish' (bound + 1) (bound' + 1) (call recur bound)
    (call recur' bound') (Derives .call) where
  reads hlt := call_reads hinner.reads (Nat.le_of_lt_succ hlt)
  reads' hlt := call_reads hinner.reads' (Nat.le_of_lt_succ hlt)
  breaks {ts} hlt := by
    have hmembers : ∀ {rest}, next rest ∈ closers → Members rest [] rest :=
      fun hrest => .done (next_ne_of_mem hrest (by decide))
    have hcall : ∀ {rest}, next rest ∈ closers → CallEnd rest [] rest :=
      fun hrest => .inl ⟨next_ne_of_mem hrest (by decide), rfl⟩
    rw [call, call]
    refine ((atom_recognizes hinner hle).bind (S := fun _ => Sequence Members fun _ => CallEnd)
      (phrasal_derives _) hlt (Nat.le_refl _) ?_ fun e mid _ hmid =>
        .sequence (members_breaks ?_ hle ?_ e) (members_reads ?_ e)
          (fun ts' hts' => members_reads ?_ e) (fun ⟨fields, hfields, _⟩ => ⟨fields, hfields⟩) ?_
          (fun _ _ _ _ => Members.exchange) ?_ fun callee mid' _ hmid' => ?_).mono
      (fun used hused => hused.mono ?_) (Nat.le_refl _)
    · exact resumes_nil fun _ _ hrest => ⟨[], [], _, hmembers hrest, hcall hrest⟩
    · omega
    · omega
    · omega
    · omega
    · rintro callee mid mid' ⟨fields, hfields, heq⟩ hnext
      obtain ⟨ts', hts', hfields'⟩ := hfields.exchange (.inl hnext)
      exact ⟨ts', hts', fields, hfields', heq⟩
    · exact resumes_nil fun _ _ hrest => ⟨[], hcall hrest⟩
    · refine .accept (by decide) (fun paren mid₁ hts hparen => ?_) fun _ => .pure _
      rw [hts, List.length_cons] at hmid'
      refine ((arguments_recognizes hinner hle).bind (S := fun _ => Members)
        (Phrasal.parenthesized ⟨DerivesArgument.behind, fun _ _ _ _ => DerivesArgument.exchange⟩)
        (by omega) (by omega) ?_ fun arguments mid₂ _ hmid₂ => members_breaks ?_ hle ?_ _).mono
        (fun used hused => ?_) (Nat.le_refl _)
      · exact resumes_nil fun _ _ hrest => ⟨[], hmembers hrest⟩
      · omega
      · omega
      · exact (hused.after hparen).mono fun _ h => ⟨_, .inr h⟩
    · rintro ts _ rest - ⟨e, mid, he, before, mid', hbefore, ⟨hnext, rfl⟩ |
        ⟨paren, mid₁, rfl, hparen, arguments, mid₂, harguments, hafter⟩⟩
      · exact ⟨_, .uncalled he hbefore hnext⟩
      · exact ⟨_, .called he hbefore hparen harguments hafter⟩

theorem power_recognizes : Recognizes finish finish' (bound + 1) (bound' + 1) (power recur bound)
    (power recur' bound') (Derives .power) where
  reads hlt := power_reads hinner.reads (Nat.le_of_lt_succ hlt)
  reads' hlt := power_reads hinner.reads' (Nat.le_of_lt_succ hlt)
  breaks {ts} hlt := by
    rw [power, power]
    refine ((call_recognizes hinner hle).bind (S := PowerEnd) (phrasal_derives _) hlt
      (Nat.le_refl _) ?_ fun base mid _ hmid =>
        .current_ite (by decide) (fun sign mid' hts hsign => ?_) fun _ _ => .pure _).mono
      (fun used hused => hused.mono ?_) (Nat.le_refl _)
    · exact resumes_nil fun base _ hrest =>
        ⟨base, .inl ⟨next_ne_of_mem hrest (by decide), rfl, rfl⟩⟩
    · rw [hts, List.length_cons] at hmid
      refine ((hinner .factor).breaks (by omega)).map.mono (fun used hused => ?_) (by omega)
      have hpower : Viable (PowerEnd base) (sign :: used) :=
        hused.prepend [sign] fun _ h => ⟨_, .inr ⟨sign, _, _, rfl, hsign, h, rfl⟩⟩
      exact hpower.continues
    · rintro ts _ rest - ⟨base, mid, hbase, ⟨hnext, rfl, rfl⟩ |
        ⟨sign, mid', exponent, rfl, hsign, h, rfl⟩⟩
      · exact ⟨_, .unraised hbase hnext⟩
      · exact ⟨_, .raised hbase hsign h⟩

/-! ### Operators -/

theorem factor_recognizes : Recognizes finish finish' (bound + 1) (bound' + 1) (factor recur bound)
    (factor recur' bound') (Derives .factor) where
  reads hlt := factor_reads hinner.reads (Nat.le_of_lt_succ hlt)
  reads' hlt := factor_reads hinner.reads' (Nat.le_of_lt_succ hlt)
  breaks {ts} hlt := by
    rw [factor, factor]
    refine .current fun t ht => ?_
    cases hoperator : signOperator? t.kind with
    | none =>
      exact ((power_recognizes hinner hle).breaks hlt).mono
        (fun used hused => hused.mono fun _ h => ⟨_, .unsigned h⟩) (Nat.le_refl _)
    | some o =>
      have hsign := signOperator?_eq_some.1 hoperator
      cases ts with
      | nil =>
        obtain rfl := ht
        cases hsign
      | cons sign ts =>
        obtain rfl : t = sign := ht
        rw [List.length_cons] at hlt
        refine .advance (((hinner .factor).breaks (by omega)).map.mono (fun used hused => ?_)
          (Nat.le_refl _))
        exact hused.prepend [t] fun _ h => ⟨_, .signed hsign h⟩

theorem term_recognizes : Recognizes finish finish' (bound + 1) (bound' + 1) (term recur bound)
    (term recur' bound') (Derives .term) where
  reads hlt := term_reads hinner.reads (Nat.le_of_lt_succ hlt)
  reads' hlt := term_reads hinner.reads' (Nat.le_of_lt_succ hlt)
  breaks hlt := (operands_breaks (N := .term) productOperator?_eq_some
    (factor_recognizes hinner hle) hle (Nat.le_of_lt_succ hlt)).mono
    (fun _ hused => hused.mono fun _ ⟨_, _, hleft, h⟩ => ⟨_, .product hleft h⟩) (Nat.le_refl _)

theorem arithmetic_recognizes : Recognizes finish finish' (bound + 1) (bound' + 1)
    (arithmetic recur bound) (arithmetic recur' bound') (Derives .arithmetic) where
  reads hlt := arithmetic_reads hinner.reads (Nat.le_of_lt_succ hlt)
  reads' hlt := arithmetic_reads hinner.reads' (Nat.le_of_lt_succ hlt)
  breaks hlt := (operands_breaks (N := .arithmetic) sumOperator?_eq_some
    (term_recognizes hinner hle) hle (Nat.le_of_lt_succ hlt)).mono
    (fun _ hused => hused.mono fun _ ⟨_, _, hleft, h⟩ => ⟨_, .sum hleft h⟩) (Nat.le_refl _)

theorem comparison_recognizes : Recognizes finish finish' (bound + 1) (bound' + 1)
    (comparison recur bound) (comparison recur' bound') (Derives .comparison) where
  reads hlt := comparison_reads hinner.reads (Nat.le_of_lt_succ hlt)
  reads' hlt := comparison_reads hinner.reads' (Nat.le_of_lt_succ hlt)
  breaks {ts} hlt := by
    rw [comparison, comparison]
    refine .current_ite (by decide) (fun word mid hts hword => ?_) fun _ _ => ?_
    · rw [hts, List.length_cons] at hlt
      refine ((hinner .comparison).breaks (by omega)).map.mono (fun used hused => ?_)
        (Nat.le_refl _)
      exact hused.prepend [word] fun _ h => ⟨_, .not hword h⟩
    refine ((arithmetic_recognizes hinner hle).bind (S := ComparisonEnd) (phrasal_derives _) hlt
      (Nat.le_refl _) ?_ fun left mid _ hmid => .current fun t ht => ?_).mono
      (fun used hused => hused.mono ?_) (Nat.le_refl _)
    · exact resumes_nil fun left _ hrest => ⟨left, .inl ⟨not_infix_of_mem hrest _, rfl, rfl⟩⟩
    · cases hoperator : comparisonOperator? t.kind with
      | none => exact .pure _
      | some o =>
        have ho := comparisonOperator?_eq_some.1 hoperator
        cases mid with
        | nil =>
          obtain rfl := ht
          cases ho
        | cons sign mid =>
          obtain rfl : t = sign := ht
          rw [List.length_cons] at hmid
          refine .advance (((arithmetic_recognizes hinner hle).breaks (by omega)).map.mono
            (fun used hused => ?_) (by omega))
          have hcomparison : Viable (ComparisonEnd left) (t :: used) :=
            hused.prepend [t] fun _ h => ⟨_, .inr ⟨t, _, o, _, rfl, ho, h, rfl⟩⟩
          exact hcomparison.continues
    · rintro ts _ rest - ⟨left, mid, hleft, ⟨hnone, rfl, rfl⟩ |
        ⟨sign, mid', o, right, rfl, ho, h, rfl⟩⟩
      · exact ⟨_, .uncompared hleft hnone⟩
      · exact ⟨_, .compare hleft ho h⟩

theorem expression_recognizes : Recognizes finish finish' (bound + 1) (bound' + 1)
    (expression recur bound) (expression recur' bound') (Derives .expression) where
  reads hlt := expression_reads hinner.reads (Nat.le_of_lt_succ hlt)
  reads' hlt := expression_reads hinner.reads' (Nat.le_of_lt_succ hlt)
  breaks {ts} hlt := by
    rw [expression, expression]
    refine .current_ite (by decide) (fun word mid hts hword => ?_) fun _ _ => ?_
    · rw [hts, List.length_cons] at hlt
      refine (assignment_breaks hinner hle hword (by omega) word.first).mono (fun used hused => ?_)
        (Nat.le_refl _)
      exact hused.prepend [word] fun _ h => ⟨_, h⟩
    · refine (operands_breaks (N := .expression) logicalOperator?_eq_some
        (comparison_recognizes hinner hle) hle (Nat.le_of_lt_succ hlt)).mono
        (fun _ hused => hused.mono fun _ h => ?_) (Nat.le_refl _)
      obtain ⟨_, _, hleft, h⟩ := h
      exact ⟨_, .logical hleft h⟩

end Levels

end Phrase

/-- Phrases of every level fail at the first token that cannot belong to them. -/
theorem phrase_recognizes (finish finish' : Position) {bound bound' : Nat} (hle : bound ≤ bound') :
    Phrase.RecognizesInner finish finish' (phrase bound) (phrase bound') bound bound' := by
  induction bound generalizing bound' with
  | zero =>
    exact fun level => ⟨fun hlt => absurd hlt (Nat.not_lt_zero _),
      fun hlt => phrase_reads finish' bound' level _ hlt, fun hlt => absurd hlt (Nat.not_lt_zero _)⟩
  | succ bound ih =>
    cases bound' with
    | zero => exact absurd hle (Nat.not_succ_le_zero _)
    | succ bound' =>
      have hle' := Nat.le_of_succ_le_succ hle
      intro level
      cases level with
      | expression => exact Phrase.expression_recognizes (ih hle') hle'
      | comparison => exact Phrase.comparison_recognizes (ih hle') hle'
      | factor => exact Phrase.factor_recognizes (ih hle') hle'

end SnapshotScript
