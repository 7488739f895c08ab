import Mathlib.Data.Fintype.EquivFin
import SnapshotScript.Proofs.Grammar.Breaking
import SnapshotScript.Proofs.Grammar.Pieces

/-!
# Failures in parts of phrases

The parsers of members, of operators with operands between them, and of lists fail at the first
token that cannot belong to what they read.
-/

namespace SnapshotScript

open SnapshotScript.Grammar SnapshotScript.Parser

namespace Phrase

variable {finish finish' : Position} {n bound bound' rounds rounds' : Nat} {ts : List Token}

/-! ### Members and operators -/

/-- A point can be completed to a member. -/
theorem continues_dot {dot : Token} (hdot : dot.kind = .dot) : Continues Members [dot] := by
  refine Viable.continues ⟨[sample .identifier], by decide, fun rest hrest => ?_⟩
  exact ⟨_, .more hdot rfl (.done (next_ne_of_mem hrest (by decide)))⟩

/-- What continues members does so behind another member. -/
theorem continues_member {dot field : Token} {used : List Token} (hdot : dot.kind = .dot)
    (hfield : field.kind = .identifier) (h : Continues Members used) :
    Continues Members (dot :: field :: used) :=
  (h.viable.prepend [dot, field] fun _ h => ⟨_, .more hdot hfield h⟩ : Viable Members _).continues

theorem assignmentPath_breaks (hrounds : ts.length < rounds) (hle : rounds ≤ rounds')
    (hn : n ≤ rounds') (read : List Token) :
    Breaks finish finish' n (assignmentPath rounds read) (assignmentPath rounds' read) ts
      (Continues Members) := by
  induction rounds generalizing ts read rounds' n with
  | zero => exact absurd hrounds (Nat.not_lt_zero _)
  | succ rounds ih =>
    cases rounds' with
    | zero => exact absurd hle (Nat.not_succ_le_zero _)
    | succ rounds' =>
      rw [assignmentPath, assignmentPath]
      refine .accept (by decide) (fun dot mid hts hdot => ?_) fun _ => .pure _
      refine .expect (by decide) rfl (continues_dot hdot) fun field mid' hmid hfield => ?_
      rw [hts, hmid, List.length_cons, List.length_cons] at hrounds
      refine (ih (n := n - 1 - 1) ?_ ?_ ?_ (field :: read)).mono
        (fun used hused => continues_member hdot hfield hused) (Nat.le_refl _)
      all_goals omega

theorem members_breaks (hrounds : ts.length < rounds) (hle : rounds ≤ rounds') (hn : n ≤ rounds')
    (target : Expr) :
    Breaks finish finish' n (members rounds target) (members rounds' target) ts
      (Continues Members) := by
  induction rounds generalizing ts target rounds' n with
  | zero => exact absurd hrounds (Nat.not_lt_zero _)
  | succ rounds ih =>
    cases rounds' with
    | zero => exact absurd hle (Nat.not_succ_le_zero _)
    | succ rounds' =>
      rw [members, members]
      refine .accept (by decide) (fun dot mid hts hdot => ?_) fun _ => .pure _
      refine .expect (by decide) rfl (continues_dot hdot) fun field mid' hmid hfield => ?_
      rw [hts, hmid, List.length_cons, List.length_cons] at hrounds
      refine (ih (n := n - 1 - 1) ?_ ?_ ?_ (.member target field.text field.first)).mono
        (fun used hused => continues_member hdot hfield hused) (Nat.le_refl _)
      all_goals omega

section Operators

variable {N : Nonterminal} {operator? : Token.Kind → Option BinaryOperator}
  {operand operand' : Parser Expr} (hoperator : ∀ {k o}, operator? k = some o ↔ Infix N k o)
  (hoperand : Recognizes finish finish' (bound + 1) (bound' + 1) operand operand'
    (Derives N.tighter))

include hoperator hoperand

theorem leftChain_breaks (hbound : ts.length ≤ bound) (hrounds : ts.length < rounds)
    (hle : rounds ≤ rounds') (hn : n ≤ rounds') (hn' : n ≤ bound' + 1) (left : Expr) :
    Breaks finish finish' n (leftChain operator? operand rounds left)
      (leftChain operator? operand' rounds' left) ts (Continues (Chain N left)) := by
  induction rounds generalizing ts left rounds' n with
  | zero => exact absurd hrounds (Nat.not_lt_zero _)
  | succ rounds ih =>
    cases rounds' with
    | zero => exact absurd hle (Nat.not_succ_le_zero _)
    | succ rounds' =>
      rw [leftChain, leftChain]
      refine .current fun t ht => ?_
      cases hnext : operator? t.kind with
      | none => exact .pure _
      | some o =>
        have ho := hoperator.1 hnext
        cases ts with
        | nil =>
          obtain rfl := ht
          cases ho
        | cons sign ts =>
          obtain rfl : t = sign := ht
          rw [List.length_cons] at hbound hrounds
          refine .advance ((hoperand.bind (phrasal_derives _) (by omega) (by omega)
            (resumes_nil fun right _ hrest => ⟨_, .done (not_infix_of_mem hrest N)⟩)
            fun right mid _ hlt => ih ?_ ?_ ?_ ?_ ?_ (.binary o left right t.first)).mono
            (fun used hused => ?_) (Nat.le_refl _))
          case refine_6 =>
            have hmore : Viable (Chain N left) (t :: used) :=
              hused.prepend [t] fun _ h => by
                obtain ⟨right, mid, hright, hchain⟩ := h
                exact ⟨_, .more ho hright hchain⟩
            exact hmore.continues
          all_goals omega

theorem operands_breaks (hle : bound ≤ bound') (hbound : ts.length ≤ bound) :
    Breaks finish finish' (bound' + 1) (do leftChain operator? operand bound (← operand))
      (do leftChain operator? operand' bound' (← operand')) ts
      (Viable (Sequence (Derives N.tighter) (Chain N))) := by
  refine hoperand.bind (phrasal_derives _) (by omega) (Nat.le_refl _)
    (resumes_nil fun left _ hrest => ⟨_, .done (not_infix_of_mem hrest N)⟩)
    fun left mid _ hlt => leftChain_breaks hoperator hoperand ?_ ?_ hle ?_ ?_ left
  all_goals omega

end Operators

/-! ### Lists -/

section Lists

variable {α : Type} {item item' : List α → Parser α} {R R' : List Token → α → List Token → Prop}
  {S : α → α → Prop}

/-- The items of a row behind those in `read`, which are in reverse. -/
def RowBehind (R : List Token → α → List Token → Prop) (S : α → α → Prop) (read : List α)
    (ts : List Token) (new : List α) (rest : List Token) : Prop :=
  Row R ts new rest ∧ (read.reverse ++ new).Pairwise S

/-- What stands behind the last item in `read`. -/
def RowEnd (R : List Token → α → List Token → Prop) (S : α → α → Prop) (read : List α)
    (ts : List Token) (new : List α) (rest : List Token) : Prop :=
  After .comma (RowBehind R S read) ts new rest ∨
    new = [] ∧ After .rightParen (fun ts (_ : Unit) rest => rest = ts) ts () rest

/-- A row of items breaks if its items are recognized. -/
theorem row_breaks
    (hitem : ∀ read, Recognizes finish finish' bound bound' (item read) (item' read)
      fun ts a rest => R' ts a rest ∧ ∀ b ∈ read, S b a)
    (hR' : Phrasal R')
    (hagree : ∀ {ts a close rest}, close.kind = .comma ∨ close.kind = .rightParen →
      (R' ts a (close :: rest) ↔ R ts a (close :: rest)))
    (hbound : ts.length < bound) (hrounds : ts.length < rounds) (hle : rounds ≤ rounds')
    (hn : n ≤ rounds') (hn' : n ≤ bound') {read : List α} (hread : read.reverse.Pairwise S)
    {expected : Expectation} (hpassed : expected.passed = 0) :
    Breaks finish finish' n
      (do
        let items ← commaSeparated item rounds read
        let _ ← Parser.expect .rightParen expected
        return items)
      (do
        let items ← commaSeparated item' rounds' read
        let _ ← Parser.expect .rightParen expected
        return items) ts (Viable (RowBehind R S read)) := by
  induction rounds generalizing ts read rounds' n with
  | zero => exact absurd hrounds (Nat.not_lt_zero _)
  | succ rounds ih =>
    cases rounds' with
    | zero => exact absurd hle (Nat.not_succ_le_zero _)
    | succ rounds' =>
      have hread' : ∀ a, (∀ b ∈ read, S b a) → (a :: read).reverse.Pairwise S := by
        intro a hdistinct
        rw [List.reverse_cons, List.pairwise_append]
        exact ⟨hread, List.pairwise_singleton S a, by simpa using hdistinct⟩
      have hclose (a : α) {close : Token} (hkind : close.kind = .rightParen) (rest : List Token) :
          RowEnd R S (a :: read) (close :: rest) [] rest :=
        .inr ⟨rfl, close, rest, rfl, hkind, rfl⟩
      have hmem : Token.Kind.rightParen ∈ closers := by decide
      rw [commaSeparated, commaSeparated, bind_assoc, bind_assoc]
      refine ((hitem read).bind (S := fun a => RowEnd R S (a :: read)) (hR'.and _) hbound hn'
        ⟨[sample .rightParen], by decide, fun rest _ => ⟨hmem, fun a => ⟨[], hclose a rfl rest⟩⟩⟩
        fun a mid ha hlt => ?_).mono (fun used hused => hused.mono ?_) (Nat.le_refl _)
      · rw [bind_assoc, bind_assoc]
        refine .accept (by decide) (fun comma mid' hmid hcomma => ?_) fun hcomma => ?_
        · rw [hmid, List.length_cons] at hlt
          refine (ih (n := n - 1 - 1) ?_ ?_ ?_ ?_ ?_ (hread' a ha.2)).mono (fun used hused => ?_)
            (Nat.le_refl _)
          case refine_6 =>
            have hmore : Viable (RowEnd R S (a :: read)) (comma :: used) :=
              hused.prepend [comma] fun _ hrow => ⟨_, .inl ⟨comma, _, rfl, hcomma, hrow⟩⟩
            exact hmore.continues
          all_goals omega
        · refine .expect (by decide) hpassed ?_ fun close mid' _ _ => .pure _
          exact ⟨[sample .rightParen], by decide,
            fun rest _ => ⟨fun _ => hmem, [], hclose a rfl rest⟩⟩
      · rintro ts new rest - ⟨a, mid, ⟨ha, hdistinct⟩, hend⟩
        rcases hend with ⟨comma, mid', rfl, hcomma, hrow, hpairwise⟩ |
          ⟨rfl, close, mid', rfl, hkind, rfl⟩
        · exact ⟨a :: new, .more ((hagree (.inl hcomma)).1 ha) hcomma hrow,
            by simpa using hpairwise⟩
        · exact ⟨[a], .last ((hagree (.inr hkind)).1 ha) hkind,
            by simpa using hread' a hdistinct⟩

/-- A list is recognized up to its closing parenthesis, if its items are. -/
theorem parenthesized_recognizes
    (hitem : ∀ read, Recognizes finish finish' bound bound' (item read) (item' read)
      fun ts a rest => R' ts a rest ∧ ∀ b ∈ read, S b a)
    (hR' : Phrasal R')
    (hagree : ∀ {ts a close rest}, close.kind = .comma ∨ close.kind = .rightParen →
      (R' ts a (close :: rest) ↔ R ts a (close :: rest)))
    (hfirst : ∀ {ts a rest}, R ts a rest → next ts ≠ .rightParen) (hle : bound ≤ bound')
    {expected : Expectation} (hpassed : expected.passed = 0) :
    Recognizes finish finish' bound bound' (parenthesized bound item expected)
      (parenthesized bound' item' expected)
      fun ts as rest => Parenthesized R ts as rest ∧ as.Pairwise S where
  reads hlt := parenthesized_reads (fun read _ => (hitem read).reads) hR'.behind hagree hfirst hlt
    expected
  reads' hlt := parenthesized_reads (fun read _ => (hitem read).reads') hR'.behind hagree hfirst
    hlt expected
  breaks {ts} hlt := by
    rw [parenthesized, parenthesized, list, list, bind_assoc, bind_assoc]
    refine .isAt ?_
    by_cases hclose : next ts = .rightParen
    · rw [hclose, beq_self_eq_true, if_pos rfl, if_pos rfl, pure_bind]
      refine .expect (by decide) hpassed ?_ fun close mid _ _ => .pure _
      exact ⟨[sample .rightParen], by decide, fun rest _ => ⟨[], .none rfl, .nil⟩⟩
    · rw [beq_false_of_ne hclose, if_neg Bool.false_ne_true, if_neg Bool.false_ne_true]
      refine (row_breaks hitem hR' hagree hlt hlt hle (Nat.le_refl _) (Nat.le_refl _) .nil
        hpassed).mono (fun used hused => hused.mono ?_) (Nat.le_refl _)
      rintro ts as rest - ⟨hrow, hpairwise⟩
      exact ⟨as, .some hrow, hpairwise⟩

end Lists

/-! ### Definitions -/

/-- There is always a name that has not been read. -/
theorem exists_new (read : List String) : ∃ name, name ∉ read := by
  obtain ⟨name, hname⟩ := Infinite.exists_notMem_finset read.toFinset
  exact ⟨name, fun hmem => hname (List.mem_toFinset.2 hmem)⟩

/-- A token with the given name. -/
def identifier (name : String) : Token :=
  { sample .identifier with text := name }

/-- A name is not the end of the input. -/
theorem unended_identifier (name : String) : Unended [identifier name] :=
  List.forall_mem_singleton.2 nofun

theorem phrasal_parameter : Phrasal Parameter :=
  ⟨Parameter.behind, fun _ _ _ _ h _ => h.exchange _⟩

theorem parameter_recognizes (read : List String) :
    Recognizes finish finish' bound bound' (parameter read) (parameter read)
      fun ts name rest => Parameter ts name rest ∧ ∀ other ∈ read, other ≠ name where
  reads _ := parameter_reads read
  reads' _ := parameter_reads read
  breaks _ := by
    obtain ⟨name, hname⟩ := exists_new read
    refine .expect_unless (by decide) rfl rfl ?_ fun t mid _ _ _ => .pure _
    refine ⟨[identifier name], unended_identifier name, fun rest _ =>
      ⟨name, .name (t := identifier name) rfl, ?_⟩⟩
    rintro other hother rfl
    exact hname hother

theorem parameters_recognizes (hle : bound ≤ bound') :
    Recognizes finish finish' bound bound' (parenthesized bound parameter .endOfParameters)
      (parenthesized bound' parameter .endOfParameters)
      fun ts names rest => Parenthesized Parameter ts names rest ∧ names.Nodup :=
  parenthesized_recognizes parameter_recognizes phrasal_parameter (fun _ => Iff.rfl)
    (by rintro _ _ _ ⟨hkind⟩ hclose; simp [next, hkind] at hclose) hle rfl

theorem typeTag_breaks {G : List Token → Prop} (hG : G []) :
    Breaks finish finish' n typeTag typeTag ts G := by
  rw [typeTag]
  refine .accept (by decide) (fun _ _ _ _ => .pure _) fun _ => ?_
  refine .accept (by decide) (fun _ _ _ _ => .pure _) fun _ => ?_
  exact .expect (by decide) rfl hG fun _ _ _ _ => .pure _

theorem declaredTag_breaks {G : List Token → Prop}
    (hG : ∀ colon : Token, colon.kind = .colon → G [colon]) :
    Breaks finish finish' n declaredTag declaredTag ts G := by
  rw [declaredTag]
  exact .accept (by decide) (fun colon mid _ hkind => typeTag_breaks (hG colon hkind)) fun _ =>
    .pure _

/-- The declaration of a field, to which a colon behind the name belongs. -/
def GreedyField (ts : List Token) (f : Field) (rest : List Token) : Prop :=
  FieldDeclaration ts f rest ∧ (rest = ts.tail → next rest ≠ .colon)

theorem phrasal_field : Phrasal GreedyField where
  behind h := h.1.behind
  exchange _ _ _ _ h hrest := by
    obtain ⟨hf, hcolon⟩ := h
    cases hf with
    | untyped hname =>
      exact ⟨_, .cons .here, .untyped hname, fun _ => hrest.next_ne (by decide) (hcolon rfl)⟩
    | typed hname hsign htag =>
      obtain ⟨ts', hts, htag'⟩ := htag.exchange _
      refine ⟨_, hts.cons.cons, .typed hname hsign htag', fun heq => ?_⟩
      have hlt := htag'.behind.length_lt
      rw [heq, List.tail_cons, List.length_cons] at hlt
      omega

theorem field_recognizes (read : List Field) :
    Recognizes finish finish' bound bound' (field read) (field read)
      fun ts f rest => GreedyField ts f rest ∧ ∀ other ∈ read, other.name ≠ f.name where
  reads _ := field_reads read
  reads' _ := field_reads read
  breaks _ := by
    refine .expect_unless (by decide) rfl rfl ?_ fun t mid _ hkind hnew =>
      (declaredTag_breaks fun colon hcolon => ?_).map
    · obtain ⟨name, hname⟩ := exists_new (read.map Field.name)
      refine ⟨[identifier name], unended_identifier name, fun rest hrest =>
        ⟨⟨name, .any⟩, ⟨?_, fun _ => ?_⟩, ?_⟩⟩
      · exact .untyped (t := identifier name) rfl
      · exact next_ne_of_mem hrest (by decide)
      · rintro other hother rfl
        exact hname (List.mem_map_of_mem hother)
    · refine ⟨[sample .identifier], by decide, fun rest _ =>
        ⟨⟨t.text, .ofName (sample .identifier).text⟩, ⟨?_, fun heq => ?_⟩, ?_⟩⟩
      · exact .typed hkind hcolon (.name rfl)
      · have hlength := congrArg List.length heq
        simp only [List.cons_append, List.nil_append, List.tail_cons, List.length_cons] at hlength
        omega
      · rintro other hother heq
        exact hnew (List.mem_map.2 ⟨other, hother, heq⟩)

theorem fields_recognizes (hle : bound ≤ bound') :
    Recognizes finish finish' bound bound' (parenthesized bound field .endOfFields)
      (parenthesized bound' field .endOfFields)
      fun ts fields rest => Parenthesized FieldDeclaration ts fields rest ∧
        (fields.map Field.name).Nodup := by
  refine (parenthesized_recognizes (R := FieldDeclaration)
    (S := fun f other => f.name ≠ other.name) field_recognizes phrasal_field
    (fun hclose => and_iff_left fun _ => ?_) ?_ hle rfl).congr
    (and_congr_right fun _ => List.pairwise_map.symm)
  · rcases hclose with hclose | hclose <;> simp [next, hclose]
  · rintro _ _ _ (hkind | hkind) hclose <;> simp [next, hkind] at hclose

end Phrase

end SnapshotScript
