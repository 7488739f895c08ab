import SnapshotScript.Proofs.Grammar.Reading

/-!
# Parsers of parts of phrases

The tables of the parser are those of the grammar, and members, operators with operands between
them, and lists are read as they are derived.
-/

namespace SnapshotScript

open SnapshotScript.Grammar SnapshotScript.Parser

namespace Phrase

/-! ### Tables -/

section Tables

variable {k : Token.Kind}

/-- The operators between the operands of a logical expression are those of the grammar. -/
theorem logicalOperator?_eq_some {o : BinaryOperator} :
    logicalOperator? k = some o ↔ Infix .expression k o := by
  constructor
  · intro h
    unfold logicalOperator? at h
    split at h <;> cases h <;> constructor
  · rintro (_ | _) <;> rfl

/-- The operators of comparison are those of the grammar. -/
theorem comparisonOperator?_eq_some {o : BinaryOperator} :
    comparisonOperator? k = some o ↔ Infix .comparison k o := by
  constructor
  · intro h
    unfold comparisonOperator? at h
    split at h <;> cases h <;> constructor
  · rintro (_ | _) <;> rfl

/-- The operators between the terms of a sum are those of the grammar. -/
theorem sumOperator?_eq_some {o : BinaryOperator} :
    sumOperator? k = some o ↔ Infix .arithmetic k o := by
  constructor
  · intro h
    unfold sumOperator? at h
    split at h <;> cases h <;> constructor
  · rintro (_ | _) <;> rfl

/-- The operators between the factors of a product are those of the grammar. -/
theorem productOperator?_eq_some {o : BinaryOperator} :
    productOperator? k = some o ↔ Infix .term k o := by
  constructor
  · intro h
    unfold productOperator? at h
    split at h <;> cases h <;> constructor
  · rintro (_ | _) <;> rfl

/-- The operators in front of a factor are those of the grammar. -/
theorem signOperator?_eq_some {o : UnaryOperator} : signOperator? k = some o ↔ Sign k o := by
  constructor
  · intro h
    unfold signOperator? at h
    split at h <;> cases h <;> constructor
  · rintro (_ | _) <;> rfl

/-- The tokens that can begin an expression are those of the grammar. -/
theorem startsExpression_iff : startsExpression k ↔ k ∈ Nonterminal.expression.beginnings := by
  cases k with
  | keyword word => cases word <;> decide
  | _ => decide

end Tables

variable {finish : Position} {ts : List Token} {rounds : Nat}

/-! ### Members and operators -/

/-- The names of an assignment are read in reverse. -/
theorem assignmentPath_reads (hrounds : ts.length < rounds) (read : List Token) :
    Reads finish (assignmentPath rounds read) ts fun path rest =>
      ∃ fields, Members ts fields rest ∧ path = fields.reverse ++ read := by
  induction rounds generalizing ts read with
  | zero => exact absurd hrounds (Nat.not_lt_zero _)
  | succ rounds ih =>
    rw [assignmentPath]
    refine .ite_accept (by decide) (fun dot ts' hts hkind => ?_) fun hdot => ?_
    · subst hts
      refine ((Reads.expect (by decide) _).bind fun field rest h => ih ?_ (field :: read)).congr
        fun path rest => ?_
      · rw [h.1, List.length_cons, List.length_cons] at hrounds
        omega
      · simp only [Members.iff_of_dot hkind]
        constructor
        · rintro ⟨field, mid, hfield, fields, hfields, rfl⟩
          exact ⟨field :: fields, ⟨field, mid, hfield, fields, hfields, rfl⟩, by simp⟩
        · rintro ⟨-, ⟨field, mid, hfield, fields, hfields, rfl⟩, rfl⟩
          exact ⟨field, mid, hfield, fields, hfields, by simp⟩
    · refine (Reads.pure read).congr fun path rest => ?_
      simp only [Members.iff_of_ne hdot, and_assoc, exists_eq_left, List.reverse_nil,
        List.nil_append]
      exact and_comm

/-- Members are read as they are named. -/
theorem members_reads (hrounds : ts.length < rounds) (target : Expr) :
    Reads finish (members rounds target) ts fun e rest =>
      ∃ fields, Members ts fields rest ∧ e = select target fields := by
  induction rounds generalizing ts target with
  | zero => exact absurd hrounds (Nat.not_lt_zero _)
  | succ rounds ih =>
    rw [members]
    refine .ite_accept (by decide) (fun dot ts' hts hkind => ?_) fun hdot => ?_
    · subst hts
      refine ((Reads.expect (by decide) _).bind fun field rest h =>
        ih ?_ (.member target field.text field.first)).congr fun e rest => ?_
      · rw [h.1, List.length_cons, List.length_cons] at hrounds
        omega
      · simp only [Members.iff_of_dot hkind]
        constructor
        · rintro ⟨field, mid, hfield, fields, hfields, rfl⟩
          exact ⟨field :: fields, ⟨field, mid, hfield, fields, hfields, rfl⟩, rfl⟩
        · rintro ⟨-, ⟨field, mid, hfield, fields, hfields, rfl⟩, rfl⟩
          exact ⟨field, mid, hfield, fields, hfields, rfl⟩
    · refine (Reads.pure target).congr fun e rest => ?_
      simp only [Members.iff_of_ne hdot, and_assoc, exists_eq_left, select, List.foldl_nil]
      exact and_comm

section Operators

variable {N : Nonterminal} {operator? : Token.Kind → Option BinaryOperator}
  {operand : Parser Expr} {bound : Nat}
  (hoperator : ∀ {k o}, operator? k = some o ↔ Infix N k o)

include hoperator

/-- A token for which the table has no entry is not an operator. -/
theorem not_infix_of_eq_none {k : Token.Kind} (h : operator? k = none) (o : BinaryOperator) :
    ¬ Infix N k o := by
  intro ho
  rw [hoperator.2 ho] at h
  cases h

/-- Operators with operands between them are read from left to right. -/
theorem leftChain_reads
    (hoperand : ∀ ts, ts.length ≤ bound → Reads finish operand ts (Derives N.tighter ts))
    (hbound : ts.length ≤ bound) (hrounds : ts.length < rounds) (left : Expr) :
    Reads finish (leftChain operator? operand rounds left) ts (Chain N left ts) := by
  induction rounds generalizing ts left with
  | zero => exact absurd hrounds (Nat.not_lt_zero _)
  | succ rounds ih =>
    rw [leftChain, reads_current, kind_headD]
    cases hnext : operator? (next ts) with
    | none =>
      have hnone := not_infix_of_eq_none hoperator hnext
      refine (Reads.pure left).congr fun e rest => ?_
      constructor
      · rintro ⟨rfl, rfl⟩
        exact .done hnone
      · intro h
        cases h with
        | done => exact ⟨rfl, rfl⟩
        | more ho _ _ => exact absurd ho (hnone _)
    | some o =>
      have ho := hoperator.1 hnext
      cases ts with
      | nil => cases ho
      | cons sign ts =>
        simp only [List.length_cons] at hbound hrounds
        refine reads_advance.2 (((hoperand ts (by omega)).bind fun right rest h =>
          ih ?_ ?_ (.binary o left right sign.first)).congr fun e rest => ?_)
        · have := h.behind.length_lt
          omega
        · have := h.behind.length_lt
          omega
        · constructor
          · rintro ⟨right, mid, hright, hchain⟩
            exact .more ho hright hchain
          · intro h
            cases h with
            | done hnone => exact absurd ho (hnone o)
            | more ho' hright hchain =>
              rw [← hoperator] at ho'
              cases hnext.symm.trans ho'
              exact ⟨_, _, hright, hchain⟩

/-- Operands with operators between them are read from left to right. -/
theorem operands_reads
    (hoperand : ∀ ts, ts.length ≤ bound → Reads finish operand ts (Derives N.tighter ts))
    (hbound : ts.length ≤ bound) :
    Reads finish (do leftChain operator? operand bound (← operand)) ts fun e rest =>
      ∃ left mid, Derives N.tighter ts left mid ∧ Chain N left mid e rest := by
  refine (hoperand ts hbound).bind fun left mid hleft =>
    leftChain_reads hoperator hoperand ?_ ?_ left
  · have := hleft.behind.length_lt
    omega
  · have := hleft.behind.length_lt
    omega

end Operators

/-! ### Lists -/

section Lists

variable {α : Type} {item : List α → Parser α} {R R' : List Token → α → List Token → Prop}
  {S : α → α → Prop} {bound : Nat}

/-- Behind an item of a row a comma is read, with the other items behind it, or the closing
parenthesis. -/
theorem rowEnd_reads {read : List α} {a : α} {expected : Expectation}
    (hread : (a :: read).reverse.Pairwise S)
    (hmore : ∀ ts', ts'.length < ts.length → Reads finish (do
      let items ← commaSeparated item rounds (a :: read)
      let _ ← Parser.expect .rightParen expected
      return items) ts' fun as rest =>
        ∃ new, Row R ts' new rest ∧ as = (a :: read).reverse ++ new ∧ as.Pairwise S) :
    Reads finish (do
      let items ← (do
        if ← accept .comma then commaSeparated item rounds (a :: read)
        else return (a :: read).reverse)
      let _ ← Parser.expect .rightParen expected
      return items) ts fun as rest => ∃ close ts' new, ts = close :: ts' ∧
        (close.kind = .comma ∧ Row R ts' new rest ∨
          close.kind = .rightParen ∧ new = [] ∧ ts' = rest) ∧
        as = read.reverse ++ a :: new ∧ as.Pairwise S := by
  rw [bind_assoc]
  by_cases hcomma : next ts = .comma
  · obtain ⟨comma, ts', rfl, hkind⟩ := eq_cons_of_next (by decide) hcomma
    rw [reads_accept_of_eq hcomma, if_pos rfl, List.tail_cons]
    refine (hmore ts' (Nat.lt_succ_self _)).congr fun as rest => ?_
    constructor
    · rintro ⟨new, hrow, rfl, hpairwise⟩
      exact ⟨comma, ts', new, rfl, .inl ⟨hkind, hrow⟩, by simp, hpairwise⟩
    · rintro ⟨close, mid, new, heq, hnew, rfl, hpairwise⟩
      cases heq
      rcases hnew with ⟨-, hrow⟩ | ⟨hclose, -⟩
      · exact ⟨new, hrow, by simp, hpairwise⟩
      · rw [hkind] at hclose
        cases hclose
  · rw [reads_accept_of_ne hcomma, if_neg Bool.false_ne_true, pure_bind]
    refine ((Reads.expect (by decide) expected).bind fun _ _ _ => Reads.pure _).congr
      fun as rest => ?_
    constructor
    · rintro ⟨close, ts', ⟨rfl, hclose⟩, rfl, rfl⟩
      exact ⟨close, rest, [], rfl, .inr ⟨hclose, rfl, rfl⟩, by simp, hread⟩
    · rintro ⟨close, ts', new, rfl, ⟨hclose, -⟩ | ⟨hclose, rfl, rfl⟩, rfl, -⟩
      · exact absurd hclose hcomma
      · exact ⟨close, ts', ⟨rfl, hclose⟩, by simp, rfl⟩

/-- A row of items is read, in which each item is in the relation `S` to those behind it.  Items are
read as `R'` tells, which agrees with `R` before commas and closing parentheses. -/
theorem row_reads
    (hitem : ∀ read ts, ts.length < bound → Reads finish (item read) ts fun a rest =>
      R' ts a rest ∧ ∀ b ∈ read, S b a)
    (hbehind : ∀ {ts a rest}, R' ts a rest → Behind rest ts)
    (hagree : ∀ {ts a close rest}, close.kind = .comma ∨ close.kind = .rightParen →
      (R' ts a (close :: rest) ↔ R ts a (close :: rest)))
    (hbound : ts.length < bound) (hrounds : ts.length < rounds) {read : List α}
    (hread : read.reverse.Pairwise S) (expected : Expectation) :
    Reads finish (do
      let items ← commaSeparated item rounds read
      let _ ← Parser.expect .rightParen expected
      return items) ts fun as rest =>
        ∃ new, Row R ts new rest ∧ as = read.reverse ++ new ∧ as.Pairwise S := by
  induction rounds generalizing ts read with
  | zero => exact absurd hrounds (Nat.not_lt_zero _)
  | succ rounds ih =>
    rw [commaSeparated, bind_assoc]
    have hread' : ∀ a, (∀ b ∈ read, S b a) → (a :: read).reverse.Pairwise S := by
      intro a hdistinct
      rw [List.reverse_cons, List.pairwise_append]
      exact ⟨hread, List.pairwise_singleton S a, by simpa using hdistinct⟩
    refine ((hitem read ts hbound).bind fun a mid ⟨ha, hdistinct⟩ =>
      rowEnd_reads (R := R) (hread' a hdistinct) fun ts' hlt => ?_).congr fun as rest => ?_
    · have hmid := (hbehind ha).length_lt
      exact ih (by omega) (by omega) (hread' a hdistinct)
    constructor
    · rintro ⟨a, mid, ⟨ha, -⟩, close, ts', new, rfl, hnew, rfl, hpairwise⟩
      have hclose : close.kind = .comma ∨ close.kind = .rightParen :=
        hnew.imp And.left And.left
      exact ⟨a :: new, row_iff.2 ⟨a, close, ts', new, (hagree hclose).1 ha, hnew, rfl⟩, rfl,
        hpairwise⟩
    · rintro ⟨new, hrow, rfl, hpairwise⟩
      obtain ⟨a, close, ts', new, ha, hnew, rfl⟩ := row_iff.1 hrow
      have hclose : close.kind = .comma ∨ close.kind = .rightParen :=
        hnew.imp And.left And.left
      refine ⟨a, _, ⟨(hagree hclose).2 ha, fun b hb => ?_⟩, close, ts', new, rfl, hnew, rfl,
        hpairwise⟩
      exact (List.pairwise_append.1 hpairwise).2.2 b (List.mem_reverse.2 hb) a
        List.mem_cons_self

/-- A list up to a closing parenthesis is read like a row, but it may be empty. -/
theorem parenthesized_reads
    (hitem : ∀ read ts, ts.length < bound → Reads finish (item read) ts fun a rest =>
      R' ts a rest ∧ ∀ b ∈ read, S b a)
    (hbehind : ∀ {ts a rest}, R' ts a rest → Behind rest ts)
    (hagree : ∀ {ts a close rest}, close.kind = .comma ∨ close.kind = .rightParen →
      (R' ts a (close :: rest) ↔ R ts a (close :: rest)))
    (hfirst : ∀ {ts a rest}, R ts a rest → next ts ≠ .rightParen)
    (hbound : ts.length < bound) (expected : Expectation) :
    Reads finish (parenthesized bound item expected) ts fun as rest =>
      Parenthesized R ts as rest ∧ as.Pairwise S := by
  rw [parenthesized, list, bind_assoc, reads_isAt]
  by_cases hclose : next ts = .rightParen
  · rw [hclose, beq_self_eq_true, if_pos rfl, pure_bind]
    refine ((Reads.expect (by decide) expected).bind fun _ _ _ => Reads.pure _).congr
      fun as rest => ?_
    constructor
    · rintro ⟨close, ts', ⟨rfl, hkind⟩, rfl, rfl⟩
      exact ⟨.none hkind, .nil⟩
    · rintro ⟨has, -⟩
      cases has with
      | none hkind => exact ⟨_, _, ⟨rfl, hkind⟩, rfl, rfl⟩
      | some hrow =>
        obtain ⟨a, close, mid, new, ha, -⟩ := row_iff.1 hrow
        exact absurd hclose (hfirst ha)
  · rw [beq_false_of_ne hclose, if_neg Bool.false_ne_true]
    refine (row_reads hitem hbehind hagree hbound hbound .nil expected).congr fun as rest => ?_
    constructor
    · rintro ⟨new, hrow, rfl, hpairwise⟩
      exact ⟨.some hrow, hpairwise⟩
    · rintro ⟨has, hpairwise⟩
      cases has with
      | none hkind => exact absurd hkind hclose
      | some hrow => exact ⟨as, hrow, rfl, hpairwise⟩

end Lists

/-- The name of a definition is read if it is there. -/
theorem definedName_reads :
    Reads finish definedName ts fun name rest =>
      DefinedName ts name rest ∧ (name = none → next ts ≠ .identifier) := by
  rw [definedName, reads_current, kind_headD]
  by_cases hname : next ts = .identifier
  · obtain ⟨t, ts, rfl, hkind⟩ := eq_cons_of_next (by decide) hname
    rw [if_pos hname, reads_advance]
    refine (Reads.pure _).congr fun name rest => ?_
    constructor
    · rintro ⟨rfl, rfl⟩
      exact ⟨.present hkind, nofun⟩
    · rintro ⟨h, habsent⟩
      cases h with
      | absent => exact absurd hname (habsent rfl)
      | present => exact ⟨rfl, rfl⟩
  · rw [if_neg hname]
    refine (Reads.pure _).congr fun name rest => ?_
    constructor
    · rintro ⟨rfl, rfl⟩
      exact ⟨.absent, fun _ => hname⟩
    · rintro ⟨h, -⟩
      cases h with
      | absent => exact ⟨rfl, rfl⟩
      | present hkind => exact absurd hkind hname

/-- A parameter is read if its name is new. -/
theorem parameter_reads (read : List String) :
    Reads finish (parameter read) ts fun name rest =>
      Parameter ts name rest ∧ ∀ other ∈ read, other ≠ name := by
  refine ((Reads.expect (by decide) _).bind (S := fun t mid name rest =>
    (∀ other ∈ read, other ≠ t.text) ∧ name = t.text ∧ rest = mid)
    fun t mid _ => ?_).congr fun name rest => ?_
  · by_cases hmem : t.text ∈ read
    · rw [if_pos hmem]
      exact (Reads.failAt _ _).congr fun name rest =>
        ⟨False.elim, fun h => h.1 _ hmem rfl⟩
    · rw [if_neg hmem]
      refine (Reads.pure _).congr fun name rest => ?_
      have hnew : ∀ other ∈ read, other ≠ t.text := fun other hother heq => hmem (heq ▸ hother)
      exact (and_iff_right hnew).symm
  · constructor
    · rintro ⟨t, mid, ⟨rfl, hkind⟩, hnew, rfl, rfl⟩
      exact ⟨.name hkind, hnew⟩
    · rintro ⟨⟨hkind⟩, hnew⟩
      exact ⟨_, _, ⟨rfl, hkind⟩, hnew, rfl, rfl⟩

/-- A type is read as it is written. -/
theorem typeTag_reads : Reads finish typeTag ts (Tag ts) := by
  rw [typeTag]
  refine .ite_accept (by decide) (fun t ts' hts hkind => ?_) fun hfun => ?_
  · subst hts
    refine (Reads.pure _).congr fun tag rest => ⟨?_, fun h => ?_⟩
    · rintro ⟨rfl, rfl⟩
      exact .function hkind
    · cases h with
      | function => exact ⟨rfl, rfl⟩
      | null h | name h => simp [hkind] at h
  refine .ite_accept (by decide) (fun t ts' hts hkind => ?_) fun hnull => ?_
  · subst hts
    refine (Reads.pure _).congr fun tag rest => ⟨?_, fun h => ?_⟩
    · rintro ⟨rfl, rfl⟩
      exact .null hkind
    · cases h with
      | null => exact ⟨rfl, rfl⟩
      | function h | name h => simp [hkind] at h
  refine ((Reads.expect (by decide) _).bind fun _ _ _ => Reads.pure _).congr
    fun tag rest => ⟨?_, fun h => ?_⟩
  · rintro ⟨t, mid, ⟨rfl, hkind⟩, rfl, rfl⟩
    exact .name hkind
  · cases h with
    | function h => exact absurd h hfun
    | null h => exact absurd h hnull
    | name hkind => exact ⟨_, _, ⟨rfl, hkind⟩, rfl, rfl⟩

/-- The type of a field is read if a colon is next. -/
theorem declaredTag_reads :
    Reads finish declaredTag ts fun tag rest =>
      (∃ colon mid, ts = colon :: mid ∧ colon.kind = .colon ∧ Tag mid tag rest) ∨
        next ts ≠ .colon ∧ tag = .any ∧ rest = ts := by
  rw [declaredTag]
  refine .ite_accept (by decide) (fun colon ts' hts hkind => ?_) fun hcolon => ?_
  · subst hts
    refine typeTag_reads.congr fun tag rest => ⟨fun h => .inl ⟨_, _, rfl, hkind, h⟩, ?_⟩
    rintro (⟨_, _, ⟨⟩, -, h⟩ | ⟨hnext, -⟩)
    · exact h
    · exact absurd hkind hnext
  · refine (Reads.pure _).congr fun tag rest => ⟨fun h => .inr ⟨hcolon, h⟩, ?_⟩
    rintro (⟨colon, mid, rfl, hkind, -⟩ | ⟨-, h⟩)
    · exact absurd hkind hcolon
    · exact h

/-- The declaration of a field is read if its name is new.  A colon behind the name belongs to
it. -/
theorem field_reads (read : List Field) :
    Reads finish (field read) ts fun f rest =>
      (FieldDeclaration ts f rest ∧ (rest = ts.tail → next rest ≠ .colon)) ∧
        ∀ other ∈ read, other.name ≠ f.name := by
  refine ((Reads.expect (by decide) _).bind (S := fun t mid f rest =>
    (∀ other ∈ read, other.name ≠ t.text) ∧ ∃ tag,
      ((∃ colon ts', mid = colon :: ts' ∧ colon.kind = .colon ∧ Tag ts' tag rest) ∨
        next mid ≠ .colon ∧ tag = .any ∧ rest = mid) ∧ f = ⟨t.text, tag⟩)
    fun t mid _ => ?_).congr fun f rest => ?_
  · by_cases hmem : t.text ∈ read.map Field.name
    · rw [if_pos hmem]
      obtain ⟨other, hother, heq⟩ := List.mem_map.1 hmem
      exact (Reads.failAt _ _).congr fun f rest =>
        ⟨False.elim, fun h => h.1 other hother heq⟩
    · rw [if_neg hmem]
      have hnew : ∀ other ∈ read, other.name ≠ t.text := fun other hother heq =>
        hmem (List.mem_map.2 ⟨other, hother, heq⟩)
      refine (declaredTag_reads.bind fun _ _ _ => Reads.pure _).congr fun f rest => ?_
      constructor
      · rintro ⟨tag, mid', htag, rfl, rfl⟩
        exact ⟨hnew, tag, htag, rfl⟩
      · rintro ⟨-, tag, htag, rfl⟩
        exact ⟨tag, rest, htag, rfl, rfl⟩
  · constructor
    · rintro ⟨t, mid, ⟨rfl, hkind⟩, hnew, tag, htag, rfl⟩
      refine ⟨?_, hnew⟩
      rcases htag with ⟨colon, ts', rfl, hcolon, htag⟩ | ⟨hcolon, rfl, rfl⟩
      · refine ⟨.typed hkind hcolon htag, fun heq => ?_⟩
        have hlt := htag.behind.length_lt
        rw [heq, List.tail_cons, List.length_cons] at hlt
        omega
      · exact ⟨.untyped hkind, fun _ => hcolon⟩
    · rintro ⟨⟨hf, hcolon⟩, hnew⟩
      cases hf with
      | untyped hkind => exact ⟨_, _, ⟨rfl, hkind⟩, hnew, _, .inr ⟨hcolon rfl, rfl, rfl⟩, rfl⟩
      | typed hkind hsign htag =>
        exact ⟨_, _, ⟨rfl, hkind⟩, hnew, _, .inl ⟨_, _, rfl, hsign, htag⟩, rfl⟩

/-- Parameters are read if their names are distinct. -/
theorem parameters_reads {bound : Nat} (hbound : ts.length < bound) (expected : Expectation) :
    Reads finish (parenthesized bound parameter expected) ts fun names rest =>
      Parenthesized Parameter ts names rest ∧ names.Nodup :=
  parenthesized_reads (fun read _ _ => parameter_reads read) Parameter.behind (fun _ => Iff.rfl)
    (by rintro _ _ _ ⟨hkind⟩ hclose; simp [next, hkind] at hclose) hbound expected

/-- Declarations of fields are read if their names are distinct. -/
theorem fields_reads {bound : Nat} (hbound : ts.length < bound) (expected : Expectation) :
    Reads finish (parenthesized bound field expected) ts fun fields rest =>
      Parenthesized FieldDeclaration ts fields rest ∧ (fields.map Field.name).Nodup := by
  refine (parenthesized_reads (R := FieldDeclaration)
    (S := fun f other => f.name ≠ other.name) (fun read _ _ => field_reads read)
    (fun h => h.1.behind) (fun hclose => and_iff_left fun _ => ?_) ?_ hbound expected).congr
    fun fields rest => and_congr_right fun _ => List.pairwise_map.symm
  · rcases hclose with hclose | hclose <;> simp [next, hclose]
  · rintro _ _ _ (hkind | hkind) hclose <;> simp [next, hkind] at hclose

end Phrase

end SnapshotScript
