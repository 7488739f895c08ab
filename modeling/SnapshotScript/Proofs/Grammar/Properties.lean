import SnapshotScript.Proofs.Grammar.Productions

/-!
# Properties of derivations

A phrase is at least one token long, and its first token is one with which such a phrase can begin.
-/

namespace SnapshotScript

namespace Grammar

/-! ### What is left -/

/-- The tokens `rest` are what is left of `ts` behind at least one token. -/
def Behind (rest ts : List Token) : Prop :=
  ∃ t, t :: rest <:+ ts

namespace Behind

variable {rest mid ts : List Token} {t : Token}

/-- What is left is an end of the list. -/
theorem suffix (h : Behind rest ts) : rest <:+ ts := by
  obtain ⟨t, h⟩ := h
  exact (List.suffix_cons t rest).trans h

/-- What is left is shorter. -/
theorem length_lt (h : Behind rest ts) : rest.length < ts.length := by
  obtain ⟨t, h⟩ := h
  have hle := h.length_le
  rw [List.length_cons] at hle
  omega

/-- What is left of what is left may be passed to as well. -/
theorem trans (h : Behind rest mid) (h' : Behind mid ts) : Behind rest ts := by
  obtain ⟨t, h⟩ := h
  exact ⟨t, h.trans h'.suffix⟩

/-- A single token may be passed. -/
theorem head : Behind ts (t :: ts) :=
  ⟨t, List.suffix_rfl⟩

/-- What is left behind at least one token is an end of what stands behind the first. -/
theorem suffix_of_cons (h : Behind rest (t :: ts)) : rest <:+ ts := by
  obtain ⟨t', h⟩ := h
  rcases List.suffix_cons_iff.1 h with heq | hsuffix
  · cases heq
    exact List.suffix_rfl
  · exact (List.suffix_cons t' rest).trans hsuffix

/-- What is left stays so with one more token in front. -/
theorem cons (h : Behind rest ts) : Behind rest (t :: ts) :=
  h.trans head

end Behind

variable {ts rest start : List Token}

/-- Members that are named may be passed as well. -/
theorem Members.behind {fields : List Token} (h : Members ts fields rest)
    (hstart : Behind ts start) : Behind rest start := by
  induction h with
  | done => exact hstart
  | more _ _ _ ih => exact ih (Behind.head.cons.trans hstart)

/-- The name of a definition may be passed as well. -/
theorem DefinedName.behind {name : Option String} (h : DefinedName ts name rest)
    (hstart : Behind ts start) : Behind rest start := by
  cases h with
  | absent => exact hstart
  | present => exact Behind.head.trans hstart

/-- A parameter is one token long. -/
theorem Parameter.behind {name : String} (h : Parameter ts name rest) : Behind rest ts := by
  cases h
  exact .head

/-- A type is one token long. -/
theorem Tag.behind {tag : TypeTag} (h : Tag ts tag rest) : Behind rest ts := by
  cases h <;> exact .head

/-- A declaration of a field is at least one token long. -/
theorem FieldDeclaration.behind {f : Field} (h : FieldDeclaration ts f rest) :
    Behind rest ts := by
  cases h with
  | untyped => exact .head
  | typed _ _ h => exact h.behind.cons.cons

section Lists

variable {α : Type} {Item : List Token → α → List Token → Prop} {as : List α}

/-- If every item is at least one token long, then so is a row. -/
theorem Row.behind (hitem : ∀ {ts a rest}, Item ts a rest → Behind rest ts)
    (h : Row Item ts as rest) : Behind rest ts := by
  induction h with
  | last h _ => exact Behind.head.trans (hitem h)
  | more h _ _ ih => exact ih.cons.trans (hitem h)

/-- A closing parenthesis is one token long. -/
theorem Parenthesized.behind (hitem : ∀ {ts a rest}, Item ts a rest → Behind rest ts)
    (h : Parenthesized Item ts as rest) : Behind rest ts := by
  cases h with
  | none => exact .head
  | some h => exact h.behind hitem

/-- Behind the first item of a row there is a comma and a row, or the closing parenthesis. -/
theorem row_iff : Row Item ts as rest ↔ ∃ a close mid new, Item ts a (close :: mid) ∧
    (close.kind = .comma ∧ Row Item mid new rest ∨
      close.kind = .rightParen ∧ new = [] ∧ mid = rest) ∧ as = a :: new := by
  constructor
  · intro h
    cases h with
    | last h hclose => exact ⟨_, _, _, _, h, .inr ⟨hclose, rfl, rfl⟩, rfl⟩
    | more h hcomma hrow => exact ⟨_, _, _, _, h, .inl ⟨hcomma, hrow⟩, rfl⟩
  · rintro ⟨a, close, mid, new, h, ⟨hcomma, hrow⟩ | ⟨hclose, rfl, rfl⟩, rfl⟩
    · exact .more h hcomma hrow
    · exact .last h hclose

end Lists

mutual

/-- A phrase is at least one token long. -/
theorem Derives.behind {N : Nonterminal} {ts : List Token} {e : Expr} {rest : List Token} :
    Derives N ts e rest → Behind rest ts
  | .assign _ _ _ h => h.behind.cons.cons.cons
  | .memberSet _ _ h _ h₁ => h₁.behind.cons.trans (h.behind Behind.head.cons)
  | .logical h h₁ => h₁.behind h.behind
  | .not _ h => h.behind.cons
  | .compare h _ h₁ => h₁.behind.cons.trans h.behind
  | .uncompared h _ => h.behind
  | .sum h h₁ => h₁.behind h.behind
  | .product h h₁ => h₁.behind h.behind
  | .signed _ h => h.behind.cons
  | .unsigned h => h.behind
  | .raised h _ h₁ => h₁.behind.cons.trans h.behind
  | .unraised h _ => h.behind
  | .called h hbefore _ harguments hafter =>
    hafter.behind ((argumentsBehind harguments).cons.trans (hbefore.behind h.behind))
  | .uncalled h hfields _ => hfields.behind h.behind
  | .atom h => h.behind

/-- Further operands may be passed as well. -/
theorem Chain.behind {N : Nonterminal} {left : Expr} {ts : List Token} {e : Expr}
    {rest start : List Token} : Chain N left ts e rest → Behind ts start → Behind rest start
  | .done _, hstart => hstart
  | .more _ h h₁, hstart => h₁.behind (h.behind.cons.trans hstart)

/-- An argument is at least one token long. -/
theorem DerivesArgument.behind {ts : List Token} {a : Argument Expr} {rest : List Token} :
    DerivesArgument ts a rest → Behind rest ts
  | .named _ _ h => h.behind.cons.cons
  | .unnamed h => h.behind

/-- A closing parenthesis is one token long. -/
theorem argumentsBehind {ts : List Token} {arguments : List (Argument Expr)} {rest : List Token} :
    Parenthesized DerivesArgument ts arguments rest → Behind rest ts
  | .none _ => .head
  | .some h => rowBehind h

/-- A row of arguments is at least one token long. -/
theorem rowBehind {ts : List Token} {arguments : List (Argument Expr)} {rest : List Token} :
    Row DerivesArgument ts arguments rest → Behind rest ts
  | .last h _ => Behind.head.trans h.behind
  | .more h _ h₁ => (rowBehind h₁).cons.trans h.behind

/-- An atom is at least one token long. -/
theorem Atom.behind {k : Token.Kind} {t : Token} {ts : List Token} {e : Expr}
    {rest : List Token} : Atom k t ts e rest → Behind rest (t :: ts)
  | .constant _ => .head
  | .name => .head
  | .group h _ => Behind.head.trans (h.behind .head)
  | .block h _ _ => Behind.head.trans (h.behind .head)
  | .choice h _ h₁ h₂ => h₂.behind (h₁.behind.cons.trans h.behind.cons)
  | .forLoop _ _ h _ h₁ _ h₂ =>
    h₂.behind.cons.trans (h₁.behind.cons.trans h.behind.cons.cons.cons)
  | .forLoopStep _ _ h _ h₁ _ h₂ _ h₃ =>
    h₃.behind.cons.trans
      (h₂.behind.cons.trans (h₁.behind.cons.trans h.behind.cons.cons.cons))
  | .whileLoop h _ h₁ => h₁.behind.cons.trans h.behind.cons
  | .function hname _ hparameters _ _ h =>
    (h.behind.cons.trans (hparameters.behind Parameter.behind)).cons.trans
      (hname.behind .head)
  | .struct hname _ hfields _ =>
    (hfields.behind FieldDeclaration.behind).cons.trans (hname.behind .head)
  | .returning h => h.behind.cons
  | .returningNothing _ => .head

/-- Items may be passed as well. -/
theorem Items.behind {ts : List Token} {items : List Expr} {rest start : List Token} :
    Items ts items rest → Behind ts start → Behind rest start
  | .done, hstart => hstart
  | .more h h₁, hstart => h₁.behind (h.behind.trans hstart)

/-- Further branches may be passed as well. -/
theorem Branches.behind {ts : List Token} {branches : List (Branch Expr)}
    {otherwise : Option Expr} {rest start : List Token} :
    Branches ts branches otherwise rest → Behind ts start → Behind rest start
  | .done _ _, hstart => hstart
  | .otherwise _ h, hstart => h.behind.cons.trans hstart
  | .noCondition _ _ h, hstart => h.behind.cons.cons.trans hstart
  | .emptyCondition _ h _ h₁, hstart => (h₁.behind.cons.trans h.behind.cons).trans hstart
  | .more _ h _ _ h₁ h₂, hstart =>
    h₂.behind ((h₁.behind.cons.trans h.behind.cons).trans hstart)

end

/-! ### The first token -/

/-- An atom begins with one of the tokens with which atoms can begin. -/
theorem Atom.mem_beginnings {k : Token.Kind} {t : Token} {ts : List Token} {e : Expr}
    {rest : List Token} (h : Atom k t ts e rest) : k ∈ atomBeginnings := by
  cases h with
  | constant hconstant => cases hconstant <;> decide
  | _ => decide

/-- Signs are among the tokens with which factors can begin. -/
theorem Sign.mem {k : Token.Kind} {o : UnaryOperator} (h : Sign k o) :
    k ∈ [Token.Kind.plus, .minus] := by
  cases h <;> decide

/-- No atom begins with a sign. -/
theorem Sign.not_mem {k : Token.Kind} {o : UnaryOperator} (h : Sign k o) :
    k ∉ atomBeginnings := by
  cases h <;> decide

/-- A phrase begins with one of the tokens with which such phrases can begin. -/
theorem Derives.mem_beginnings {N : Nonterminal} {ts : List Token} {e : Expr}
    {rest : List Token} : Derives N ts e rest → next ts ∈ N.beginnings
  | .assign hset _ _ _ | .memberSet hset _ _ _ _ => by rw [next, hset]; decide
  | .logical h _ => List.mem_cons_of_mem _ h.mem_beginnings
  | .not hword _ => by rw [next, hword]; decide
  | .compare h _ _ => List.mem_cons_of_mem _ h.mem_beginnings
  | .uncompared h _ => List.mem_cons_of_mem _ h.mem_beginnings
  | .sum h _ => h.mem_beginnings
  | .product h _ => h.mem_beginnings
  | .signed hsign _ => List.mem_append_left _ hsign.mem
  | .unsigned h => List.mem_append_right _ h.mem_beginnings
  | .raised h _ _ => h.mem_beginnings
  | .unraised h _ => h.mem_beginnings
  | .called h _ _ _ _ => h.mem_beginnings
  | .uncalled h _ _ => h.mem_beginnings
  | .atom h => h.mem_beginnings

/-- Where a token is next with which no such phrase can begin, there is none. -/
theorem Derives.next_ne {N : Nonterminal} {ts : List Token} {e : Expr} {rest : List Token}
    (h : Derives N ts e rest) {k : Token.Kind} (hk : k ∉ N.beginnings) : next ts ≠ k := by
  rintro rfl
  exact hk h.mem_beginnings

/-! ### Names before colons -/

/-- No operator continues a phrase where none is next. -/
theorem Chain.rest_eq {N : Nonterminal} {left e : Expr} (hnext : ∀ o, ¬ Infix N (next ts) o)
    (h : Chain N left ts e rest) : rest = ts := by
  cases h with
  | done => rfl
  | more hoperator _ _ => exact absurd hoperator (hnext _)

/-- No member is named where no point is next. -/
theorem Members.iff_of_ne {fields : List Token} (hnext : next ts ≠ .dot) :
    Members ts fields rest ↔ fields = [] ∧ rest = ts := by
  constructor
  · intro h
    cases h with
    | done => exact ⟨rfl, rfl⟩
    | more hdot _ _ => exact absurd hdot hnext
  · rintro ⟨rfl, rfl⟩
    exact .done hnext

/-- A member is named behind a point. -/
theorem Members.iff_of_dot {dot : Token} {fields : List Token} (hdot : dot.kind = .dot) :
    Members (dot :: ts) fields rest ↔ ∃ field mid, (ts = field :: mid ∧
      field.kind = .identifier) ∧ ∃ more, Members mid more rest ∧ fields = field :: more := by
  constructor
  · intro h
    cases h with
    | done hnext => exact absurd hdot hnext
    | more _ hfield h => exact ⟨_, _, ⟨rfl, hfield⟩, _, h, rfl⟩
  · rintro ⟨field, mid, ⟨rfl, hfield⟩, more, h, rfl⟩
    exact .more hdot hfield h

/-- A colon is not an operator. -/
theorem not_infix_colon {N : Nonterminal} {o : BinaryOperator} : ¬ Infix N .colon o := by
  rintro ⟨⟩

/-- Nothing but the name belongs to a phrase that begins with a name and a colon. -/
theorem Derives.rest_eq_tail {N : Nonterminal} {ts : List Token} {e : Expr} {rest : List Token} :
    Derives N ts e rest → next ts = .identifier → next ts.tail = .colon → rest = ts.tail
  | .assign hset _ _ _, hname, _ => by simp [next, hset] at hname
  | .memberSet hset _ _ _ _, hname, _ => by simp [next, hset] at hname
  | .logical h hchain, hname, hcolon => by
    obtain rfl := h.rest_eq_tail hname hcolon
    exact hchain.rest_eq (hcolon ▸ fun _ => not_infix_colon)
  | .not hword _, hname, _ => by simp [next, hword] at hname
  | .compare h ho _, hname, hcolon => by
    rw [← h.rest_eq_tail hname hcolon, next] at hcolon
    exact absurd ho (hcolon ▸ not_infix_colon)
  | .uncompared h _, hname, hcolon => h.rest_eq_tail hname hcolon
  | .sum h hchain, hname, hcolon => by
    obtain rfl := h.rest_eq_tail hname hcolon
    exact hchain.rest_eq (hcolon ▸ fun _ => not_infix_colon)
  | .product h hchain, hname, hcolon => by
    obtain rfl := h.rest_eq_tail hname hcolon
    exact hchain.rest_eq (hcolon ▸ fun _ => not_infix_colon)
  | .signed hsign _, hname, _ => by
    rw [next] at hname
    rw [hname] at hsign
    cases hsign
  | .unsigned h, hname, hcolon => h.rest_eq_tail hname hcolon
  | .raised h hsign _, hname, hcolon => by
    rw [← h.rest_eq_tail hname hcolon, next, hsign] at hcolon
    cases hcolon
  | .unraised h _, hname, hcolon => h.rest_eq_tail hname hcolon
  | .called h hbefore hparen _ _, hname, hcolon => by
    obtain rfl := h.rest_eq_tail hname hcolon
    have hrest := ((Members.iff_of_ne (by simp [hcolon])).1 hbefore).2
    rw [← hrest, next, hparen] at hcolon
    cases hcolon
  | .uncalled h hfields _, hname, hcolon => by
    obtain rfl := h.rest_eq_tail hname hcolon
    exact ((Members.iff_of_ne (by simp [hcolon])).1 hfields).2
  | .atom h, hname, hcolon => by
    rw [next] at hname
    rw [hname] at h
    cases h with
    | constant hconstant => cases hconstant
    | name => rfl

end Grammar

end SnapshotScript
