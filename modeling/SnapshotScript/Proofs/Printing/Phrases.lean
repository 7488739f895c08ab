import SnapshotScript.Proofs.Grammar.Properties
import SnapshotScript.Proofs.Printing.Unparsing

/-!
# Phrases that are printed

A phrase is read up to its end only if what is next does not go on with it.  So what is shown of
the tokens of an expression is that they are derived before any rest that does not, and in a form
that lets a looser phrase go on: a chain of operators before its first operator, a call before the
members behind it (`Reads`).  Each step to a looser strength forgets some of this
(`Reads.weaken`), and parentheses win all of it back (`Reads.enclosed`).

`Printed` says this of pieces: wherever the tokens stand, they are read as an expression that is
the given one but for its places.
-/

namespace SnapshotScript

namespace Printing

open Grammar

variable {ts : List Token} {e : Expr}

/-! ### Tokens that go on with a phrase -/

/-- The tokens that go on with a phrase. -/
def extensions : Nonterminal → List Token.Kind
  | .atom => []
  | .call => [.dot, .leftParen]
  | .power | .factor => [.dot, .leftParen, .power]
  | .term => [.dot, .leftParen, .power, .times, .divide]
  | .arithmetic => [.dot, .leftParen, .power, .times, .divide, .plus, .minus]
  | .comparison =>
    [.dot, .leftParen, .power, .times, .divide, .plus, .minus, .equal, .notEqual, .less, .greater,
      .lessEqual, .greaterEqual]
  | .expression =>
    [.dot, .leftParen, .power, .times, .divide, .plus, .minus, .equal, .notEqual, .less, .greater,
      .lessEqual, .greaterEqual, .keyword .and, .keyword .or]

/-- What goes on with a tighter phrase goes on with a looser one. -/
theorem extensions_tighter (N : Nonterminal) : extensions N.tighter ⊆ extensions N := by
  cases N <;> decide

/-- An operator goes on with the phrases of its level, and not with those of the next tighter
one. -/
theorem infix_mem_extensions {N : Nonterminal} {k : Token.Kind} {o : BinaryOperator}
    (h : Infix N k o) : k ∈ extensions N ∧ k ∉ extensions N.tighter := by
  cases h <;> decide

/-- The tokens at the end of the input, before a closing parenthesis and before another item. -/
def itemEnds : List Token.Kind :=
  [.endOfInput, .rightParen]

/-- The tokens with which the items behind the first one of a block begin. -/
def itemBeginnings : List Token.Kind :=
  [.identifier, .int, .float, .string, .keyword .true, .keyword .false, .keyword .null,
    .keyword .not, .keyword .set, .keyword .if, .keyword .for, .keyword .while, .keyword .fun,
    .keyword .struct, .keyword .return]

/-- The token may come behind the expression as an item of a block. -/
def Closes (e : Expr) (k : Token.Kind) : Prop :=
  k ∈ itemEnds ∨ k ∈ itemBeginnings ∧ e.unplaced ≠ .returning none .start

/-- What comes behind an item goes on with no phrase. -/
theorem Closes.not_mem {k : Token.Kind} (h : Closes e k) :
    k ∉ extensions .expression ∧ k ≠ .keyword .eli ∧ k ≠ .keyword .el := by
  have hends : ∀ k ∈ itemEnds ++ itemBeginnings,
      k ∉ extensions .expression ∧ k ≠ .keyword .eli ∧ k ≠ .keyword .el := by
    decide
  apply hends
  rcases h with h | h
  · exact List.mem_append_left _ h
  · exact List.mem_append_right _ h.1

/-! ### Reading at a strength -/

/-- The tokens are a phrase wherever nothing goes on with it. -/
def Closed (N : Nonterminal) (ts : List Token) (e : Expr) : Prop :=
  ∀ rest, next rest ∉ extensions N → Derives N (ts ++ rest) e rest

/-- The tokens begin a chain of operators of the level, wherever nothing goes on with the last
operand among them. -/
def Open (N : Nonterminal) (ts : List Token) (e : Expr) : Prop :=
  ∀ rest, next rest ∉ extensions N.tighter → ∀ e' rest', Chain N e rest e' rest' →
    Derives N (ts ++ rest) e' rest'

/-- The tokens are read as the expression by phrases of the strength. -/
def Reads : Strength → List Token → Expr → Prop
  | .atom, ts, e => ∀ rest, Derives .atom (ts ++ rest) e rest
  | .members, ts, e => ∃ a fields, e = select a fields ∧ ∀ rest, ∃ mid,
      Derives .atom (ts ++ rest) a mid ∧
        ∀ more rest', Members rest more rest' → Members mid (fields ++ more) rest'
  | .call, ts, e => ∀ rest fields rest', Members rest fields rest' → next rest' ≠ .leftParen →
      Derives .call (ts ++ rest) (select e fields) rest'
  | .power, ts, e => Closed .power ts e
  | .factor, ts, e => Closed .factor ts e
  | .term, ts, e => Open .term ts e
  | .arithmetic, ts, e => Open .arithmetic ts e
  | .comparison, ts, e => Closed .comparison ts e
  | .logical, ts, e => Open .expression ts e
  | .form, ts, e => ∀ rest, Closes e (next rest) → Derives .expression (ts ++ rest) e rest

/-- A chain may end where no operator of its level is next. -/
theorem Open.closed {N : Nonterminal} (h : Open N ts e) : Closed N ts e := by
  intro rest hnext
  have htighter : next rest ∉ extensions N.tighter := fun hmem =>
    hnext (extensions_tighter N hmem)
  have hdone : Chain N e rest e rest := .done fun o ho => hnext (infix_mem_extensions ho).1
  exact h rest htighter e rest hdone

/-- An operator and another operand make a longer chain. -/
theorem Open.binary {N : Nonterminal} {k : Token.Kind} {o : BinaryOperator} {sign : Token}
    {tl tr : List Token} {left right : Expr} (ho : Infix N k o) (hsign : sign.kind = k)
    (hleft : Open N tl left) (hright : Closed N.tighter tr right) :
    Open N (tl ++ sign :: tr) (.binary o left right sign.first) := by
  intro rest hnext e' rest' hchain
  have hbehind : next (sign :: (tr ++ rest)) ∉ extensions N.tighter := by
    rw [next, hsign]
    exact (infix_mem_extensions ho).2
  have hmore : Chain N left (sign :: (tr ++ rest)) e' rest' :=
    .more (hsign ▸ ho) (hright rest hnext) hchain
  rw [List.append_assoc]
  exact hleft _ hbehind e' rest' hmore

/-! ### Weaker strengths -/

namespace Strength

/-- The next tighter strength. -/
def tighter : Strength → Strength
  | .form => .logical
  | .logical => .comparison
  | .comparison => .arithmetic
  | .arithmetic => .term
  | .term => .factor
  | .factor => .power
  | .power => .call
  | .call => .members
  | .members => .atom
  | .atom => .atom

end Strength

/-- What is read by tighter phrases is read by looser ones. -/
theorem Reads.step {s : Strength} (h : Reads s.tighter ts e) (hform : s ≠ .form) :
    Reads s ts e := by
  cases s with
  | form => exact absurd rfl hform
  | logical =>
    intro rest hnext e' rest' hchain
    exact .logical (h rest hnext) hchain
  | comparison =>
    intro rest hnext
    have hsum : Derives .arithmetic (ts ++ rest) e rest :=
      Open.closed h rest fun hmem => hnext (extensions_tighter .comparison hmem)
    exact .uncompared hsum fun o ho => hnext (infix_mem_extensions ho).1
  | arithmetic =>
    intro rest hnext e' rest' hchain
    exact .sum (Open.closed h rest hnext) hchain
  | term =>
    intro rest hnext e' rest' hchain
    exact .product (h rest hnext) hchain
  | factor =>
    intro rest hnext
    exact .unsigned (h rest hnext)
  | power =>
    intro rest hnext
    simp only [extensions, List.mem_cons, List.not_mem_nil, or_false, not_or] at hnext
    have hcall : Derives .call (ts ++ rest) e rest := h rest [] rest (.done hnext.1) hnext.2.1
    exact .unraised hcall hnext.2.2
  | call =>
    obtain ⟨a, fields, rfl, h⟩ := h
    intro rest more rest' hmore hnext
    obtain ⟨mid, hatom, hmembers⟩ := h rest
    have hcall := Derives.uncalled hatom (hmembers more rest' hmore) hnext
    rwa [select, List.foldl_append] at hcall
  | members =>
    exact ⟨e, [], rfl, fun rest => ⟨rest, h rest, fun more rest' hmore => hmore⟩⟩
  | atom => exact h

/-- A strength is weakened step by step. -/
theorem Reads.weaken {s s' : Strength} (h : Reads s ts e) (hle : s'.rank ≤ s.rank)
    (hform : s' ≠ .form) : Reads s' ts e := by
  induction hn : s.rank - s'.rank generalizing s' with
  | zero =>
    have heq : s' = s := by
      have hrank : s'.rank = s.rank := by omega
      cases s <;> cases s' <;> first | rfl | exact absurd hrank (by decide)
    rwa [heq]
  | succ n ih =>
    have htighter : s'.tighter.rank ≤ s.rank ∧ s.rank - s'.tighter.rank = n ∧
        s'.tighter ≠ .form := by
      have hatom : s.rank ≤ Strength.atom.rank := by cases s <;> decide
      cases s' <;> simp only [Strength.rank, Strength.tighter] at * <;>
        exact ⟨by omega, by omega, by decide⟩
    exact (ih htighter.1 htighter.2.2 htighter.2.1).step hform

/-- Every printed expression can be an item of a block. -/
theorem Reads.item {s : Strength} (h : Reads s ts e) {rest : List Token}
    (hrest : Closes e (next rest)) : Derives .expression (ts ++ rest) e rest := by
  by_cases hform : s = .form
  · subst hform
    exact h rest hrest
  · have hle : Strength.logical.rank ≤ s.rank := by
      cases s with
      | form => exact absurd rfl hform
      | _ => decide
    have hopen : Open .expression ts e := h.weaken hle (by decide)
    exact hopen.closed rest hrest.not_mem.1

/-- Parentheses make an atom of every expression. -/
theorem Reads.enclosed {s : Strength} (h : Reads s ts e) {first last : Token}
    (hfirst : first.kind = .leftParen) (hlast : last.kind = .rightParen) :
    Reads .atom (first :: (ts ++ [last])) e := by
  intro rest
  have hclose : Closes e (next (last :: rest)) := by
    left
    rw [next, hlast]
    decide
  have hitems : Items (ts ++ last :: rest) [e] (last :: rest) := .more (h.item hclose) .done
  have hatom : Atom first.kind first (ts ++ last :: rest) e rest := by
    rw [hfirst]
    exact .group hitems hlast
  simpa using Derives.atom hatom

/-! ### Printed expressions -/

/-- Wherever tokens with these pieces stand, they are read as the expression, but for its
places. -/
def Printed (s : Strength) (pieces : List Piece) (e : Expr) : Prop :=
  ∀ ts : List Token, ts.map Token.piece = pieces →
    ∃ e' : Expr, e'.unplaced = e.unplaced ∧ Reads s ts e'

variable {s : Strength} {pieces : List Piece}

/-- A token with a given piece has its kind and text. -/
theorem kind_eq_of_piece {t : Token} {k : Token.Kind} {text : String} (h : t.piece = (k, text)) :
    t.kind = k ∧ t.text = text := by
  simpa [Token.piece] using h

theorem kind_eq_of_fixed {t : Token} {k : Token.Kind} (h : t.piece = fixed k) : t.kind = k :=
  (kind_eq_of_piece h).1

/-- Tokens in parentheses stand between two of these. -/
theorem exists_enclosed (h : ts.map Token.piece = enclose pieces) :
    ∃ first inner last, ts = first :: (inner ++ [last]) ∧ first.kind = .leftParen ∧
      inner.map Token.piece = pieces ∧ last.kind = .rightParen := by
  obtain ⟨first, tail, rfl, hfirst, htail⟩ := List.map_eq_cons_iff.1 h
  obtain ⟨inner, end', rfl, hinner, hend⟩ := List.map_eq_append_iff.1 htail
  obtain ⟨last, behind, rfl, hlast, hnil⟩ := List.map_eq_cons_iff.1 hend
  obtain rfl := List.map_eq_nil_iff.1 hnil
  exact ⟨first, inner, last, rfl, kind_eq_of_fixed hfirst, hinner, kind_eq_of_fixed hlast⟩

/-- In parentheses, a printed expression is an atom. -/
theorem Printed.enclosed (h : Printed s pieces e) : Printed .atom (enclose pieces) e := by
  intro ts hts
  obtain ⟨first, inner, last, rfl, hfirst, hinner, hlast⟩ := exists_enclosed hts
  obtain ⟨e', he', hreads⟩ := h inner hinner
  exact ⟨e', he', hreads.enclosed hfirst hlast⟩

/-- A printed expression is so at a weaker strength, if this is not that of forms. -/
theorem Printed.weaken {s' : Strength} (h : Printed s pieces e) (hle : s'.rank ≤ s.rank)
    (hform : s' ≠ .form) : Printed s' pieces e := by
  intro ts hts
  obtain ⟨e', he', hreads⟩ := h ts hts
  exact ⟨e', he', hreads.weaken hle hform⟩

/-- A printed expression fits into every place, in parentheses if it is too weak for it. -/
theorem Printed.fits (h : Printed s pieces e) {needed : Strength} (hform : needed ≠ .form) :
    Printed needed (fit needed s pieces) e := by
  unfold fit
  split
  · next hle => exact h.weaken hle hform
  · have hle : needed.rank ≤ Strength.atom.rank := by cases needed <;> decide
    exact h.enclosed.weaken hle hform

end Printing

end SnapshotScript
