import SnapshotScript.Proofs.Grammar.Properties

/-!
# Parsers that read what a relation describes

A parser *reads* a relation on some tokens if its results there, with the tokens that are left, are
exactly those of the relation.  It fails where the relation has none.  There is one rule for each
way in which parsers are put together.
-/

namespace SnapshotScript

open Grammar

namespace Parser

variable {α β : Type} {finish : Position} {p : Parser α} {ts : List Token}
  {R : α → List Token → Prop} {k : Token.Kind}

/-- On the tokens `ts` the parser gives the results of `R`, and no others. -/
def Reads (finish : Position) (p : Parser α) (ts : List Token) (R : α → List Token → Prop) :
    Prop :=
  ∀ a s, p ⟨ts, finish⟩ = .ok a s ↔ ∃ rest, s = ⟨rest, finish⟩ ∧ R a rest

/-- One parser after another gives a result if both do. -/
theorem bind_eq_ok {f : α → Parser β} {s s' : TokenStream} {b : β} :
    (p >>= f) s = .ok b s' ↔ ∃ a mid, p s = .ok a mid ∧ f a mid = .ok b s' := by
  change EStateM.bind p f s = .ok b s' ↔ _
  unfold EStateM.bind
  constructor
  · intro h
    split at h
    · next a mid hp => exact ⟨a, mid, hp, h⟩
    · cases h
  · rintro ⟨a, mid, hp, hf⟩
    rw [hp]
    exact hf

namespace Reads

/-- The parser gives a result that the relation describes. -/
theorem eq_ok (h : Reads finish p ts R) {a : α} {rest : List Token} (hR : R a rest) :
    p ⟨ts, finish⟩ = .ok a ⟨rest, finish⟩ :=
  (h a _).2 ⟨rest, rfl, hR⟩

/-- Relations with the same results may be exchanged. -/
theorem congr (h : Reads finish p ts R) {R' : α → List Token → Prop}
    (hR : ∀ a rest, R a rest ↔ R' a rest) : Reads finish p ts R' := by
  intro a s
  rw [h a s]
  exact exists_congr fun rest => and_congr_right fun _ => hR a rest

/-- A result that is given right away passes nothing. -/
theorem pure (a : α) : Reads finish (pure a) ts fun b rest => b = a ∧ rest = ts := by
  intro b s
  constructor
  · intro h
    cases h
    exact ⟨ts, rfl, rfl, rfl⟩
  · rintro ⟨rest, rfl, rfl, rfl⟩
    rfl

/-- A failure gives no result. -/
theorem failAt (found : Token) (expected : Expectation) :
    Reads finish (Parser.failAt (α := α) found expected) ts fun _ _ => False := by
  intro a s
  constructor
  · intro h
    cases h
  · rintro ⟨-, -, ⟨⟩⟩

/-- One parser after another reads what the second one reads behind what the first one does. -/
theorem bind (h : Reads finish p ts R) {f : α → Parser β}
    {S : α → List Token → β → List Token → Prop}
    (hf : ∀ a rest, R a rest → Reads finish (f a) rest (S a rest)) :
    Reads finish (p >>= f) ts fun b rest => ∃ a mid, R a mid ∧ S a mid b rest := by
  intro b s
  rw [bind_eq_ok]
  constructor
  · rintro ⟨a, mid, hp, hrun⟩
    obtain ⟨rest, rfl, hR⟩ := (h a mid).1 hp
    obtain ⟨rest', rfl, hS⟩ := (hf a rest hR b s).1 hrun
    exact ⟨rest', rfl, a, rest, hR, hS⟩
  · rintro ⟨rest, rfl, a, mid, hR, hS⟩
    exact ⟨a, _, h.eq_ok hR, (hf a mid hR).eq_ok hS⟩

end Reads

/-! ### The next token -/

@[simp] theorem kind_headD : (ts.headD (.endAt finish)).kind = next ts := by
  cases ts <;> rfl

/-- To look at the next token passes nothing. -/
theorem reads_current {f : Token → Parser α} :
    Reads finish (current >>= f) ts R ↔ Reads finish (f (ts.headD (.endAt finish))) ts R :=
  Iff.rfl

/-- Behind the next token a parser reads what is left. -/
theorem reads_advance {f : Unit → Parser α} :
    Reads finish (advance >>= f) ts R ↔ Reads finish (f ()) ts.tail R :=
  Iff.rfl

theorem reads_advance_seqRight : Reads finish (advance *> p) ts R ↔ Reads finish p ts.tail R :=
  Iff.rfl

/-- To look at the stream passes nothing. -/
theorem reads_get {f : TokenStream → Parser α} :
    Reads finish (get >>= f) ts R ↔ Reads finish (f ⟨ts, finish⟩) ts R :=
  Iff.rfl

/-- A parser reads the tokens that are put into the stream. -/
theorem reads_set {rest : List Token} {f : PUnit → Parser α} :
    Reads finish (set ({ rest, finish } : TokenStream) >>= f) ts R ↔
      Reads finish (f ()) rest R :=
  Iff.rfl

/-- To ask for the kind of the next token passes nothing. -/
theorem reads_isAt {f : Bool → Parser α} :
    Reads finish (isAt k >>= f) ts R ↔ Reads finish (f (next ts == k)) ts R := by
  cases ts <;> exact Iff.rfl

/-- Where a token is next, it is the first one. -/
theorem eq_cons_of_next (hk : k ≠ .endOfInput) (h : next ts = k) :
    ∃ t rest, ts = t :: rest ∧ t.kind = k := by
  cases ts with
  | nil => exact absurd h.symm hk
  | cons t rest => exact ⟨t, rest, rfl, h⟩

/-- A token of one kind is read if it is next. -/
theorem Reads.expect (hk : k ≠ .endOfInput) (expected : Expectation) :
    Reads finish (Parser.expect k expected) ts fun t rest => ts = t :: rest ∧ t.kind = k := by
  rw [Parser.expect, reads_current]
  split
  · next h =>
    rw [kind_headD] at h
    obtain ⟨t, rest, rfl, ht⟩ := eq_cons_of_next hk h
    rw [reads_advance]
    refine (Reads.pure _).congr fun t' rest' => ?_
    constructor
    · rintro ⟨rfl, rfl⟩
      exact ⟨rfl, ht⟩
    · rintro ⟨heq, -⟩
      cases heq
      exact ⟨rfl, rfl⟩
  · next h =>
    rw [kind_headD] at h
    refine (Reads.failAt _ _).congr fun t rest => ?_
    constructor
    · rintro ⟨⟩
    · rintro ⟨rfl, ht⟩
      exact h ht

/-- A token that is there is passed. -/
theorem reads_accept_of_eq {f : Bool → Parser α} (h : next ts = k) :
    Reads finish (accept k >>= f) ts R ↔ Reads finish (f true) ts.tail R := by
  rw [accept, bind_assoc, reads_isAt, h, beq_self_eq_true, if_pos rfl]
  exact Iff.rfl

/-- A token that is not there is not passed. -/
theorem reads_accept_of_ne {f : Bool → Parser α} (h : next ts ≠ k) :
    Reads finish (accept k >>= f) ts R ↔ Reads finish (f false) ts R := by
  rw [accept, bind_assoc, reads_isAt, beq_false_of_ne h, if_neg Bool.false_ne_true]
  exact Iff.rfl

/-- What is done depends on whether a token is there. -/
theorem Reads.ite_accept {q : Parser α} (hk : k ≠ .endOfInput)
    (haccept : ∀ t rest, ts = t :: rest → t.kind = k → Reads finish p rest R)
    (hreject : next ts ≠ k → Reads finish q ts R) :
    Reads finish (do if ← accept k then p else q) ts R := by
  by_cases h : next ts = k
  · obtain ⟨t, rest, rfl, hkind⟩ := eq_cons_of_next hk h
    rw [reads_accept_of_eq h, if_pos rfl]
    exact haccept t rest rfl hkind
  · rw [reads_accept_of_ne h, if_neg Bool.false_ne_true]
    exact hreject h

end Parser

end SnapshotScript
