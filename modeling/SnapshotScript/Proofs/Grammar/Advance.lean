import SnapshotScript.Proofs.Grammar.Breaking

/-!
# Parsers that only go forward

A parser *advances* from a stream if what it leaves there is the rest of the same stream, be the
outcome a result or a failure.  There is one rule for each way in which parsers are put together.

As in the study of failures, the parser is compared with one that has other bounds, or that reads
inner phrases in another way.  The two do the same, so nothing depends on the bounds, and inner
phrases matter only on shorter streams.
-/

namespace SnapshotScript

open Grammar

/-- What an atom fails with. -/
def Expectation.ofAtom : Expectation → Bool
  | .expression | .integerInRange | .floatNumeral => true
  | _ => false

/-- The stream `s'` is what is left of `s` when at least `k` tokens have been passed. -/
structure TokenStream.Ahead (k : Nat) (s s' : TokenStream) : Prop where
  finish_eq : s'.finish = s.finish
  suffix : s'.rest <:+ s.rest
  length_le : s'.rest.length + k ≤ s.rest.length

namespace TokenStream

variable {s s' s'' : TokenStream} {k j : Nat}

theorem Ahead.refl (s : TokenStream) : Ahead 0 s s :=
  ⟨rfl, List.suffix_refl _, Nat.le_refl _⟩

theorem Ahead.trans (h : Ahead k s s') (h' : Ahead j s' s'') : Ahead (k + j) s s'' := by
  have hlength := h.length_le
  have hlength' := h'.length_le
  exact ⟨h'.finish_eq.trans h.finish_eq, h'.suffix.trans h.suffix, by omega⟩

/-- Fewer tokens have been passed as well. -/
theorem Ahead.mono (h : Ahead k s s') (hj : j ≤ k) : Ahead j s s' :=
  ⟨h.finish_eq, h.suffix, Nat.le_trans (Nat.add_le_add_left hj _) h.length_le⟩

/-- A token that is not the end of the input can be passed. -/
theorem ahead_tail (h : s.current.kind ≠ .endOfInput) :
    Ahead 1 s { s with rest := s.rest.tail } := by
  obtain ⟨rest, finish⟩ := s
  cases rest with
  | nil => exact absurd rfl h
  | cons t rest => exact ⟨rfl, List.suffix_cons t rest, Nat.le_refl _⟩

end TokenStream

namespace Parser

open TokenStream (Ahead)

variable {α β : Type} {start start' : Prop} {k k' j : Nat} {p p' : Parser α} {s : TokenStream}
  {kind : Token.Kind} {expected : Expectation} {t : Token}

/-- The failure `e`, with which the reading stops at `s`, has the reason that it names, as far as
atoms are concerned: the token found is the next one, and no atom begins with it, or its text is no
number. -/
def Justified (e : SyntaxError) (s : TokenStream) : Prop :=
  match e.expected with
  | .expression => e.found = s.current ∧ e.found.kind ∉ atomBeginnings
  | .integerInRange => e.found = s.current ∧ e.found.kind = .int ∧
      (readInteger? e.found.text.toList).bind word? = none
  | .floatNumeral => e.found = s.current ∧ e.found.kind = .float ∧
      readFloat? e.found.text.toList = none
  | _ => True

/-- A failure that is not about atoms needs no reason. -/
theorem justified_of_eq_false {e : SyntaxError} (h : e.expected.ofAtom = false) :
    Justified e s := by
  unfold Justified
  split
  all_goals first
    | trivial
    | next hexpected => rw [hexpected] at h; cases h

/-- The parser `p` goes forward from `s`, where `p'` does the same.  A result is behind at least `k`
tokens.  If the next token can be the first one, which `start` tells, then it is not the token
that is found in place of an expression. -/
structure Advances (start : Prop) (k : Nat) (p p' : Parser α) (s : TokenStream) : Prop where
  same : p s = p' s
  result : ∀ {a s'}, p s = .ok a s' → Ahead k s s'
  failure : ∀ {e s'}, p s = .error e s' →
    Ahead 0 s s' ∧ Justified e s' ∧ (start → e.expected = .expression → Ahead 1 s s')

namespace Advances

/-- A parser that advances by `k` tokens advances by fewer, and also where fewer tokens can begin.
-/
theorem mono (h : Advances start k p p' s) (hstart : start' → start) (hk : k' ≤ k) :
    Advances start' k' p p' s where
  same := h.same
  result ha := (h.result ha).mono hk
  failure he := by
    obtain ⟨hahead, hjustified, hfirst⟩ := h.failure he
    exact ⟨hahead, hjustified, fun hs => hfirst (hstart hs)⟩

/-- A parser that does the same may take the place of one that advances. -/
theorem of_eq {q : Parser α} (heq : q s = p s) (h : Advances start k p p' s) :
    Advances start k q p' s where
  same := heq.trans h.same
  result ha := h.result (heq ▸ ha)
  failure he := h.failure (heq ▸ he)

/-- A result that is given right away passes no token. -/
theorem pure (a : α) : Advances start 0 (Pure.pure a) (Pure.pure a) s where
  same := rfl
  result ha := by
    cases ha
    exact .refl s
  failure he := by cases he

/-- A failure at the next token passes none. -/
theorem failAt (hjustified : Justified ⟨expected, t⟩ s)
    (hstart : expected = .expression → ¬ start) :
    Advances start k (Parser.failAt (α := α) t expected) (Parser.failAt t expected) s where
  same := rfl
  result ha := by cases ha
  failure he := by
    cases he
    exact ⟨.refl s, hjustified, fun hs hexpected => absurd hs (hstart hexpected)⟩

/-- A parser that advances by some tokens advances by none. -/
theorem zero (h : Advances start k p p' s) : Advances start 0 p p' s :=
  h.mono id (Nat.zero_le k)

/-- One parser after another passes the tokens of both, and fails as one of them does. -/
theorem bind_add {f f' : α → Parser β} (hp : Advances start k p p' s) (hpos : 0 < k ∨ ¬ start)
    (hf : ∀ a s', Ahead k s s' → Advances False j (f a) (f' a) s') :
    Advances start (k + j) (p >>= f) (p' >>= f') s where
  same := by
    have hsame := hp.same
    change EStateM.bind p f s = EStateM.bind p' f' s
    unfold EStateM.bind
    rw [← hsame]
    cases hrun : p s with
    | ok a s' => exact (hf a s' (hp.result hrun)).same
    | error e s' => rfl
  result hb := by
    obtain ⟨a, mid, ha, hb⟩ := bind_eq_ok.1 hb
    have hmid := hp.result ha
    exact hmid.trans ((hf a mid hmid).result hb)
  failure he := by
    rcases bind_eq_error.1 he with he | ⟨a, mid, ha, he⟩
    · exact hp.failure he
    · have hmid := hp.result ha
      obtain ⟨hahead, hjustified, -⟩ := (hf a mid hmid).failure he
      have hbehind := hmid.trans hahead
      refine ⟨hbehind.mono (Nat.zero_le _), hjustified, fun hs _ => hbehind.mono ?_⟩
      exact hpos.resolve_right fun hns => hns hs

/-- One parser after another passes a token if the first one does. -/
theorem bind {f f' : α → Parser β} (hp : Advances start 1 p p' s)
    (hf : ∀ a s', Ahead 1 s s' → Advances False 0 (f a) (f' a) s') :
    Advances start 1 (p >>= f) (p' >>= f') s :=
  hp.bind_add (.inl Nat.one_pos) hf

/-- One parser after another passes the tokens of the second one, if the first one may pass none. -/
theorem bind_zero {f f' : α → Parser β} (hp : Advances False 0 p p' s)
    (hf : ∀ a s', Ahead 0 s s' → Advances False k (f a) (f' a) s') :
    Advances False k (p >>= f) (p' >>= f') s :=
  (hp.bind_add (.inr id) hf).mono id (Nat.le_of_eq (Nat.zero_add k).symm)

theorem map {g : α → β} (h : Advances start 1 p p' s) :
    Advances start 1 (do return g (← p)) (do return g (← p')) s :=
  h.bind fun a _ _ => .pure (g a)

/-- To look at the next token passes nothing. -/
theorem current {f f' : Token → Parser α} (h : Advances start k (f s.current) (f' s.current) s) :
    Advances start k (Parser.current >>= f) (Parser.current >>= f') s :=
  ⟨h.same, h.result, h.failure⟩

/-- To look at the stream passes nothing. -/
theorem get {f f' : TokenStream → Parser α} (h : Advances start k (f s) (f' s) s) :
    Advances start k (MonadState.get >>= f) (MonadState.get >>= f') s :=
  ⟨h.same, h.result, h.failure⟩

/-- To ask for the kind of the next token passes nothing. -/
theorem isAt {f f' : Bool → Parser α}
    (h : Advances start k (f (s.current.kind == kind)) (f' (s.current.kind == kind)) s) :
    Advances start k (Parser.isAt kind >>= f) (Parser.isAt kind >>= f') s :=
  ⟨h.same, h.result, h.failure⟩

/-- The next token is passed unless it is the end of the input. -/
theorem passing (hnext : s.current.kind ≠ .endOfInput) :
    Advances start 1 Parser.advance Parser.advance s where
  same := rfl
  result ha := by
    cases ha
    exact TokenStream.ahead_tail hnext
  failure he := by cases he

/-- Behind the next token, which is not the end of the input, a parser goes on. -/
theorem advance {f f' : Unit → Parser α} (hnext : s.current.kind ≠ .endOfInput)
    (h : ∀ s', Ahead 1 s s' → Advances False 0 (f ()) (f' ()) s') :
    Advances start 1 (Parser.advance >>= f) (Parser.advance >>= f') s :=
  (passing hnext).bind fun _ => h

theorem advance_seqRight (hnext : s.current.kind ≠ .endOfInput)
    (h : ∀ s', Ahead 1 s s' → Advances False 0 p p' s') :
    Advances start 1 (Parser.advance *> p) (Parser.advance *> p') s := by
  rw [seqRight_eq_bind, seqRight_eq_bind]
  exact .advance hnext h

/-- A parser goes on with what is left of the stream behind some tokens. -/
theorem set {f f' : PUnit → Parser α} {s' : TokenStream} (hs' : Ahead 1 s s')
    (h : Advances False 0 (f ⟨⟩) (f' ⟨⟩) s') :
    Advances start 1 (MonadState.set s' >>= f) (MonadState.set s' >>= f') s := by
  refine ⟨h.same, fun ha => ?_, fun he => ?_⟩
  · exact hs'.trans (h.result ha)
  · obtain ⟨hahead, hjustified, -⟩ := h.failure he
    have hbehind := hs'.trans hahead
    exact ⟨hbehind.mono (Nat.zero_le _), hjustified, fun _ _ => hbehind⟩

/-- Behind a token of one kind, which is passed, a parser goes on. -/
theorem expect {f f' : Token → Parser α} (hkind : kind ≠ .endOfInput)
    (hexpected : expected.ofAtom = false)
    (h : ∀ t s', Ahead 1 s s' → Advances False 0 (f t) (f' t) s') :
    Advances start 1 (Parser.expect kind expected >>= f) (Parser.expect kind expected >>= f')
      s := by
  rw [Parser.expect, bind_assoc, bind_assoc]
  refine .current ?_
  by_cases hnext : s.current.kind = kind
  · rw [if_pos hnext, bind_assoc, bind_assoc]
    exact .advance (hnext ▸ hkind) fun s' hs' => h s.current s' hs'
  · rw [if_neg hnext]
    refine .failAt (justified_of_eq_false hexpected) ?_
    rintro rfl
    cases hexpected

/-- A parser goes on whether a token is there, which is passed, or not. -/
theorem accept {f f' : Bool → Parser α} (hkind : kind ≠ .endOfInput)
    (htrue : ∀ s', Ahead 1 s s' → Advances False 0 (f true) (f' true) s')
    (hfalse : Advances False 0 (f false) (f' false) s) :
    Advances False 0 (Parser.accept kind >>= f) (Parser.accept kind >>= f') s := by
  rw [Parser.accept, bind_assoc, bind_assoc]
  refine .isAt ?_
  by_cases hnext : s.current.kind = kind
  · rw [hnext, beq_self_eq_true, if_pos rfl, bind_assoc, bind_assoc]
    exact (Advances.advance (hnext ▸ hkind) htrue).zero
  · rw [beq_false_of_ne hnext]
    exact hfalse

end Advances

end Parser

end SnapshotScript
