import SnapshotScript.Proofs.Grammar.Reading
import SnapshotScript.Proofs.Grammar.Viability

/-!
# Parsers that fail at the first impossible token

A parser *breaks* on some tokens if each of its failures there is settled by the tokens up to the
one at which it fails: those before it are a viable beginning, and wherever the tokens up to that
one are the same, there is the same failure.  There is one rule for each way in which parsers are
put together.

The failing parser is compared with one that may allow more rounds and more nesting, since other
lists of tokens may be longer.
-/

namespace SnapshotScript

open Grammar

/-- How many tokens have been passed, from the one that is reported on.  A name is passed before it
is known to be refused. -/
def Expectation.passed : Expectation → Nat
  | .uniqueParameter | .uniqueField => 1
  | _ => 0

namespace Parser

variable {α β : Type} {finish finish' : Position} {n : Nat} {p p' : Parser α} {ts : List Token}
  {G G' : List Token → Prop} {k : Token.Kind} {e : SyntaxError} {t : Token}

/-- The error `e` reports the first of the tokens `rest`, and the reading has stopped at `s`. -/
structure Reported (finish : Position) (e : SyntaxError) (s : TokenStream) (rest : List Token) :
    Prop where
  found : e.found = rest.headD (.endAt finish)
  length_eq : rest.length = s.rest.length + e.expected.passed

/-- The failure `e` is settled by the tokens `used` and the one behind them, which it reports.  The
tokens that are used up have the property `G`, and on fewer than `n` tokens with the same beginning
`p'` fails in the same way.  The end of the input counts as a token here. -/
structure Settled (finish finish' : Position) (n : Nat) (p' : Parser α) (ts : List Token)
    (G : List Token → Prop) (e : SyntaxError) (s : TokenStream) (used rest : List Token) :
    Prop where
  split : ts = used ++ rest
  reported : Reported finish e s rest
  goal : G used
  again : ∀ rest', rest'.head? = rest.head? → (rest = [] → finish' = finish) →
    (used ++ rest').length < n → ∃ s, p' ⟨used ++ rest', finish'⟩ = .error e s

/-- Each failure of `p` on the tokens `ts` is settled by those up to the one at which it fails. -/
def Breaks (finish finish' : Position) (n : Nat) (p p' : Parser α) (ts : List Token)
    (G : List Token → Prop) : Prop :=
  ∀ e s, p ⟨ts, finish⟩ = .error e s →
    ∃ used rest, Settled finish finish' n p' ts G e s used rest

/-- One parser after another fails if one of them does. -/
theorem bind_eq_error {f : α → Parser β} {s s' : TokenStream} :
    (p >>= f) s = .error e s' ↔
      p s = .error e s' ∨ ∃ a mid, p s = .ok a mid ∧ f a mid = .error e s' := by
  change EStateM.bind p f s = .error e s' ↔ _
  unfold EStateM.bind
  constructor
  · intro h
    split at h
    · next a mid hp => exact .inr ⟨a, mid, hp, h⟩
    · next e mid hp =>
      cases h
      exact .inl hp
  · rintro (hp | ⟨a, mid, hp, hf⟩)
    · rw [hp]
    · rw [hp]
      exact hf

/-- Tokens with the same beginning have the same first token. -/
theorem headD_append (used : List Token) {rest rest' : List Token}
    (hhead : rest'.head? = rest.head?) (hfinish : rest = [] → finish' = finish) :
    (used ++ rest').headD (.endAt finish') = (used ++ rest).headD (.endAt finish) := by
  cases used with
  | cons t used => rfl
  | nil =>
    cases rest with
    | cons t rest =>
      cases rest' with
      | cons t' rest' => exact Option.some.inj hhead
      | nil => cases hhead
    | nil =>
      cases rest' with
      | cons t' rest' => cases hhead
      | nil => rw [hfinish rfl]

/-- Tokens with the same beginning have a first token of the same kind. -/
theorem next_append (used : List Token) {rest rest' : List Token}
    (hhead : rest'.head? = rest.head?) :
    next (used ++ rest') = next (used ++ rest) := by
  have hhead' : (used ++ rest').headD (.endAt .start) = (used ++ rest).headD (.endAt .start) :=
    headD_append used hhead fun _ => rfl
  rw [← kind_headD, hhead', kind_headD]

namespace Breaks

/-- The tokens that are used up may be described more weakly, and the bound may be smaller. -/
theorem mono (h : Breaks finish finish' n p p' ts G) (hG : ∀ used, G used → G' used) {m : Nat}
    (hm : m ≤ n) : Breaks finish finish' m p p' ts G' := by
  intro e s hfail
  obtain ⟨used, rest, hsplit, hreported, hgoal, hagain⟩ := h e s hfail
  exact ⟨used, rest, hsplit, hreported, hG used hgoal, fun rest' hhead hfinish hlt =>
    hagain rest' hhead hfinish (Nat.lt_of_lt_of_le hlt hm)⟩

/-- A result is no failure. -/
theorem pure (a : α) : Breaks finish finish' n (Pure.pure a) p' ts G := by
  intro e s hfail
  cases hfail

/-- A failure at the next token is settled, as no tokens are used up. -/
theorem failAt {expected : Expectation} (hpassed : expected.passed = 0) (hG : G [])
    (ht : t = ts.headD (.endAt finish)) :
    Breaks finish finish' n (Parser.failAt (α := α) t expected) (Parser.failAt t expected) ts
      G := by
  intro e s hfail
  cases hfail
  exact ⟨[], ts, rfl, ⟨ht, by rw [hpassed]; rfl⟩, hG, fun rest' _ _ _ => ⟨_, rfl⟩⟩

/-- To look at the next token uses up nothing. -/
theorem current {f f' : Token → Parser α}
    (h : ∀ t, t = ts.headD (.endAt finish) → Breaks finish finish' n (f t) (f' t) ts G) :
    Breaks finish finish' n (Parser.current >>= f) (Parser.current >>= f') ts G := by
  intro e s hfail
  obtain ⟨used, rest, hsplit, hreported, hgoal, hagain⟩ := h _ rfl e s hfail
  refine ⟨used, rest, hsplit, hreported, hgoal, fun rest' hhead hfinish hlt => ?_⟩
  obtain ⟨s', h⟩ := hagain rest' hhead hfinish hlt
  rw [hsplit, ← headD_append used hhead hfinish] at h
  exact ⟨s', h⟩

/-- To ask for the kind of the next token uses up nothing. -/
theorem isAt {f f' : Bool → Parser α}
    (h : Breaks finish finish' n (f (next ts == k)) (f' (next ts == k)) ts G) :
    Breaks finish finish' n (Parser.isAt k >>= f) (Parser.isAt k >>= f') ts G := by
  rw [Parser.isAt, bind_assoc, bind_assoc]
  refine .current fun t ht => ?_
  rw [pure_bind, pure_bind, ht, kind_headD]
  exact h

/-- To pass the next token uses it up. -/
theorem advance {f f' : Unit → Parser α}
    (h : Breaks finish finish' (n - 1) (f ()) (f' ()) ts fun used => G (t :: used)) :
    Breaks finish finish' n (Parser.advance >>= f) (Parser.advance >>= f') (t :: ts) G := by
  intro e s hfail
  obtain ⟨used, rest, hsplit, hreported, hgoal, hagain⟩ := h e s hfail
  refine ⟨t :: used, rest, congrArg (t :: ·) hsplit, hreported, hgoal,
    fun rest' hhead hfinish hlt => ?_⟩
  rw [List.cons_append, List.length_cons] at hlt
  exact hagain rest' hhead hfinish (by omega)

/-- To pass the next token uses it up. -/
theorem advance_seqRight (h : Breaks finish finish' (n - 1) p p' ts fun used => G (t :: used)) :
    Breaks finish finish' n (Parser.advance *> p) (Parser.advance *> p') (t :: ts) G := by
  rw [seqRight_eq_bind, seqRight_eq_bind]
  exact .advance h

/-- A token of one kind breaks together with what comes behind it. -/
theorem expect {expected : Expectation} {f f' : Token → Parser α} (hk : k ≠ .endOfInput)
    (hpassed : expected.passed = 0) (hG : G [])
    (h : ∀ t mid, ts = t :: mid → t.kind = k →
      Breaks finish finish' (n - 1) (f t) (f' t) mid fun used => G (t :: used)) :
    Breaks finish finish' n (Parser.expect k expected >>= f) (Parser.expect k expected >>= f') ts
      G := by
  rw [Parser.expect, bind_assoc, bind_assoc]
  refine .current fun t ht => ?_
  by_cases hkind : t.kind = k
  · rw [if_pos hkind, bind_assoc, bind_assoc]
    have hnext : next ts = k := by rw [← kind_headD, ← ht, hkind]
    obtain ⟨t', mid, rfl, hkind'⟩ := eq_cons_of_next hk hnext
    obtain rfl : t = t' := ht
    exact .advance (h t mid rfl hkind)
  · rw [if_neg hkind]
    exact .failAt hpassed hG ht

/-- A token of one kind, which is refused if it has the property `c`, breaks together with what
comes behind it.  What is refused is that token. -/
theorem expect_unless {expected expected' : Expectation} {c : Token → Prop} [DecidablePred c]
    {f f' : Token → Parser α} (hk : k ≠ .endOfInput) (hpassed : expected.passed = 0)
    (hpassed' : expected'.passed = 1) (hG : G [])
    (h : ∀ t mid, ts = t :: mid → t.kind = k → ¬ c t →
      Breaks finish finish' (n - 1) (f t) (f' t) mid fun used => G (t :: used)) :
    Breaks finish finish' n
      (do
        let t ← Parser.expect k expected
        if c t then Parser.failAt t expected' else f t)
      (do
        let t ← Parser.expect k expected
        if c t then Parser.failAt t expected' else f' t) ts G := by
  by_cases hrefused : ∃ t mid, ts = t :: mid ∧ t.kind = k ∧ c t
  · obtain ⟨t, mid, rfl, hkind, hc⟩ := hrefused
    have hrun (finish : Position) (mid : List Token) (f : Token → Parser α) :
        (do
          let t ← Parser.expect k expected
          if c t then Parser.failAt t expected' else f t) ⟨t :: mid, finish⟩ =
            .error ⟨expected', t⟩ ⟨mid, finish⟩ := by
      refine bind_eq_error.2 (.inr ⟨t, ⟨mid, finish⟩, ?_, ?_⟩)
      · exact (Reads.expect hk expected).eq_ok ⟨rfl, hkind⟩
      · rw [if_pos hc]
        rfl
    intro e s hfail
    rw [hrun] at hfail
    cases hfail
    refine ⟨[], t :: mid, rfl, ⟨rfl, by rw [hpassed']; rfl⟩, hG, fun rest' hhead _ _ => ?_⟩
    cases rest' with
    | nil => cases hhead
    | cons t' rest' =>
      obtain rfl : t' = t := Option.some.inj hhead
      exact ⟨_, hrun finish' rest' f'⟩
  · refine .expect hk hpassed hG fun t mid hts hkind => ?_
    have hc : ¬ c t := fun hc => hrefused ⟨t, mid, hts, hkind, hc⟩
    rw [if_neg hc, if_neg hc]
    exact h t mid hts hkind hc

/-- What is done depends on whether a token is there. -/
theorem accept {f f' : Bool → Parser α} (hk : k ≠ .endOfInput)
    (haccept : ∀ t rest, ts = t :: rest → t.kind = k →
      Breaks finish finish' (n - 1) (f true) (f' true) rest fun used => G (t :: used))
    (hreject : next ts ≠ k → Breaks finish finish' n (f false) (f' false) ts G) :
    Breaks finish finish' n (Parser.accept k >>= f) (Parser.accept k >>= f') ts G := by
  rw [Parser.accept, bind_assoc, bind_assoc]
  refine .isAt ?_
  by_cases h : next ts = k
  · obtain ⟨t, rest, rfl, hkind⟩ := eq_cons_of_next hk h
    rw [h, beq_self_eq_true, if_pos rfl, bind_assoc, bind_assoc]
    refine .advance ?_
    exact haccept t rest rfl hkind
  · rw [beq_false_of_ne h, if_neg Bool.false_ne_true]
    exact hreject h

/-- What is done depends on the kind of the next token, which is passed in one case. -/
theorem current_ite {p p' q q' : Token → Parser α} (hk : k ≠ .endOfInput)
    (haccept : ∀ t rest, ts = t :: rest → t.kind = k →
      Breaks finish finish' (n - 1) (p t) (p' t) rest fun used => G (t :: used))
    (hreject : ∀ t, next ts ≠ k → Breaks finish finish' n (q t) (q' t) ts G) :
    Breaks finish finish' n
      (do
        let t ← Parser.current
        if t.kind = k then
          Parser.advance
          p t
        else q t)
      (do
        let t ← Parser.current
        if t.kind = k then
          Parser.advance
          p' t
        else q' t) ts G := by
  refine .current fun t ht => ?_
  have hnext : t.kind = next ts := by rw [ht, kind_headD]
  by_cases hkind : t.kind = k
  · obtain ⟨t', rest, rfl, hkind'⟩ := eq_cons_of_next hk (hnext ▸ hkind)
    obtain rfl : t = t' := ht
    rw [if_pos hkind, if_pos hkind]
    exact .advance (haccept t rest rfl hkind)
  · rw [if_neg hkind, if_neg hkind]
    exact hreject t (hnext ▸ hkind)

/-- What is done with a result does not fail. -/
theorem map {g : α → β} (h : Breaks finish finish' n p p' ts G) :
    Breaks finish finish' n (do return g (← p)) (do return g (← p')) ts G := by
  intro e s hfail
  rcases bind_eq_error.1 hfail with hfail | ⟨a, mid, -, hfail⟩
  · obtain ⟨used, rest, hsplit, hreported, hgoal, hagain⟩ := h e s hfail
    refine ⟨used, rest, hsplit, hreported, hgoal, fun rest' hhead hfinish hlt => ?_⟩
    obtain ⟨s', h⟩ := hagain rest' hhead hfinish hlt
    exact ⟨s', bind_eq_error.2 (.inl h)⟩
  · cases hfail

/-- One parser after another breaks if both do, and the first one reads what can be exchanged. -/
theorem bind {R : List Token → α → List Token → Prop} {f f' : α → Parser β}
    (hp : Breaks finish finish' n p p' ts G) (hreads : Reads finish p ts (R ts))
    (hreads' : ∀ ts', ts'.length < n → Reads finish' p' ts' (R ts'))
    (hexchange : ∀ {a mid mid'}, R ts a mid → next mid' = next mid →
      ∃ ts', Exchange mid mid' ts ts' ∧ R ts' a mid')
    (hf : ∀ a front mid, ts = front ++ mid → R ts a mid →
      Breaks finish finish' (n - front.length) (f a) (f' a) mid fun used => G (front ++ used)) :
    Breaks finish finish' n (p >>= f) (p' >>= f') ts G := by
  intro e s hfail
  rcases bind_eq_error.1 hfail with hfail | ⟨a, s', hok, hfail⟩
  · obtain ⟨used, rest, hsplit, hreported, hgoal, hagain⟩ := hp e s hfail
    refine ⟨used, rest, hsplit, hreported, hgoal, fun rest' hhead hfinish hlt => ?_⟩
    obtain ⟨s', h⟩ := hagain rest' hhead hfinish hlt
    exact ⟨s', bind_eq_error.2 (.inl h)⟩
  · obtain ⟨mid, rfl, hR⟩ := (hreads a s').1 hok
    obtain ⟨ts', hts', -⟩ := hexchange hR rfl
    obtain ⟨front, hfront, -⟩ := hts'.exists_append
    obtain ⟨used, rest, rfl, hreported, hgoal, hagain⟩ := hf a front mid hfront hR e s hfail
    refine ⟨front ++ used, rest, by rw [hfront, List.append_assoc], hreported, hgoal,
      fun rest' hhead hfinish hlt => ?_⟩
    obtain ⟨ts', hts', hR'⟩ := hexchange hR (next_append used hhead)
    obtain ⟨front', hfront', rfl⟩ := hts'.exists_append
    obtain rfl := List.append_cancel_right (hfront.symm.trans hfront')
    rw [List.append_assoc] at hlt ⊢
    obtain ⟨s', h⟩ := hagain rest' hhead hfinish (by rw [List.length_append] at hlt; omega)
    exact ⟨s', bind_eq_error.2 (.inr ⟨a, _, (hreads' _ hlt).eq_ok hR', h⟩)⟩

end Breaks

/-- One part after another breaks if both do, where the first one may be absent.  The parser of the
first gives what `T` tells. -/
theorem Breaks.sequence {γ δ : Type} {R : List Token → γ → List Token → Prop}
    {T : List Token → α → List Token → Prop} {S : List Token → δ → List Token → Prop}
    {f f' : α → Parser β} (hp : Breaks finish finish' n p p' ts (Continues R))
    (hreads : Reads finish p ts (T ts))
    (hreads' : ∀ ts', ts'.length < n → Reads finish' p' ts' (T ts'))
    (hT : ∀ {a mid}, T ts a mid → ∃ c, R ts c mid)
    (hexchange : ∀ {a mid mid'}, T ts a mid → next mid' = next mid →
      ∃ ts', Exchange mid mid' ts ts' ∧ T ts' a mid')
    (hR : Exchanges R) (hS : Resumes fun _ : γ => S)
    (hf : ∀ a mid, T ts a mid → mid.length ≤ ts.length →
      Breaks finish finish' n (f a) (f' a) mid (Continues S)) :
    Breaks finish finish' n (p >>= f) (p' >>= f') ts (Continues (Sequence R fun _ => S)) := by
  refine .bind (hp.mono (fun used hused => hused.sequence hS) (Nat.le_refl _)) hreads hreads'
    hexchange fun a front mid hfront hTa => ?_
  obtain ⟨c, hc⟩ := hT hTa
  have hlength := congrArg List.length hfront
  rw [List.length_append] at hlength
  intro e s hfail
  obtain ⟨used, rest, hsplit, hreported, hgoal, hagain⟩ := hf a mid hTa (by omega) e s hfail
  exact ⟨used, rest, hsplit, hreported, .behind hR (hfront ▸ hc) hsplit hgoal,
    fun rest' hhead hfinish hlt => hagain rest' hhead hfinish (by omega)⟩

/-! ### Parsers of phrases -/

/-- On fewer than `n` tokens the parser `p`, and on fewer than `n'` tokens the parser `p'`, reads
what `R` describes, and the failures of `p` are settled. -/
structure Recognizes (finish finish' : Position) (n n' : Nat) (p p' : Parser α)
    (R : List Token → α → List Token → Prop) : Prop where
  reads : ∀ {ts}, ts.length < n → Reads finish p ts (R ts)
  reads' : ∀ {ts}, ts.length < n' → Reads finish' p' ts (R ts)
  breaks : ∀ {ts}, ts.length < n → Breaks finish finish' n' p p' ts (Viable R)

namespace Recognizes

variable {m n' : Nat} {R R' : List Token → α → List Token → Prop}

/-- Relations with the same results may be exchanged. -/
theorem congr (h : Recognizes finish finish' n n' p p' R)
    (hR : ∀ {ts a rest}, R ts a rest ↔ R' ts a rest) :
    Recognizes finish finish' n n' p p' R' where
  reads hlt := (h.reads hlt).congr fun _ _ => hR
  reads' hlt := (h.reads' hlt).congr fun _ _ => hR
  breaks hlt := (h.breaks hlt).mono (fun _ hused => hused.mono fun _ hRa => ⟨_, hR.1 hRa⟩)
    (Nat.le_refl _)

/-- A phrase breaks together with what comes behind it. -/
theorem bind {γ : Type} {S : α → List Token → γ → List Token → Prop} {f f' : α → Parser β}
    (h : Recognizes finish finish' n n' p p' R) (hR : Phrasal R) (hlt : ts.length < n)
    (hm : m ≤ n') (hS : Resumes S)
    (hf : ∀ a mid, R ts a mid → mid.length < ts.length →
      Breaks finish finish' (m - 1) (f a) (f' a) mid (Continues (S a))) :
    Breaks finish finish' m (p >>= f) (p' >>= f') ts (Viable (Sequence R S)) := by
  refine .bind ((h.breaks hlt).mono (fun used hused => hused.sequence hS) hm) (h.reads hlt)
    (fun ts' hts' => h.reads' (Nat.lt_of_lt_of_le hts' hm))
    (fun hR' hnext => hR.exchange hR' (.inl hnext)) fun a front mid hfront hR' => ?_
  have hlength := (hR.behind hR').length_lt
  have hfirst := congrArg List.length hfront
  rw [List.length_append] at hfirst
  intro e s hfail
  obtain ⟨used, rest, hsplit, hreported, hgoal, hagain⟩ := hf a mid hR' hlength e s hfail
  exact ⟨used, rest, hsplit, hreported, (hgoal.behind hR.exchange (hfront ▸ hR') hsplit).viable,
    fun rest' hhead hfinish hlt => hagain rest' hhead hfinish (by omega)⟩

end Recognizes

/-- A token that ends phrases breaks together with what comes behind it. -/
theorem Breaks.expect_after {expected : Expectation} {f f' : Token → Parser α}
    {R : List Token → β → List Token → Prop} (hk : k ∈ closers) (hk' : k ≠ .endOfInput)
    (hpassed : expected.passed = 0) (hR : Viable R [])
    (h : ∀ t mid, ts = t :: mid → Breaks finish finish' (n - 1) (f t) (f' t) mid (Viable R)) :
    Breaks finish finish' n (Parser.expect k expected >>= f) (Parser.expect k expected >>= f') ts
      (Continues (After k R)) := by
  refine .expect hk' hpassed (continues_after hk hk' hR) fun t mid hts hkind => ?_
  exact (h t mid hts).mono (fun used hused => hused.after hkind) (Nat.le_refl _)

end Parser

end SnapshotScript
