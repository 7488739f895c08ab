import SnapshotScript.Proofs.Grammar.Advance.Constructs
import SnapshotScript.Proofs.Grammar.FirstImpossible

/-!
# Progress of the parser

Every function of the parser goes forward, and inner phrases are read from fewer tokens than the
phrase around them.  Hence the recursion ends whatever the tokens are, and neither the bound on the
nesting nor that on the rounds of a loop is ever met.  A parser that is asked for programs again and
again stays inside its tokens (`parsing_progress`).
-/

namespace SnapshotScript

open SnapshotScript.Grammar SnapshotScript.Parser SnapshotScript.TokenStream

namespace Phrase

section Levels

variable {n bound bound' : Nat} {s : TokenStream} {recur recur' : Level → Parser Expr}

/-! ### Levels -/

section Inner

variable (hinner : AdvancesInner n recur recur') (hlength : s.rest.length ≤ n) (hbound : n ≤ bound)
  (hbound' : n ≤ bound')

include hinner hlength hbound hbound'

theorem atom_advances :
    Advances (s.current.kind ∈ atomBeginnings) 1 (atom recur bound) (atom recur' bound') s := by
  rw [atom, atom]
  refine .current ?_
  have hfail {start : Prop} (hkind : s.current.kind ∉ atomBeginnings) (hstart : ¬ start) :
      Advances start 1 (failAt s.current .expression : Parser Expr) (failAt s.current .expression)
        s :=
    .failAt ⟨rfl, hkind⟩ fun _ => hstart
  have hpass {start : Prop} {p p' : Parser Expr} (hnext : s.current.kind ≠ .endOfInput)
      (hp : ∀ s' : TokenStream, s'.rest.length < n → Advances False 0 p p' s') :
      Advances start 1 (Parser.advance *> p) (Parser.advance *> p') s :=
    .advance_seqRight hnext fun s' h' => hp s' (Nat.lt_of_lt_of_le h'.length_le hlength)
  have hliteral {start : Prop} (hnext : s.current.kind ≠ .endOfInput) (value : Literal) :
      Advances start 1 (literal value s.current.first) (literal value s.current.first) s :=
    .advance hnext fun _ _ => .pure _
  generalize hkind : s.current.kind = k at hfail hpass hliteral
  cases k with
  | int =>
    cases hvalue : (readInteger? s.current.text.toList).bind word? with
    | some v => exact hliteral (by decide) _
    | none => exact .failAt ⟨rfl, hkind, hvalue⟩ fun heq => by cases heq
  | float =>
    cases hvalue : readFloat? s.current.text.toList with
    | some v => exact hliteral (by decide) _
    | none => exact .failAt ⟨rfl, hkind, hvalue⟩ fun heq => by cases heq
  | string => exact hliteral (by decide) _
  | identifier =>
    refine .advance ?_ fun _ _ => .pure _
    rw [hkind]
    decide
  | leftParen =>
    exact hpass (by decide) fun s' hs' => block_advances hinner hs' hbound hbound' _
  | keyword word =>
    cases word with
    | true | false | null => exact hliteral (by decide) _
    | «if» => exact hpass (by decide) fun s' hs' => choice_advances hinner hs' hbound hbound' _
    | «for» => exact hpass (by decide) fun s' hs' => forLoop_advances hinner hs' _
    | «while» => exact hpass (by decide) fun s' hs' => whileLoop_advances hinner hs' _
    | «fun» => exact hpass (by decide) fun s' hs' => function_advances hinner hs' hbound hbound' _
    | struct => exact hpass (by decide) fun s' hs' => struct_advances hs' hbound hbound' _
    | «return» => exact hpass (by decide) fun s' hs' => returning_advances hinner hs' _
    | _ => exact hfail (by decide) (by decide)
  | _ => exact hfail (by decide) (by decide)

theorem call_advances :
    Advances (s.current.kind ∈ atomBeginnings) 1 (call recur bound) (call recur' bound') s := by
  refine (atom_advances hinner hlength hbound hbound').bind fun e s₁ h₁ => ?_
  have hlength₁ := h₁.length_le
  refine (members_advances (by omega) (by omega) e).bind_zero fun callee s₂ h₂ => ?_
  have hlength₂ := h₂.length_le
  refine .accept (by decide) (fun s₃ h₃ => ?_) (.pure _)
  have hlength₃ := h₃.length_le
  refine ((parenthesized_advances (n := n) (fun _ s hs => argument_advances hinner hs) ?_ hbound
    hbound' (by decide)).bind fun arguments s₄ h₄ => ?_).zero
  · omega
  · have hlength₄ := h₄.length_le
    exact members_advances (by omega) (by omega) _

theorem power_advances :
    Advances (s.current.kind ∈ atomBeginnings) 1 (power recur bound) (power recur' bound') s := by
  refine (call_advances hinner hlength hbound hbound').bind fun base s₁ h₁ => .current ?_
  have hlength₁ := h₁.length_le
  split
  · next hpower =>
    refine (Advances.advance ?_ fun s₂ h₂ => ?_).zero
    · rw [hpower]
      decide
    · have hlength₂ := h₂.length_le
      exact ((hinner.reading .factor (by omega)).map).zero
  · exact .pure _

theorem factor_advances :
    Advances (s.current.kind ∈ Nonterminal.factor.beginnings) 1 (factor recur bound)
      (factor recur' bound') s := by
  refine .current ?_
  cases hsign : signOperator? s.current.kind with
  | some operator =>
    refine .advance ?_ fun s₁ h₁ => ?_
    · intro heq
      rw [heq] at hsign
      cases hsign
    · have hlength₁ := h₁.length_le
      exact ((hinner.reading .factor (by omega)).map).zero
  | none =>
    refine (power_advances hinner hlength hbound hbound').mono (fun hmem => ?_) (Nat.le_refl 1)
    refine (List.mem_append.1 hmem).resolve_left fun hmem => ?_
    generalize s.current.kind = k at hmem hsign
    simp only [List.mem_cons, List.not_mem_nil, or_false] at hmem
    rcases hmem with rfl | rfl <;> cases hsign

theorem term_advances :
    Advances (s.current.kind ∈ Nonterminal.term.beginnings) 1 (term recur bound)
      (term recur' bound') s :=
  operands_advances (fun s => s.current.kind ∈ Nonterminal.factor.beginnings) rfl
    (fun _ hs => factor_advances hinner hs hbound hbound') hlength hbound hbound'

theorem arithmetic_advances :
    Advances (s.current.kind ∈ Nonterminal.arithmetic.beginnings) 1 (arithmetic recur bound)
      (arithmetic recur' bound') s :=
  operands_advances (fun s => s.current.kind ∈ Nonterminal.term.beginnings) rfl
    (fun _ hs => term_advances hinner hs hbound hbound') hlength hbound hbound'

theorem comparison_advances :
    Advances (s.current.kind ∈ Nonterminal.comparison.beginnings) 1 (comparison recur bound)
      (comparison recur' bound') s := by
  refine .current ?_
  split
  · next hnot =>
    refine .advance ?_ fun s₁ h₁ => ?_
    · rw [hnot]
      decide
    · have hlength₁ := h₁.length_le
      exact ((hinner.reading .comparison (by omega)).map).zero
  · next hnot =>
    have hfirst : Advances (s.current.kind ∈ Nonterminal.comparison.beginnings) 1
        (arithmetic recur bound) (arithmetic recur' bound') s :=
      (arithmetic_advances hinner hlength hbound hbound').mono
        (fun hmem => (List.mem_cons.1 hmem).resolve_left hnot) (Nat.le_refl 1)
    refine hfirst.bind fun left s₁ h₁ => .current ?_
    have hlength₁ := h₁.length_le
    split
    · next operator hoperator =>
      refine (Advances.advance ?_ fun s₂ h₂ => ?_).zero
      · intro heq
        rw [heq] at hoperator
        cases hoperator
      · have hlength₂ := h₂.length_le
        have hright := arithmetic_advances hinner (s := s₂) (by omega) hbound hbound'
        exact (hright.mono False.elim (Nat.le_refl 1)).map.zero
    · exact .pure _

theorem expression_advances :
    Advances (s.current.kind ∈ Nonterminal.expression.beginnings) 1 (expression recur bound)
      (expression recur' bound') s := by
  refine .current ?_
  split
  · next hset =>
    refine .advance ?_ fun s₁ h₁ => ?_
    · rw [hset]
      decide
    · have hlength₁ := h₁.length_le
      exact assignment_advances hinner (by omega) hbound hbound' _
  · next hset =>
    refine Advances.mono ?_ (fun hmem => (List.mem_cons.1 hmem).resolve_left hset) (Nat.le_refl 1)
    exact operands_advances (fun s => s.current.kind ∈ Nonterminal.comparison.beginnings) rfl
      (fun _ hs => comparison_advances hinner hs hbound hbound') hlength hbound hbound'

/-- A phrase of any level advances, and passes a token unless no such phrase begins. -/
theorem step_advances (level : Level) :
    Advances (s.current.kind ∈ level.nonterminal.beginnings) 1 (step recur bound level)
      (step recur' bound' level) s := by
  cases level with
  | expression => exact expression_advances hinner hlength hbound hbound'
  | comparison => exact comparison_advances hinner hlength hbound hbound'
  | factor => exact factor_advances hinner hlength hbound hbound'

end Inner

/-- Phrases advance, and the bound does not matter if there are fewer tokens. -/
theorem phrase_advances (hbound : s.rest.length < bound) (hbound' : s.rest.length < bound')
    (level : Level) :
    Advances (s.current.kind ∈ level.nonterminal.beginnings) 1 (phrase bound level)
      (phrase bound' level) s := by
  induction bound generalizing bound' s level with
  | zero => exact absurd hbound (Nat.not_lt_zero _)
  | succ bound ih =>
    cases bound' with
    | zero => exact absurd hbound' (Nat.not_lt_zero _)
    | succ bound' =>
      have hinner : AdvancesInner s.rest.length (phrase bound) (phrase bound') :=
        fun inner s' hlt => ih (by omega) (by omega) inner
      exact step_advances hinner (Nat.le_refl _) (by omega) (by omega) level

/-! ### Tokens with which no expression begins -/

/-- A parser fails at once, without passing a token, where it expects an expression. -/
def Refuses (p : Parser Expr) (s : TokenStream) : Prop :=
  p s = .error ⟨.expression, s.current⟩ s

/-- A parser refuses a token if its first part does. -/
theorem Refuses.bind {p : Parser Expr} (h : Refuses p s) (f : Expr → Parser Expr) :
    Refuses (p >>= f) s :=
  bind_eq_error.2 (.inl h)

theorem atom_refuses (hkind : s.current.kind ∉ atomBeginnings) : Refuses (atom recur bound) s := by
  have hcurrent {f : Token → Parser Expr} (h : Refuses (f s.current) s) :
      Refuses (current >>= f) s := h
  refine hcurrent ?_
  generalize s.current.kind = k at hkind
  cases k with
  | keyword word => cases word <;> first | rfl | exact absurd (by decide) hkind
  | _ => first | rfl | exact absurd (by decide) hkind

theorem factor_refuses (hkind : s.current.kind ∉ Nonterminal.factor.beginnings) :
    Refuses (factor recur bound) s := by
  have hatom : s.current.kind ∉ atomBeginnings := fun h => hkind (List.mem_append_right _ h)
  have hsign : signOperator? s.current.kind = none := by
    cases hsign : signOperator? s.current.kind with
    | none => rfl
    | some operator =>
      have hmem := (signOperator?_eq_some.1 hsign).mem
      exact absurd (List.mem_append_left _ hmem) hkind
  have hpower : factor recur bound s = power recur bound s := by
    have hcurrent (f : Token → Parser Expr) : (current >>= f) s = f s.current s := rfl
    rw [factor, hcurrent, hsign]
  exact hpower.trans (((atom_refuses hatom).bind _).bind _)

theorem expression_refuses (hkind : s.current.kind ∉ Nonterminal.expression.beginnings) :
    Refuses (expression recur bound) s := by
  have hset : s.current.kind ≠ .keyword .set := fun h => hkind (h ▸ by decide)
  have hnot : s.current.kind ≠ .keyword .not := fun h => hkind (h ▸ by decide)
  have hfactor : s.current.kind ∉ Nonterminal.factor.beginnings := fun h =>
    hkind (List.mem_cons_of_mem _ (List.mem_cons_of_mem _ h))
  have hsum : Refuses (arithmetic recur bound) s := ((factor_refuses hfactor).bind _).bind _
  have hcomparison : Refuses (comparison recur bound) s := by
    change (if s.current.kind = .keyword .not then _ else _ : Parser Expr) s = _
    rw [if_neg hnot]
    exact hsum.bind _
  change (if s.current.kind = .keyword .set then _ else _ : Parser Expr) s = _
  rw [if_neg hset]
  exact hcomparison.bind _

end Levels

/-! ### Phrases, however long -/

/-- Reads a phrase from any stream. -/
def reading (level : Level) : Parser Expr :=
  fun s => phrase (s.rest.length + 1) level s

/-- Any bound that exceeds the number of tokens gives this phrase. -/
theorem phrase_eq_reading {s : TokenStream} {bound : Nat} (hbound : s.rest.length < bound)
    (level : Level) : phrase bound level s = reading level s :=
  (phrase_advances hbound (Nat.lt_succ_self _) level).same

/-- A phrase is read by recursion on phrases of fewer tokens.  How others would be read does not
matter, and neither does the bound on the rounds of loops. -/
theorem step_eq_reading {s : TokenStream} {recur : Level → Parser Expr} {bound : Nat}
    (hbound : s.rest.length ≤ bound)
    (hrecur : ∀ level (s' : TokenStream), s'.rest.length < s.rest.length →
      recur level s' = reading level s') (level : Level) :
    step recur bound level s = reading level s := by
  have hinner : AdvancesInner s.rest.length recur (phrase s.rest.length) := by
    intro level s' hlt
    refine .of_eq ?_ (phrase_advances hlt hlt level)
    rw [hrecur level s' hlt, phrase_eq_reading hlt]
  exact (step_advances hinner (Nat.le_refl _) hbound (Nat.le_refl _) level).same

end Phrase

/-! ### Programs -/

namespace Program

variable {s : TokenStream} {bound bound' rounds rounds' : Nat}

/-- The expressions of a program advance, and the bounds do not matter. -/
theorem items_advances (hbound : s.rest.length < bound) (hbound' : s.rest.length < bound')
    (hrounds : s.rest.length < rounds) (hrounds' : s.rest.length < rounds') (read : List Expr) :
    Advances False 0 (items bound rounds read) (items bound' rounds' read) s := by
  induction rounds generalizing rounds' s read with
  | zero => exact absurd hrounds (Nat.not_lt_zero _)
  | succ rounds ih =>
    cases rounds' with
    | zero => exact absurd hrounds' (Nat.not_lt_zero _)
    | succ rounds' =>
      rw [items, items]
      refine .isAt ?_
      split
      · exact .pure _
      · have hitem := Phrase.phrase_advances hbound hbound' .expression
        refine ((hitem.mono False.elim (Nat.le_refl 1)).bind fun item s₁ h₁ => ?_).zero
        have hlength₁ := h₁.length_le
        exact ih (by omega) (by omega) (by omega) (by omega) (item :: read)

/-- A program advances, and its bounds may be replaced by others that exceed the number of tokens.
-/
theorem parse_advances (hbound : s.rest.length < bound) (hrounds : s.rest.length < rounds) :
    Advances False 0 parse (do return .block (← items bound rounds []) s.current.first) s := by
  have hlt := Nat.lt_succ_self s.rest.length
  refine .of_eq ?_ ((items_advances hlt hbound hlt hrounds []).bind_zero fun es _ _ => .pure _)
  rfl

/-- What is left of a stream when a program has been read, or the reading has failed. -/
def left (s : TokenStream) : TokenStream :=
  match parse s with
  | .ok _ s' | .error _ s' => s'

/-- What is left is the rest of the same stream. -/
theorem ahead_left (s : TokenStream) : Ahead 0 s (left s) := by
  have hlt := Nat.lt_succ_self s.rest.length
  have hadvances := parse_advances hlt hlt
  unfold left
  split
  · next hparse => exact hadvances.result hparse
  · next hparse => exact (hadvances.failure hparse).1

/-- The program that a stream begins with, or the failure. -/
def outcome (s : TokenStream) : Except SyntaxError Expr :=
  match parse s with
  | .ok program _ => .ok program
  | .error e _ => .error e

/-- To read programs repeatedly is to read each of them where the reading before it has stopped. -/
theorem parseRepeatedly_eq (attempts : Nat) (s : TokenStream) :
    parseRepeatedly attempts s = (List.range attempts).map fun n => outcome (left^[n] s) := by
  induction attempts generalizing s with
  | zero => rfl
  | succ attempts ih =>
    have hfirst : parseRepeatedly (attempts + 1) s =
        outcome s :: parseRepeatedly attempts (left s) := by
      rw [parseRepeatedly, outcome, left]
      cases parse s <;> rfl
    rw [hfirst, ih, List.range_succ_eq_map, List.map_cons, List.map_map]
    rfl

end Program

/-! ### Places in a list of tokens -/

namespace TokenStream

variable {tokens : List Token} {i k : Nat} {s s' : TokenStream}

/-- The stream `s` has come to the index `i` of the completed list of tokens, which is not behind
the first end of the input, and the token there is the next one.  Of the end of the input only the
kind and the place are kept. -/
structure StandsAt (tokens : List Token) (i : Nat) (s : TokenStream) : Prop where
  lt_length : i < (completed tokens).length
  le_findIdx : i ≤ (completed tokens).findIdx fun t => t.kind = .endOfInput
  next : ∃ t, (completed tokens)[i]? = some t ∧ s.current.kind = t.kind ∧ s.current.first = t.first
  rest_eq : s.rest = (ofTokens tokens).rest.drop i
  finish_eq : s.finish = (ofTokens tokens).finish

/-- The stream holds the tokens before the first end of the input. -/
theorem findIdx_completed (tokens : List Token) :
    (completed tokens).findIdx (fun t => t.kind = .endOfInput) =
      (ofTokens tokens).rest.length ∧
    (ofTokens tokens).rest.length < (completed tokens).length := by
  obtain ⟨front, stop, tail, hcompleted, hfront, hstop, hstream⟩ := exists_completed tokens
  have hlt : front.length < (completed tokens).length := by
    rw [hcompleted, List.length_append, List.length_cons]
    omega
  rw [hstream]
  refine ⟨(List.findIdx_eq hlt).2 ⟨?_, fun j hj => ?_⟩, hlt⟩
  · simp [hcompleted, hstop]
  · have hmem : front[j] ∈ front := List.getElem_mem hj
    simpa [hcompleted, hj] using hfront _ hmem

/-- What is left of the tokens stands at the index of its first token. -/
theorem standsAt_of_le (hi : i ≤ (ofTokens tokens).rest.length) :
    StandsAt tokens i ⟨(ofTokens tokens).rest.drop i, (ofTokens tokens).finish⟩ := by
  obtain ⟨hfindIdx, hlt⟩ := findIdx_completed tokens
  refine ⟨Nat.lt_of_le_of_lt hi hlt, hfindIdx ▸ hi, ?_, rfl, rfl⟩
  obtain ⟨front, stop, tail, hcompleted, hfront, hstop, hstream⟩ := exists_completed tokens
  rw [hstream] at hi ⊢
  rw [hcompleted]
  rcases Nat.lt_or_eq_of_le hi with hlt | rfl
  · have hcurrent : (TokenStream.mk (front.drop i) stop.first).current = front[i] := by
      rw [current, List.drop_eq_getElem_cons hlt, List.headD_cons]
    have hlookup : (front ++ stop :: tail)[i]? = some front[i] := by
      rw [List.getElem?_append_left hlt, List.getElem?_eq_getElem hlt]
    exact ⟨front[i], hlookup, by rw [hcurrent], by rw [hcurrent]⟩
  · have hcurrent : (TokenStream.mk (front.drop front.length) stop.first).current =
        .endAt stop.first := by
      rw [current, List.drop_length, List.headD_nil]
    refine ⟨stop, by simp, ?_, ?_⟩
    · rw [hcurrent, hstop]
      rfl
    · rw [hcurrent]
      rfl

/-- The reading begins at the first token. -/
theorem standsAt_ofTokens (tokens : List Token) : StandsAt tokens 0 (ofTokens tokens) :=
  standsAt_of_le (Nat.zero_le _)

/-- The tokens that are left are those from the index on. -/
theorem StandsAt.length_add (h : StandsAt tokens i s) :
    s.rest.length + i = (ofTokens tokens).rest.length := by
  have hi := h.le_findIdx
  rw [(findIdx_completed tokens).1] at hi
  rw [h.rest_eq, List.length_drop, Nat.sub_add_cancel hi]

/-- To pass tokens is to go to a greater index. -/
theorem StandsAt.ahead (h : StandsAt tokens i s) (hahead : Ahead k s s') :
    ∃ j, i + k ≤ j ∧ StandsAt tokens j s' := by
  have hlength := h.length_add
  have hle := hahead.length_le
  let passed := s.rest.length - s'.rest.length
  have hrest : s'.rest = (ofTokens tokens).rest.drop (i + passed) := by
    rw [← List.drop_drop, ← h.rest_eq]
    exact List.suffix_iff_eq_drop.1 hahead.suffix
  have hs' : s' = ⟨(ofTokens tokens).rest.drop (i + passed), (ofTokens tokens).finish⟩ := by
    rw [← hrest, ← h.finish_eq, ← hahead.finish_eq]
  refine ⟨i + passed, by omega, ?_⟩
  rw [hs']
  exact standsAt_of_le (by omega)

end TokenStream

/-- The parser always ends and stays inside its tokens.  Phrases are read by recursion on phrases of
fewer tokens, and no loop makes more rounds than there are tokens.  From each place that a reading
has come to, a phrase is read up to a greater index, and a failure is not before that place; an
expression is refused there, with no token passed, if and only if the next token is not one with
which expressions begin.  Programs may be read from the same tokens any number of times: each
reading goes on where the one before it has stopped. -/
theorem parsing_progress (tokens : List Token) :
    (∀ (s : TokenStream) (recur : Phrase.Level → Parser Expr) (bound : Nat),
      s.rest.length ≤ bound →
      (∀ level (s' : TokenStream), s'.rest.length < s.rest.length →
        recur level s' = Phrase.reading level s') →
      ∀ level, Phrase.step recur bound level s = Phrase.reading level s) ∧
    (∀ (s : TokenStream) (bound rounds : Nat), s.rest.length < bound → s.rest.length < rounds →
      Program.parse s =
        (do return .block (← Program.items bound rounds []) s.current.first : Parser Expr) s) ∧
    (∀ i s, StandsAt tokens i s →
      (∀ level e s', Phrase.reading level s = .ok e s' → ∃ j, i < j ∧ StandsAt tokens j s') ∧
      (∀ level e s', Phrase.reading level s = .error e s' → ∃ j, i ≤ j ∧ StandsAt tokens j s') ∧
      (Phrase.startsExpression s.current.kind → ∀ e s',
        Phrase.reading .expression s = .error e s' → e.expected = .expression →
          e.found = s'.current ∧ ∃ j, i < j ∧ StandsAt tokens j s') ∧
      (¬ Phrase.startsExpression s.current.kind →
        Phrase.reading .expression s = .error ⟨.expression, s.current⟩ s)) ∧
    (∀ attempts, parseRepeatedly attempts (ofTokens tokens) =
      (List.range attempts).map fun n => Program.outcome (Program.left^[n] (ofTokens tokens))) ∧
    ∃ index : Nat → Nat, index 0 = 0 ∧ Monotone index ∧
      ∀ n, StandsAt tokens (index n) (Program.left^[n] (ofTokens tokens)) := by
  refine ⟨fun s recur bound hbound hrecur level => Phrase.step_eq_reading hbound hrecur level,
    fun s bound rounds hbound hrounds => (Program.parse_advances hbound hrounds).same,
    fun i s hs => ?_, fun attempts => Program.parseRepeatedly_eq attempts _, ?_⟩
  · have hlt := Nat.lt_succ_self s.rest.length
    have hadvances := Phrase.phrase_advances hlt hlt
    refine ⟨fun level e s' hok => ?_, fun level e s' hfail => ?_,
      fun hstart e s' hfail hexpected => ?_, fun hstart => ?_⟩
    · exact hs.ahead ((hadvances level).result hok)
    · exact hs.ahead ((hadvances level).failure hfail).1
    · obtain ⟨-, hjustified, hfirst⟩ := (hadvances .expression).failure hfail
      rw [Justified, hexpected] at hjustified
      exact ⟨hjustified.1, hs.ahead (hfirst (Phrase.startsExpression_iff.1 hstart) hexpected)⟩
    · exact Phrase.expression_refuses fun h => hstart (Phrase.startsExpression_iff.2 h)
  · have hstands (n : Nat) : ∃ i, StandsAt tokens i (Program.left^[n] (ofTokens tokens)) := by
      induction n with
      | zero => exact ⟨0, standsAt_ofTokens tokens⟩
      | succ n ih =>
        obtain ⟨i, hi⟩ := ih
        obtain ⟨j, -, hj⟩ := hi.ahead (Program.ahead_left _)
        rw [Function.iterate_succ_apply']
        exact ⟨j, hj⟩
    choose index hindex using hstands
    have hlength (n : Nat) := (hindex n).length_add
    refine ⟨index, ?_, monotone_nat_of_le_succ fun n => ?_, hindex⟩
    · have hzero := hlength 0
      rw [Function.iterate_zero_apply] at hzero
      omega
    · have hn := hlength n
      have hsucc := hlength (n + 1)
      have hle := (Program.ahead_left (Program.left^[n] (ofTokens tokens))).length_le
      rw [Function.iterate_succ_apply'] at hsucc
      omega

end SnapshotScript
