import SnapshotScript.Proofs.Grammar.Breaking.Levels

/-!
# Errors at the first impossible token

The token that a syntax error reports is the first one with which no program can go on: the tokens
before it are the beginning of some program, but no program begins with them and that token.
-/

namespace SnapshotScript

open SnapshotScript.Grammar SnapshotScript.Parser

/-! ### The end of the input -/

namespace TokenStream

/-- The tokens with the end of the input, which is added unless it is the last of them. -/
def completed (tokens : List Token) : List Token :=
  if tokens.getLast?.map Token.kind = some .endOfInput then tokens
  else tokens ++ [.endAt ((tokens.getLast?.map Token.last).getD .start)]

variable {tokens front : List Token} {stop : Token}

/-- Tokens in front of the end of the input are in the stream. -/
theorem rest_ofTokens_append (hfront : Unended front) (tail : List Token) :
    (ofTokens (front ++ tail)).rest = front ++ (ofTokens tail).rest :=
  List.takeWhile_append_of_pos fun t ht => decide_eq_true (hfront t ht)

/-- The stream ends where the first end of the input is. -/
theorem ofTokens_append_cons (hfront : Unended front) (hstop : stop.kind = .endOfInput)
    (tail : List Token) :
    ofTokens (front ++ stop :: tail) = ⟨front, stop.first⟩ := by
  have hrest : (ofTokens (front ++ stop :: tail)).rest = front := by
    rw [rest_ofTokens_append hfront]
    simp [ofTokens, hstop]
  have hnone : front.find? (fun t => decide (t.kind = .endOfInput)) = none :=
    List.find?_eq_none.2 fun t ht => by simpa using hfront t ht
  have hfinish : (ofTokens (front ++ stop :: tail)).finish = stop.first := by
    simp [ofTokens, List.find?_append, hnone, hstop]
  exact congrArg₂ TokenStream.mk hrest hfinish

/-- The tokens of the stream are those before the first end of the input. -/
theorem exists_completed (tokens : List Token) : ∃ front stop tail,
    completed tokens = front ++ stop :: tail ∧ Unended front ∧ stop.kind = .endOfInput ∧
      ofTokens tokens = ⟨front, stop.first⟩ := by
  cases hfind : tokens.find? (fun t => decide (t.kind = .endOfInput)) with
  | some stop =>
    obtain ⟨hstop, front, tail, rfl, hfront⟩ := List.find?_eq_some_iff_append.1 hfind
    replace hstop := of_decide_eq_true hstop
    replace hfront : Unended front := fun t ht => by simpa using hfront t ht
    have hstream := ofTokens_append_cons hfront hstop tail
    unfold completed
    split
    · exact ⟨front, stop, tail, rfl, hfront, hstop, hstream⟩
    · exact ⟨front, stop, tail ++ [_], List.append_assoc .., hfront, hstop, hstream⟩
  | none =>
    have hall : Unended tokens := fun t ht => by simpa using List.find?_eq_none.1 hfind t ht
    have hlast : tokens.getLast?.map Token.kind ≠ some .endOfInput := by
      intro hlast
      obtain ⟨t, ht, hkind⟩ := Option.map_eq_some_iff.1 hlast
      exact hall t (List.mem_of_getLast? ht) hkind
    have hrest : (ofTokens tokens).rest = tokens := by
      have happend := rest_ofTokens_append hall []
      rwa [List.append_nil, show (ofTokens []).rest = [] from rfl, List.append_nil] at happend
    refine ⟨tokens, _, [], if_neg hlast, hall, rfl, congrArg₂ TokenStream.mk hrest ?_⟩
    rw [hfind]
    rfl

/-- To add the end of the input leaves the stream as it is. -/
theorem ofTokens_completed (tokens : List Token) :
    ofTokens (completed tokens) = ofTokens tokens := by
  obtain ⟨front, stop, tail, hcompleted, hfront, hstop, hstream⟩ := exists_completed tokens
  rw [hcompleted, ofTokens_append_cons hfront hstop, hstream]

end TokenStream

/-! ### Programs -/

namespace Program

variable {finish finish' : Position} {n bound bound' rounds rounds' : Nat} {ts : List Token}
  {e : SyntaxError} {s : TokenStream}

/-- The expressions of a program break at the first token that continues none of them and begins
none. -/
theorem items_breaks (finish finish' : Position) (hbound : bound ≤ bound') (hlt : ts.length < bound)
    (hrounds : ts.length < rounds) (hle : rounds ≤ rounds') (hn : n ≤ rounds') (hn' : n ≤ bound')
    (read : List Expr) :
    Breaks finish finish' n (items bound rounds read) (items bound' rounds' read) ts
      (Continues Items) := by
  induction rounds generalizing ts read rounds' n with
  | zero => exact absurd hrounds (Nat.not_lt_zero _)
  | succ rounds ih =>
    cases rounds' with
    | zero => exact absurd hle (Nat.not_succ_le_zero _)
    | succ rounds' =>
      rw [items, items]
      refine .isAt ?_
      by_cases hend : next ts = .endOfInput
      · rw [hend, beq_self_eq_true, if_pos rfl]
        exact .pure _
      · rw [beq_false_of_ne hend, if_neg Bool.false_ne_true, if_neg Bool.false_ne_true]
        refine (phrase_recognizes finish finish' hbound).item_breaks hlt hn' fun e mid hmid =>
          ih ?_ ?_ ?_ ?_ ?_ (e :: read)
        all_goals omega

/-- A program fails if its expressions do. -/
theorem parse_eq_error : parse ⟨ts, finish⟩ = .error e s ↔
    items (ts.length + 1) (ts.length + 1) [] ⟨ts, finish⟩ = .error e s := by
  have hparse : parse ⟨ts, finish⟩ = (do
      let es ← items (ts.length + 1) (ts.length + 1) []
      return .block es (TokenStream.mk ts finish).current.first : Parser Expr) ⟨ts, finish⟩ := rfl
  rw [hparse, bind_eq_error]
  refine or_iff_left ?_
  rintro ⟨es, mid, -, h⟩
  cases h

/-- To allow more rounds and more nesting does not change the failure. -/
theorem parse_eq_error_of_le (hle : ts.length + 1 ≤ bound)
    (h : items bound bound [] ⟨ts, finish⟩ = .error e s) :
    ∃ s', parse ⟨ts, finish⟩ = .error e s' := by
  have hlt := Nat.lt_succ_self ts.length
  simp only [parse_eq_error]
  cases hitems : items (ts.length + 1) (ts.length + 1) [] ⟨ts, finish⟩ with
  | ok es s' =>
    obtain ⟨rest, -, hes⟩ := (items_reads hlt hlt [] es s').1 hitems
    rw [(items_reads hle hle []).eq_ok hes] at h
    cases h
  | error e' s' =>
    obtain ⟨used, rest, hsplit, -, -, hagain⟩ :=
      items_breaks finish finish hle hlt hlt hle (Nat.le_refl _) (Nat.le_refl _) [] e' s' hitems
    rw [hsplit] at hle h
    obtain ⟨s'', h'⟩ := hagain rest rfl (fun _ => rfl) hle
    rw [h] at h'
    cases h'
    exact ⟨s', rfl⟩

/-- Each failure is settled by the tokens up to the one that it reports: there is a program that
begins with those before it, and none that begins with them and that one. -/
theorem parse_settled (h : parse ⟨ts, finish⟩ = .error e s) : ∃ used rest, ts = used ++ rest ∧
    Reported finish e s rest ∧ Continues Items used ∧
      ∀ finish' rest', rest'.head? = rest.head? → (rest = [] → finish' = finish) →
        ∃ s', parse ⟨used ++ rest', finish'⟩ = .error e s' := by
  have hlt := Nat.lt_succ_self ts.length
  have hsettled (finish' : Position) (bound : Nat) (hle : ts.length + 1 ≤ bound) :=
    items_breaks finish finish' hle hlt hlt hle (Nat.le_refl _) (Nat.le_refl _) [] e s
      (parse_eq_error.1 h)
  obtain ⟨used, rest, hsplit, hreported, hused, -⟩ := hsettled finish _ (Nat.le_refl _)
  refine ⟨used, rest, hsplit, hreported, hused, fun finish' rest' hhead hfinish => ?_⟩
  -- The tokens are split in the same way whatever the other list is.
  obtain ⟨used', rest₁, hsplit', hreported', -, hagain⟩ :=
    hsettled finish' (max (ts.length + 1) ((used ++ rest').length + 1)) (Nat.le_max_left ..)
  obtain ⟨rfl, rfl⟩ := List.append_inj' (hsplit.symm.trans hsplit')
    (hreported.length_eq.trans hreported'.length_eq.symm)
  obtain ⟨s', h'⟩ := hagain rest' hhead hfinish (Nat.le_max_right ..)
  exact parse_eq_error_of_le (Nat.le_max_right ..) h'

/-- The index of the token that the error `e` reports if the reading has stopped at `s`. -/
def reportedIndex (tokens : List Token) (e : SyntaxError) (s : TokenStream) : Nat :=
  (TokenStream.ofTokens tokens).rest.length - (s.rest.length + e.expected.passed)

end Program

open TokenStream (completed ofTokens)

variable {tokens : List Token} {e : SyntaxError}

/-- Reading a list of tokens fails if reading the stream of those tokens does. -/
theorem parseTokens_eq_error :
    parseTokens tokens = .error e ↔ ∃ s, Program.parse (ofTokens tokens) = .error e s := by
  unfold parseTokens
  split
  · next h => simp [h]
  · next e' s h => simp [h]

/-- A beginning of a program can be completed to one. -/
theorem exists_parseTokens {used : List Token} (hused : Unended used) (h : Viable Items used) :
    ∃ more program, parseTokens (used ++ more) = .ok program := by
  obtain ⟨more, hmore, h⟩ := h
  obtain ⟨es, hes⟩ := h [] (by decide)
  have hall : Unended (used ++ more) := List.forall_mem_append.2 ⟨hused, hmore⟩
  refine ⟨more, _, parseTokens_of_derived ⟨es, ?_, rfl⟩⟩
  rw [List.takeWhile_eq_self_iff.2 fun t ht => decide_eq_true (hall t ht)]
  simpa using hes

/-- Lists that agree up to and including one token begin with the same tokens. -/
theorem eq_append_cons_of_take_eq {used tail ts : List Token} {t : Token}
    (h : ts.take (used.length + 1) = (used ++ t :: tail).take (used.length + 1)) :
    ∃ tail', ts = used ++ t :: tail' := by
  refine ⟨ts.drop (used.length + 1), ?_⟩
  have htake : (used ++ t :: tail).take (used.length + 1) = used ++ [t] := by
    simp [List.take_append]
  calc ts = ts.take (used.length + 1) ++ ts.drop (used.length + 1) :=
        (List.take_append_drop ..).symm
    _ = used ++ t :: ts.drop (used.length + 1) := by
        rw [h, htake, List.append_assoc, List.singleton_append]

/-- The error is at the first token with which no program can go on.  It reports the token at the
index `k` of the completed list.  Each list that agrees with this one up to that token, inclusive,
fails with the same error, and some program begins with the tokens before it.  There is only one
such index, since for a greater one no program would begin with the tokens before it. -/
theorem error_at_first_impossible_token {s : TokenStream}
    (h : Program.parse (ofTokens tokens) = .error e s) :
    let k := Program.reportedIndex tokens e s
    (∃ t, (completed tokens)[k]? = some t ∧ e.found.display = t.display ∧ e.position = t.first) ∧
      (∀ others, (completed others).take (k + 1) = (completed tokens).take (k + 1) →
        parseTokens others = .error e) ∧
      ∃ more program, parseTokens ((completed tokens).take k ++ more) = .ok program := by
  intro k
  obtain ⟨front, stop, tail, hcompleted, hfront, hstop, hstream⟩ :=
    TokenStream.exists_completed tokens
  rw [hstream] at h
  obtain ⟨used, rest, rfl, hreported, hused, hagain⟩ := Program.parse_settled h
  obtain ⟨hunended, hrest⟩ := List.forall_mem_append.1 hfront
  have hk : k = used.length := by
    change (ofTokens tokens).rest.length - _ = _
    rw [hstream, ← hreported.length_eq, List.length_append, Nat.add_sub_cancel]
  rw [hk]
  -- The reported token is the end of the input if all tokens before it are used up.
  cases rest with
  | nil =>
    rw [List.append_nil] at hcompleted
    refine ⟨⟨stop, by simp [hcompleted], ?_, ?_⟩, fun others hothers => ?_, ?_⟩
    · rw [hreported.found, Token.display, Token.display, hstop]
      rfl
    · rw [SyntaxError.position, hreported.found]
      rfl
    · obtain ⟨tail', hothers⟩ := eq_append_cons_of_take_eq (hcompleted ▸ hothers)
      rw [parseTokens_eq_error, ← TokenStream.ofTokens_completed, hothers,
        TokenStream.ofTokens_append_cons hunended hstop]
      simpa using hagain stop.first [] rfl fun _ => rfl
    · rw [hcompleted, List.take_left]
      exact exists_parseTokens hunended hused.viable
  | cons t rest =>
    rw [List.append_assoc, List.cons_append] at hcompleted
    refine ⟨⟨t, by simp [hcompleted], ?_, ?_⟩, fun others hothers => ?_, ?_⟩
    · rw [hreported.found]
      rfl
    · rw [SyntaxError.position, hreported.found]
      rfl
    · obtain ⟨tail', hothers⟩ := eq_append_cons_of_take_eq (hcompleted ▸ hothers)
      obtain ⟨ht, -⟩ := List.forall_mem_cons.1 hrest
      have hstream' : (ofTokens others).rest = used ++ t :: (ofTokens tail').rest := by
        rw [← TokenStream.ofTokens_completed, hothers, TokenStream.rest_ofTokens_append hunended,
          ← List.singleton_append,
          TokenStream.rest_ofTokens_append (List.forall_mem_singleton.2 ht)]
        rfl
      rw [parseTokens_eq_error]
      have hfail := hagain (ofTokens others).finish (t :: (ofTokens tail').rest) rfl nofun
      rwa [← hstream'] at hfail
    · rw [hcompleted, List.take_left]
      exact exists_parseTokens hunended hused.viable

/-- A function whose second parameter has the name of the first. -/
def repeatedParameter : List Token :=
  [sample (.keyword .fun), sample .leftParen, Phrase.identifier "a", sample .comma,
    Phrase.identifier "a", sample .rightParen, sample .arrow, Phrase.identifier "a"]

/-- The second name is refused, whatever comes behind it, and another one could stand there. -/
theorem error_at_repeated_parameter :
    let e : SyntaxError := ⟨.uniqueParameter, Phrase.identifier "a"⟩
    let s : TokenStream := ⟨repeatedParameter.drop 5, .start⟩
    Program.parse (ofTokens repeatedParameter) = .error e s ∧
      Program.reportedIndex repeatedParameter e s = 4 ∧
      (∀ others, (completed others).take 5 = (completed repeatedParameter).take 5 →
        parseTokens others = .error e) ∧
      ∃ more program, parseTokens ((completed repeatedParameter).take 4 ++ more) = .ok program := by
  intro e s
  have hparse : Program.parse (ofTokens repeatedParameter) = .error e s := by rfl
  exact ⟨hparse, by decide, (error_at_first_impossible_token hparse).2⟩

end SnapshotScript
