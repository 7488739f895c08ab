import SnapshotScript.Proofs.Grammar.Pieces

/-!
# Parsers of single productions

Assignments, calls, blocks and the constructs that begin with a word are read as they are derived,
provided that the phrases inside them are.
-/

namespace SnapshotScript

open SnapshotScript.Grammar SnapshotScript.Parser

/-! ### Rows of expressions -/

section Rows

variable {finish : Position} {ts : List Token} {read : List Expr}

/-- A row of expressions ends before a token at which it stops. -/
theorem Parser.Reads.items_end (stop : Token.Kind → Prop) (hstop : stop (next ts))
    (hnone : ∀ e rest, Derives .expression ts e rest → ¬stop (next ts)) :
    Reads finish (Pure.pure read.reverse) ts fun es rest =>
      ∃ new, Items ts new rest ∧ stop (next rest) ∧ es = read.reverse ++ new := by
  refine (Reads.pure _).congr fun es rest => ?_
  constructor
  · rintro ⟨rfl, rfl⟩
    exact ⟨[], .done, hstop, (List.append_nil _).symm⟩
  · rintro ⟨new, hnew, -, rfl⟩
    cases hnew with
    | done => exact ⟨List.append_nil _, rfl⟩
    | more h _ => exact absurd hstop (hnone _ _ h)

/-- Before any other token a row goes on with an expression. -/
theorem Parser.Reads.items_more (stop : Token.Kind → Prop) (hgoes : ¬stop (next ts))
    {p : Parser Expr} {f : Expr → Parser (List Expr)}
    (hp : Reads finish p ts (Derives .expression ts))
    (hf : ∀ e mid, mid.length < ts.length → Reads finish (f e) mid fun es rest =>
      ∃ new, Items mid new rest ∧ stop (next rest) ∧ es = (e :: read).reverse ++ new) :
    Reads finish (p >>= f) ts fun es rest =>
      ∃ new, Items ts new rest ∧ stop (next rest) ∧ es = read.reverse ++ new := by
  refine (hp.bind fun e mid h => hf e mid h.behind.length_lt).congr fun es rest => ?_
  constructor
  · rintro ⟨e, mid, h, new, hnew, hstop, rfl⟩
    exact ⟨e :: new, .more h hnew, hstop, by simp⟩
  · rintro ⟨new, hnew, hstop, rfl⟩
    cases hnew with
    | done => exact absurd hstop hgoes
    | more h hnew => exact ⟨_, _, h, _, hnew, hstop, by simp⟩

end Rows

namespace Phrase

/-- The phrases of a level that occurs inside others. -/
def Level.nonterminal : Level → Nonterminal
  | .expression => .expression
  | .comparison => .comparison
  | .factor => .factor

/-- Inner phrases are read as they are derived from fewer than `bound` tokens. -/
def ReadsInner (finish : Position) (recur : Level → Parser Expr) (bound : Nat) : Prop :=
  ∀ level ts, ts.length < bound →
    Reads finish (recur level) ts (Derives level.nonterminal ts)

/-- The tree of an assignment.  The last name of the path stands first. -/
def assigned (name : Token) (path : List Token) (value : Expr) (position : Position) : Expr :=
  match path with
  | [] => .assign name.text value position
  | field :: before =>
    .memberSet (select (.identifier name.text name.first) before.reverse) field.text value position

section Phrases

variable {finish : Position} {recur : Level → Parser Expr} {bound rounds : Nat}
  {ts : List Token} {t : Token} (hinner : ReadsInner finish recur bound)

include hinner

theorem ReadsInner.expression (hlt : ts.length < bound) :
    Reads finish (recur .expression) ts (Derives .expression ts) :=
  hinner .expression ts hlt

/-- An inner expression is read, then a token, and then what comes behind it. -/
theorem ReadsInner.expression_expect {β : Type} {k : Token.Kind} {expected : Expectation}
    {f : Expr → Parser β} {S : Expr → List Token → β → List Token → Prop}
    (hk : k ≠ .endOfInput) (hlt : ts.length < bound)
    (hf : ∀ e mid, mid.length < bound → Reads finish (f e) mid (S e mid)) :
    Reads finish (do
      let e ← recur .expression
      let _ ← Parser.expect k expected
      f e) ts fun b rest => ∃ e t mid, Derives .expression ts e (t :: mid) ∧ t.kind = k ∧
        S e mid b rest := by
  refine ((hinner.expression hlt).bind fun e mid h => (Reads.expect hk expected).bind
    (S := fun _ => S e) fun t mid' h' => hf e mid' ?_).congr fun b rest => ?_
  · have := h.behind.length_lt
    rw [h'.1, List.length_cons] at this
    omega
  · constructor
    · rintro ⟨e, _, h, t, mid, ⟨rfl, hkind⟩, hS⟩
      exact ⟨e, t, mid, h, hkind, hS⟩
    · rintro ⟨e, t, mid, h, hkind, hS⟩
      exact ⟨e, _, h, t, mid, ⟨rfl, hkind⟩, hS⟩

/-! ### Assignments -/

theorem assignment_reads (hset : t.kind = .keyword .set) (hlt : ts.length < bound) :
    Reads finish (assignment recur bound t.first) ts (Derives .expression (t :: ts)) := by
  rw [assignment]
  refine ((Reads.expect (by decide) _).bind fun name mid hname =>
    (assignmentPath_reads ?_ []).bind fun path mid' hpath =>
      (Reads.expect (by decide) _).bind fun sign mid'' hsign =>
        (hinner.expression ?_).bind (S := fun value rest e rest' =>
          e = assigned name path value t.first ∧ rest' = rest)
          fun value rest _ => ?_).congr fun e rest => ?_
  · rw [hname.1, List.length_cons] at hlt
    omega
  · obtain ⟨fields, hfields, -⟩ := hpath
    have := (hfields.behind (Behind.head (t := name))).length_lt
    rw [hname.1] at hlt
    rw [hsign.1] at this
    simp only [List.length_cons] at hlt this
    omega
  · cases path with
    | nil => exact Reads.pure _
    | cons field before =>
      refine (Reads.pure _).congr fun e rest => ?_
      rw [assigned, select, ← List.foldr_reverse, List.reverse_reverse]
  · constructor
    · rintro ⟨name, mid, ⟨rfl, hname⟩, _, _, ⟨fields, hfields, rfl⟩, sign, mid', ⟨rfl, hsign⟩,
        value, _, hvalue, rfl, rfl⟩
      rw [List.append_nil]
      rcases List.eq_nil_or_concat fields with rfl | ⟨path, field, rfl⟩
      · cases hfields
        exact .assign hset hname hsign hvalue
      · rw [List.concat_eq_append, List.reverse_append, List.reverse_singleton,
          List.singleton_append, assigned, List.reverse_reverse]
        rw [List.concat_eq_append] at hfields
        exact .memberSet hset hname hfields hsign hvalue
    · intro h
      cases h with
      | assign _ hname hsign hvalue =>
        exact ⟨_, _, ⟨rfl, hname⟩, _, _, ⟨[], .done (by simp [next, hsign]), rfl⟩, _, _,
          ⟨rfl, hsign⟩, _, _, hvalue, rfl, rfl⟩
      | @memberSet _ _ _ path field _ _ _ _ _ hname hfields hsign hvalue =>
        refine ⟨_, _, ⟨rfl, hname⟩, _, _, ⟨_, hfields, rfl⟩, _, _, ⟨rfl, hsign⟩, _, _, hvalue,
          ?_, rfl⟩
        rw [List.append_nil, List.reverse_append, List.reverse_singleton, List.singleton_append,
          assigned, List.reverse_reverse]
      | logical h _ =>
        exact absurd hset (h.next_ne (by decide))

/-! ### Calls -/

/-- An argument is read as it is derived.  A name and a colon at its beginning always name it. -/
theorem argument_reads (hlt : ts.length < bound) :
    Reads finish (argument recur) ts fun a rest => DerivesArgument ts a rest ∧
      (a.name = none → ¬ (next ts = .identifier ∧ next ts.tail = .colon)) := by
  have hunnamed : ¬ (next ts = .identifier ∧ next ts.tail = .colon) →
      Reads finish (do return ⟨none, ← recur .expression⟩) ts fun a rest =>
        DerivesArgument ts a rest ∧
          (a.name = none → ¬ (next ts = .identifier ∧ next ts.tail = .colon)) := by
    intro hstart
    refine ((hinner.expression hlt).bind fun _ _ _ => Reads.pure _).congr fun a rest => ?_
    constructor
    · rintro ⟨e, mid, h, rfl, rfl⟩
      exact ⟨.unnamed h, fun _ => hstart⟩
    · rintro ⟨h, -⟩
      cases h with
      | named hname hcolon _ => exact absurd ⟨hname, hcolon⟩ hstart
      | unnamed h => exact ⟨_, _, h, rfl, rfl⟩
  rw [argument, reads_get]
  match ts, hlt, hunnamed with
  | [], _, hunnamed => exact hunnamed fun h => nomatch h.1
  | [name], _, hunnamed => exact hunnamed fun h => nomatch h.2
  | name :: colon :: ts, hlt, hunnamed =>
    dsimp only
    split
    · next hstart =>
      simp only [List.length_cons] at hlt
      refine reads_set.2 (((hinner.expression (by omega)).bind fun _ _ _ =>
        Reads.pure _).congr fun a rest => ?_)
      constructor
      · rintro ⟨e, mid, h, rfl, rfl⟩
        exact ⟨.named hstart.1 hstart.2 h, nofun⟩
      · rintro ⟨h, hnamed⟩
        cases h with
        | named _ _ h => exact ⟨_, _, h, rfl, rfl⟩
        | unnamed => exact absurd hstart (hnamed rfl)
    · next hstart => exact hunnamed hstart

omit hinner in
/-- Before a comma or a closing parenthesis an argument ends where it should. -/
theorem argument_iff_of_close {a : Argument Expr} {close : Token} {rest : List Token}
    (hclose : close.kind = .comma ∨ close.kind = .rightParen) :
    (DerivesArgument ts a (close :: rest) ∧
      (a.name = none → ¬ (next ts = .identifier ∧ next ts.tail = .colon))) ↔
        DerivesArgument ts a (close :: rest) := by
  refine and_iff_left_of_imp ?_
  rintro h hnone ⟨hname, hcolon⟩
  cases h with
  | named => cases hnone
  | unnamed h =>
    rw [← h.rest_eq_tail hname hcolon, next] at hcolon
    rcases hclose with hclose | hclose <;> simp [hcolon] at hclose

omit hinner in
/-- No argument begins with a closing parenthesis. -/
theorem argument_next_ne {a : Argument Expr} {rest : List Token} (h : DerivesArgument ts a rest) :
    next ts ≠ .rightParen := by
  intro hclose
  cases h with
  | named hname => simp [next, hname] at hclose
  | unnamed h => exact absurd hclose (h.next_ne (by decide))

theorem arguments_reads (hlt : ts.length < bound) (expected : Expectation) :
    Reads finish (parenthesized bound (fun _ => argument recur) expected) ts
      (Parenthesized DerivesArgument ts) := by
  refine (parenthesized_reads (R := DerivesArgument) (S := fun _ _ => True)
    (fun _ ts hlt => (argument_reads hinner hlt).congr fun a rest =>
      (and_iff_left fun _ _ => trivial).symm)
    (fun h => h.1.behind) argument_iff_of_close argument_next_ne hlt expected).congr
    fun arguments rest => and_iff_left (List.pairwise_of_forall fun _ _ => trivial)

/-! ### Blocks -/

/-- Items are read up to a closing parenthesis or the end of the input. -/
theorem items_reads (hlt : ts.length < bound) (hrounds : ts.length < rounds) (read : List Expr) :
    Reads finish (items recur rounds read) ts fun es rest => ∃ new, Items ts new rest ∧
      (next rest = .rightParen ∨ next rest = .endOfInput) ∧ es = read.reverse ++ new := by
  induction rounds generalizing ts read with
  | zero => exact absurd hrounds (Nat.not_lt_zero _)
  | succ rounds ih =>
    rw [items, reads_current, kind_headD]
    by_cases hend : next ts = .rightParen ∨ next ts = .endOfInput
    · rw [if_pos hend]
      refine .items_end (fun k => k = .rightParen ∨ k = .endOfInput) hend fun e rest h hstop => ?_
      rcases hstop with hstop | hstop
      · exact h.next_ne (by decide) hstop
      · exact h.next_ne (by decide) hstop
    · rw [if_neg hend]
      refine .items_more (fun k => k = .rightParen ∨ k = .endOfInput) hend (hinner.expression hlt)
        fun e mid hmid => ih ?_ ?_ (e :: read)
      all_goals omega

theorem block_reads (hlt : ts.length < bound) :
    Reads finish (block recur bound t.first) ts (Atom .leftParen t ts) := by
  refine ((items_reads hinner hlt hlt []).bind fun es mid _ =>
    (Reads.expect (by decide) _).bind (S := fun close rest e rest' =>
      (es = [e] ∨ es.length ≠ 1 ∧ e = .block es t.first) ∧ rest' = rest)
      fun close rest _ => ?_).congr fun e rest => ?_
  · match es with
    | [] => exact (Reads.pure _).congr fun e rest => by simp
    | [item] => exact (Reads.pure _).congr fun e rest => by simp [eq_comm]
    | _ :: _ :: _ => exact (Reads.pure _).congr fun e rest => by simp
  · constructor
    · rintro ⟨_, _, ⟨items, hitems, -, rfl⟩, close, mid, ⟨rfl, hclose⟩, htree, rfl⟩
      rcases htree with rfl | ⟨hlength, rfl⟩
      · exact .group hitems hclose
      · exact .block hitems hclose hlength
    · intro h
      cases h with
      | constant h => cases h
      | group hitems hclose =>
        exact ⟨_, _, ⟨_, hitems, .inl hclose, rfl⟩, _, _, ⟨rfl, hclose⟩, .inl rfl, rfl⟩
      | block hitems hclose hlength =>
        exact ⟨_, _, ⟨_, hitems, .inl hclose, rfl⟩, _, _, ⟨rfl, hclose⟩, .inr ⟨hlength, rfl⟩, rfl⟩

/-! ### Choices -/

omit hinner in
/-- A condition is an empty block just if it is a block without items. -/
theorem isEmptyBlock_iff {e : Expr} : e.isEmptyBlock ↔ ∃ position, e = .block [] position := by
  constructor
  · intro h
    unfold Expr.isEmptyBlock at h
    split at h
    · exact ⟨_, rfl⟩
    · cases h
  · rintro ⟨position, rfl⟩
    rfl

/-- The condition of a further branch.  It is missing if the next word is there at once, and counts
as missing if it is an empty block. -/
def FurtherCondition (ts : List Token) (condition : Option Expr) (rest : List Token) : Prop :=
  next ts = .keyword .then ∧ condition = none ∧ rest = ts ∨
    ∃ e, Derives .expression ts e rest ∧ condition = if e.isEmptyBlock then none else some e

omit hinner in
/-- Behind the word that follows the condition there are fewer tokens. -/
theorem FurtherCondition.length_lt {condition : Option Expr} {word : Token} {rest : List Token}
    (h : FurtherCondition ts condition (word :: rest)) : rest.length < ts.length := by
  rcases h with ⟨-, -, rfl⟩ | ⟨e, he, -⟩
  · exact Behind.head.length_lt
  · exact (Behind.head.trans he.behind).length_lt

/-- The condition of a further branch is read. -/
theorem furtherCondition_reads (hlt : ts.length < bound) :
    Reads finish (furtherCondition recur) ts (FurtherCondition ts) := by
  rw [furtherCondition, reads_isAt]
  by_cases hthen : next ts = .keyword .then
  · rw [hthen, beq_self_eq_true, if_pos rfl]
    refine (Reads.pure none).congr fun condition rest => ?_
    constructor
    · rintro ⟨rfl, rfl⟩
      exact .inl ⟨hthen, rfl, rfl⟩
    · rintro (⟨-, rfl, rfl⟩ | ⟨e, h, -⟩)
      · exact ⟨rfl, rfl⟩
      · exact absurd hthen (h.next_ne (by decide))
  · rw [beq_false_of_ne hthen, if_neg Bool.false_ne_true]
    refine ((hinner.expression hlt).bind fun _ _ _ => Reads.pure _).congr
      fun condition rest => ?_
    constructor
    · rintro ⟨e, mid, h, rfl, rfl⟩
      exact .inr ⟨e, h, rfl⟩
    · rintro (⟨hnext, -⟩ | ⟨e, h, rfl⟩)
      · exact absurd hnext hthen
      · exact ⟨e, rest, h, rfl, rfl⟩

/-- What follows the body of a further branch: nothing if its condition is missing, and further
branches otherwise. -/
inductive BehindBranch (body : Expr) (ts : List Token) :
    Option Expr → List (Branch Expr) → Option Expr → List Token → Prop
  | last : BehindBranch body ts none [] (some body) ts
  | more {condition branches otherwise rest} : Branches ts branches otherwise rest →
    BehindBranch body ts (some condition) (⟨condition, body⟩ :: branches) otherwise rest

omit hinner in
/-- A further branch has a condition, a word, a body and what follows. -/
theorem branches_iff_of_eli {word : Token} (hword : word.kind = .keyword .eli)
    {branches : List (Branch Expr)} {otherwise : Option Expr} {rest : List Token} :
    Branches (word :: ts) branches otherwise rest ↔
      ∃ condition word' mid body mid', FurtherCondition ts condition (word' :: mid) ∧
        word'.kind = .keyword .then ∧ Derives .expression mid body mid' ∧
        BehindBranch body mid' condition branches otherwise rest := by
  constructor
  · intro h
    cases h with
    | done hnext => exact absurd hword hnext
    | otherwise hel => simp [hword] at hel
    | noCondition _ hthen hbody =>
      exact ⟨none, _, _, _, _, .inl ⟨hthen, rfl, rfl⟩, hthen, hbody, .last⟩
    | emptyCondition _ he hthen hbody =>
      exact ⟨none, _, _, _, _, .inr ⟨_, he, rfl⟩, hthen, hbody, .last⟩
    | @more _ _ condition _ _ _ _ _ _ _ _ he hempty hthen hbody hmore =>
      have hnonempty : ¬condition.isEmptyBlock := fun h =>
        let ⟨position, heq⟩ := isEmptyBlock_iff.1 h
        hempty position heq
      exact ⟨some condition, _, _, _, _, .inr ⟨_, he, (if_neg hnonempty).symm⟩, hthen, hbody,
        .more hmore⟩
  · rintro ⟨condition, word', mid, body, mid', hcondition, hthen, hbody, hmore⟩
    rcases hcondition with ⟨-, rfl, rfl⟩ | ⟨e, he, hcondition⟩
    · cases hmore
      exact .noCondition hword hthen hbody
    · split at hcondition
      · next hempty =>
        obtain ⟨position, rfl⟩ := isEmptyBlock_iff.1 hempty
        subst hcondition
        cases hmore
        exact .emptyCondition hword he hthen hbody
      · next hempty =>
        subst hcondition
        cases hmore with
        | more hmore =>
          refine .more hword he (fun position heq => ?_) hthen hbody hmore
          exact hempty (isEmptyBlock_iff.2 ⟨position, heq⟩)

/-- A further branch is read, and those behind it. -/
theorem furtherBranch_reads {word : Token} (hword : word.kind = .keyword .eli)
    (hlt : ts.length < bound) (read : List (Branch Expr))
    (hmore : ∀ mid branch, mid.length < ts.length →
      Reads finish (furtherBranches recur rounds (branch :: read)) mid fun r rest =>
        ∃ new, Branches mid new r.2 rest ∧ r.1 = (branch :: read).reverse ++ new) :
    Reads finish (do
      let condition ← furtherCondition recur
      let _ ← Parser.expect (.keyword .then) .thenAfterEli
      let body ← recur .expression
      match condition with
      | some condition => furtherBranches recur rounds (⟨condition, body⟩ :: read)
      | none => return (read.reverse, some body)) ts fun r rest =>
        ∃ new, Branches (word :: ts) new r.2 rest ∧ r.1 = read.reverse ++ new := by
  refine ((furtherCondition_reads hinner hlt).bind fun condition mid hcondition =>
    (Reads.expect (by decide) _).bind fun word' mid' hthen =>
      (hinner.expression ?_).bind
        (S := fun body mid'' (r : List (Branch Expr) × Option Expr) rest =>
          ∃ new, BehindBranch body mid'' condition new r.2 rest ∧ r.1 = read.reverse ++ new)
        fun body mid'' hbody => ?_).congr fun r rest => ?_
  · obtain ⟨rfl, -⟩ := hthen
    exact Nat.lt_trans hcondition.length_lt hlt
  · obtain ⟨rfl, -⟩ := hthen
    have hlength := Nat.lt_trans hbody.behind.length_lt hcondition.length_lt
    cases condition with
    | none =>
      refine (Reads.pure _).congr fun r rest => ?_
      constructor
      · rintro ⟨rfl, rfl⟩
        exact ⟨[], .last, (List.append_nil _).symm⟩
      · obtain ⟨branches, otherwise⟩ := r
        rintro ⟨new, hnew, rfl : branches = _⟩
        cases hnew
        exact ⟨by simp, rfl⟩
    | some condition =>
      refine (hmore mid'' ⟨condition, body⟩ hlength).congr fun r rest => ?_
      constructor
      · rintro ⟨new, hnew, hbranches⟩
        exact ⟨_, .more hnew, by simpa using hbranches⟩
      · rintro ⟨new, hnew, hbranches⟩
        cases hnew with
        | more hnew => exact ⟨_, hnew, by simpa using hbranches⟩
  · simp only [branches_iff_of_eli hword]
    constructor
    · rintro ⟨condition, _, hcondition, word', mid, ⟨rfl, hthen⟩, body, mid', hbody, new, hnew, hr⟩
      exact ⟨new, ⟨condition, word', mid, body, mid', hcondition, hthen, hbody, hnew⟩, hr⟩
    · rintro ⟨new, ⟨condition, word', mid, body, mid', hcondition, hthen, hbody, hnew⟩, hr⟩
      exact ⟨condition, _, hcondition, word', mid, ⟨rfl, hthen⟩, body, mid', hbody, new, hnew, hr⟩

theorem furtherBranches_reads (hlt : ts.length < bound) (hrounds : ts.length < rounds)
    (read : List (Branch Expr)) :
    Reads finish (furtherBranches recur rounds read) ts fun r rest =>
      ∃ new, Branches ts new r.2 rest ∧ r.1 = read.reverse ++ new := by
  induction rounds generalizing ts read with
  | zero => exact absurd hrounds (Nat.not_lt_zero _)
  | succ rounds ih =>
    rw [furtherBranches]
    refine .ite_accept (by decide) (fun word ts' hts hkind => ?_) fun heli => ?_
    · subst hts
      rw [List.length_cons] at hlt hrounds
      exact furtherBranch_reads hinner hkind (by omega) read fun mid branch hmid =>
        ih (by omega) (by omega) (branch :: read)
    refine .ite_accept (by decide) (fun word ts' hts hkind => ?_) fun hel => ?_
    · subst hts
      rw [List.length_cons] at hlt
      refine ((hinner.expression (by omega)).bind fun _ _ _ => Reads.pure _).congr
        fun r rest => ?_
      constructor
      · rintro ⟨e, mid, h, rfl, rfl⟩
        exact ⟨[], .otherwise hkind h, by simp⟩
      · obtain ⟨branches, otherwise⟩ := r
        rintro ⟨new, hnew, rfl : branches = _⟩
        cases hnew with
        | done _ hnext => exact absurd hkind hnext
        | otherwise _ h => exact ⟨_, _, h, by simp, rfl⟩
        | noCondition h | emptyCondition h | more h => exact absurd h heli
    · refine (Reads.pure _).congr fun r rest => ?_
      constructor
      · rintro ⟨rfl, rfl⟩
        exact ⟨[], .done heli hel, by simp⟩
      · obtain ⟨branches, otherwise⟩ := r
        rintro ⟨new, hnew, rfl : branches = _⟩
        cases hnew with
        | done => exact ⟨by simp, rfl⟩
        | otherwise h => exact absurd h hel
        | noCondition h | emptyCondition h | more h => exact absurd h heli

theorem choice_reads (hlt : ts.length < bound) :
    Reads finish (choice recur bound t.first) ts (Atom (.keyword .if) t ts) := by
  refine (hinner.expression_expect (by decide) hlt fun condition mid hmid =>
    (hinner.expression hmid).bind fun body mid' hbody =>
      (furtherBranches_reads hinner ?_ ?_ [⟨condition, body⟩]).bind
        fun _ _ _ => Reads.pure _).congr fun e rest => ?_
  · exact Nat.lt_trans hbody.behind.length_lt hmid
  · exact Nat.lt_trans hbody.behind.length_lt hmid
  · constructor
    · rintro ⟨condition, word, mid, hcondition, hword, body, mid', hbody, ⟨_, otherwise⟩, _,
        ⟨branches, hbranches, rfl⟩, rfl, rfl⟩
      exact .choice hcondition hword hbody hbranches
    · intro h
      cases h with
      | constant h => cases h
      | choice hcondition hword hbody hbranches =>
        exact ⟨_, _, _, hcondition, hword, _, _, hbody, ⟨_, _⟩, _, ⟨_, hbranches, rfl⟩, rfl, rfl⟩

/-! ### Constructs -/

theorem whileLoop_reads (hlt : ts.length < bound) :
    Reads finish (whileLoop recur t.first) ts (Atom (.keyword .while) t ts) := by
  refine (hinner.expression_expect (by decide) hlt fun condition mid hmid =>
    (hinner.expression hmid).bind fun _ _ _ => Reads.pure _).congr fun e rest => ?_
  constructor
  · rintro ⟨condition, word, mid, hcondition, hword, body, _, hbody, rfl, rfl⟩
    exact .whileLoop hcondition hword hbody
  · intro h
    cases h with
    | constant h => cases h
    | whileLoop hcondition hword hbody =>
      exact ⟨_, _, _, hcondition, hword, _, _, hbody, rfl, rfl⟩

/-- The step of a loop is read if its word is next. -/
theorem loopStep_reads (hlt : ts.length < bound) :
    Reads finish (loopStep recur) ts fun step rest =>
      next ts ≠ .keyword .step ∧ step = none ∧ rest = ts ∨
        ∃ word mid e, ts = word :: mid ∧ word.kind = .keyword .step ∧
          Derives .expression mid e rest ∧ step = some e := by
  rw [loopStep]
  refine .ite_accept (by decide) (fun word ts' hts hkind => ?_) fun hstep => ?_
  · subst hts
    rw [List.length_cons] at hlt
    refine ((hinner.expression (by omega)).bind fun _ _ _ => Reads.pure _).congr
      fun step rest => ?_
    constructor
    · rintro ⟨e, mid, h, rfl, rfl⟩
      exact .inr ⟨word, ts', e, rfl, hkind, h, rfl⟩
    · rintro (⟨hnext, -⟩ | ⟨_, _, e, ⟨⟩, -, h, rfl⟩)
      · exact absurd hkind hnext
      · exact ⟨e, rest, h, rfl, rfl⟩
  · refine (Reads.pure none).congr fun step rest => ?_
    constructor
    · rintro ⟨rfl, rfl⟩
      exact .inl ⟨hstep, rfl, rfl⟩
    · rintro (⟨-, rfl, rfl⟩ | ⟨word, mid, e, rfl, hkind, -⟩)
      · exact ⟨rfl, rfl⟩
      · exact absurd hkind hstep

theorem forLoop_reads (hlt : ts.length < bound) :
    Reads finish (forLoop recur t.first) ts (Atom (.keyword .for) t ts) := by
  refine ((Reads.expect (by decide) _).bind fun name mid hname =>
    (Reads.expect (by decide) _).bind fun sign mid₁ hsign =>
      (hinner.expression_expect (by decide) ?_ fun first mid₂ hmid₂ =>
        (hinner.expression hmid₂).bind fun last mid₃ hlast =>
          (loopStep_reads hinner ?_).bind fun step mid₄ hstep =>
            (Reads.expect (by decide) _).bind fun word mid₅ hword =>
              (hinner.expression ?_).bind fun _ _ _ => Reads.pure _)).congr fun e rest => ?_
  · rw [hname.1, hsign.1, List.length_cons, List.length_cons] at hlt
    omega
  · exact Nat.lt_trans hlast.behind.length_lt hmid₂
  · have hlast := hlast.behind.length_lt
    rcases hstep with ⟨-, -, rfl⟩ | ⟨_, mid, e, rfl, -, h, -⟩
    · rw [hword.1, List.length_cons] at hlast
      omega
    · have hstep := h.behind.length_lt
      rw [hword.1, List.length_cons] at hstep
      rw [List.length_cons] at hlast
      omega
  · constructor
    · rintro ⟨name, _, ⟨rfl, hname⟩, sign, mid, ⟨rfl, hsign⟩, first, mark, mid₁, hfirst, hmark,
        last, _, hlast, step, _, hstep, word, mid₂, ⟨rfl, hword⟩, body, _, hbody, rfl, rfl⟩
      rcases hstep with ⟨-, rfl, rfl⟩ | ⟨word', mid₃, e, rfl, hword', h, rfl⟩
      · exact .forLoop hname hsign hfirst hmark hlast hword hbody
      · exact .forLoopStep hname hsign hfirst hmark hlast hword' h hword hbody
    · intro h
      cases h with
      | constant h => cases h
      | forLoop hname hsign hfirst hmark hlast hword hbody =>
        exact ⟨_, _, ⟨rfl, hname⟩, _, _, ⟨rfl, hsign⟩, _, _, _, hfirst, hmark, _, _, hlast, _, _,
          .inl ⟨by simp [next, hword], rfl, rfl⟩, _, _, ⟨rfl, hword⟩, _, _, hbody, rfl, rfl⟩
      | forLoopStep hname hsign hfirst hmark hlast hword' h hword hbody =>
        exact ⟨_, _, ⟨rfl, hname⟩, _, _, ⟨rfl, hsign⟩, _, _, _, hfirst, hmark, _, _, hlast, _, _,
          .inr ⟨_, _, _, rfl, hword', h, rfl⟩, _, _, ⟨rfl, hword⟩, _, _, hbody, rfl, rfl⟩

theorem function_reads (hlt : ts.length < bound) :
    Reads finish (function recur bound t.first) ts (Atom (.keyword .fun) t ts) := by
  have hstart : ∀ {name paren mid}, DefinedName ts name (paren :: mid) → mid.length < bound := by
    intro name paren mid hname
    have := (hname.behind (Behind.head (t := t))).length_lt
    simp only [List.length_cons] at this
    omega
  refine (definedName_reads.bind fun name mid hname => (Reads.expect (by decide) _).bind
    fun paren mid₁ hparen => (parameters_reads ?_ _).bind fun parameters mid₂ hparameters =>
      (Reads.expect (by decide) _).bind fun arrow mid₃ harrow =>
        (hinner.expression ?_).bind fun _ _ _ => Reads.pure _).congr fun e rest => ?_
  · exact hstart (hparen.1 ▸ hname.1)
  · have hlt := hstart (hparen.1 ▸ hname.1)
    have := (hparameters.1.behind Parameter.behind).length_lt
    rw [harrow.1, List.length_cons] at this
    omega
  · constructor
    · rintro ⟨name, _, ⟨hname, -⟩, paren, mid, ⟨rfl, hparen⟩, parameters, _, ⟨hparameters, hnodup⟩,
        arrow, mid₁, ⟨rfl, harrow⟩, body, _, hbody, rfl, rfl⟩
      exact .function hname hparen hparameters hnodup harrow hbody
    · intro h
      cases h with
      | constant h => cases h
      | function hname hparen hparameters hnodup harrow hbody =>
        refine ⟨_, _, ⟨hname, fun hnone => ?_⟩, _, _, ⟨rfl, hparen⟩, _, _,
          ⟨hparameters, hnodup⟩, _, _, ⟨rfl, harrow⟩, _, _, hbody, rfl, rfl⟩
        cases hname with
        | absent => simp [next, hparen]
        | present => cases hnone

omit hinner in
theorem struct_reads (hlt : ts.length < bound) :
    Reads finish (struct bound t.first) ts (Atom (.keyword .struct) t ts) := by
  refine (definedName_reads.bind fun name mid hname => (Reads.expect (by decide) _).bind
    fun paren mid₁ hparen => (fields_reads ?_ _).bind fun _ _ _ => Reads.pure _).congr
      fun e rest => ?_
  · have := (hname.1.behind (Behind.head (t := t))).length_lt
    rw [hparen.1] at this
    simp only [List.length_cons] at this
    omega
  · constructor
    · rintro ⟨name, _, ⟨hname, -⟩, paren, mid, ⟨rfl, hparen⟩, fields, _, ⟨hfields, hnodup⟩, rfl,
        rfl⟩
      exact .struct hname hparen hfields hnodup
    · intro h
      cases h with
      | constant h => cases h
      | struct hname hparen hfields hnodup =>
        refine ⟨_, _, ⟨hname, fun hnone => ?_⟩, _, _, ⟨rfl, hparen⟩, _, _, ⟨hfields, hnodup⟩, rfl,
          rfl⟩
        cases hname with
        | absent => simp [next, hparen]
        | present => cases hnone

theorem returning_reads (hlt : ts.length < bound) :
    Reads finish (returning recur t.first) ts (Atom (.keyword .return) t ts) := by
  rw [returning, reads_current, kind_headD]
  by_cases hstart : startsExpression (next ts)
  · rw [if_pos hstart]
    refine ((hinner.expression hlt).bind fun _ _ _ => Reads.pure _).congr fun e rest => ?_
    constructor
    · rintro ⟨value, _, h, rfl, rfl⟩
      exact .returning h
    · intro h
      cases h with
      | constant h => cases h
      | returning h => exact ⟨_, _, h, rfl, rfl⟩
      | returningNothing hnone => exact absurd (startsExpression_iff.1 hstart) hnone
  · rw [if_neg hstart]
    rw [startsExpression_iff] at hstart
    refine (Reads.pure _).congr fun e rest => ?_
    constructor
    · rintro ⟨rfl, rfl⟩
      exact .returningNothing hstart
    · intro h
      cases h with
      | constant h => cases h
      | returning h => exact absurd h.mem_beginnings hstart
      | returningNothing => exact ⟨rfl, rfl⟩

end Phrases

end Phrase

end SnapshotScript
