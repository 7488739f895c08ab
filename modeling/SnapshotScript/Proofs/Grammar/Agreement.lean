import Mathlib.Data.List.TakeWhile
import SnapshotScript.Proofs.Grammar.Constructs

/-!
# The parser reads the grammar

Phrases of each level are read as they are derived, provided that the phrases inside them are.  So,
by induction on the number of tokens, all phrases are, and programs with them.
-/

namespace SnapshotScript

open SnapshotScript.Grammar SnapshotScript.Parser

namespace Phrase

section Levels

variable {finish : Position} {recur : Level → Parser Expr} {bound : Nat} {ts : List Token}
  {t : Token} (hinner : ReadsInner finish recur bound)

/-! ### Atoms -/

/-- The tokens that are atoms by themselves and have a value. -/
def constants : List Token.Kind :=
  [.int, .float, .string, .keyword .true, .keyword .false, .keyword .null]

/-- An atom of such a token is its value. -/
theorem atom_iff_of_mem_constants {k : Token.Kind} (hk : k ∈ constants) {e : Expr}
    {rest : List Token} : Atom k t ts e rest ↔
      ∃ v, Constant k t.text v ∧ e = .literal v t.first ∧ rest = ts := by
  constructor
  · intro h
    cases h with
    | constant h => exact ⟨_, h, rfl, rfl⟩
    | _ => exact absurd hk (by decide)
  · rintro ⟨v, h, rfl, rfl⟩
    exact .constant h

/-- A token that has one value is read as that value. -/
theorem literal_reads {k : Token.Kind} (hk : k ∈ constants) {v : Literal}
    (hconstant : ∀ w, Constant k t.text w ↔ w = v) :
    Reads finish (literal v t.first) (t :: ts) (Atom k t ts) := by
  refine reads_advance.2 ((Reads.pure _).congr fun e rest => ?_)
  simp [atom_iff_of_mem_constants hk, hconstant]

/-- A token that has no value is read as nothing. -/
theorem failAt_reads {k : Token.Kind} (hk : k ∈ constants) (expected : Expectation)
    (hconstant : ∀ w, ¬Constant k t.text w) :
    Reads finish (failAt t expected) (t :: ts) (Atom k t ts) := by
  refine (Reads.failAt _ _).congr fun e rest => ?_
  simp [atom_iff_of_mem_constants hk, hconstant]

/-- An integer token has the value of its numeral, if this has 64 bits. -/
theorem constant_int_iff {text : String} {v : Literal} :
    Constant .int text v ↔ ∃ n, (readInteger? text.toList).bind word? = some n ∧ v = .int n := by
  constructor
  · intro h
    cases h with
    | int hz hn => exact ⟨_, Option.bind_eq_some_iff.2 ⟨_, hz, hn⟩, rfl⟩
  · rintro ⟨n, h, rfl⟩
    obtain ⟨z, hz, hn⟩ := Option.bind_eq_some_iff.1 h
    exact .int hz hn

/-- A floating-point token has the value of its numeral. -/
theorem constant_float_iff {text : String} {v : Literal} :
    Constant .float text v ↔ ∃ x, readFloat? text.toList = some x ∧ v = .float x := by
  constructor
  · intro h
    cases h with
    | float hx => exact ⟨_, hx, rfl⟩
  · rintro ⟨x, hx, rfl⟩
    exact .float hx

include hinner

theorem atom_reads (hlt : ts.length ≤ bound) :
    Reads finish (atom recur bound) ts (Derives .atom ts) := by
  rw [atom, reads_current]
  cases ts with
  | nil => exact (Reads.failAt _ _).congr fun e rest => ⟨False.elim, fun h => nomatch h⟩
  | cons t ts =>
    rw [List.length_cons] at hlt
    have hfail : t.kind ∉ atomBeginnings →
        Reads finish (failAt t .expression) (t :: ts) (Atom t.kind t ts) := fun hkind =>
      (Reads.failAt _ _).congr fun e rest =>
        ⟨False.elim, fun h => hkind h.mem_beginnings⟩
    refine Reads.congr (R := Atom t.kind t ts) ?_ fun e rest =>
      ⟨.atom, fun | .atom h => h⟩
    rw [List.headD_cons]
    generalize t.kind = k at hfail
    cases k with
    | int =>
      dsimp only
      split
      · next n hn => exact literal_reads (by decide) fun w => by simp [constant_int_iff, hn]
      · next hn => exact failAt_reads (by decide) _ fun w => by simp [constant_int_iff, hn]
    | float =>
      dsimp only
      split
      · next x hx => exact literal_reads (by decide) fun w => by simp [constant_float_iff, hx]
      · next hx => exact failAt_reads (by decide) _ fun w => by simp [constant_float_iff, hx]
    | string =>
      exact literal_reads (by decide)
        fun w => ⟨by rintro ⟨⟩; rfl, by rintro rfl; exact .str⟩
    | identifier =>
      refine reads_advance.2 ((Reads.pure _).congr fun e rest => ⟨?_, fun h => ?_⟩)
      · rintro ⟨rfl, rfl⟩
        exact .name
      · cases h with
        | constant h => cases h
        | name => exact ⟨rfl, rfl⟩
    | leftParen => exact reads_advance_seqRight.2 (block_reads hinner hlt)
    | keyword word =>
      cases word with
      | true =>
        exact literal_reads (by decide)
          fun w => ⟨by rintro ⟨⟩; rfl, by rintro rfl; exact .true⟩
      | false =>
        exact literal_reads (by decide)
          fun w => ⟨by rintro ⟨⟩; rfl, by rintro rfl; exact .false⟩
      | null =>
        exact literal_reads (by decide)
          fun w => ⟨by rintro ⟨⟩; rfl, by rintro rfl; exact .null⟩
      | «if» => exact reads_advance_seqRight.2 (choice_reads hinner hlt)
      | «for» => exact reads_advance_seqRight.2 (forLoop_reads hinner hlt)
      | «while» => exact reads_advance_seqRight.2 (whileLoop_reads hinner hlt)
      | «fun» => exact reads_advance_seqRight.2 (function_reads hinner hlt)
      | struct => exact reads_advance_seqRight.2 (struct_reads hlt)
      | «return» => exact reads_advance_seqRight.2 (returning_reads hinner hlt)
      | _ => exact hfail (by decide)
    | _ => exact hfail (by decide)

/-- What follows a callee: its arguments with members behind them, or no parenthesis. -/
inductive Application (callee : Expr) : List Token → Expr → List Token → Prop
  | none {ts : List Token} : next ts ≠ .leftParen → Application callee ts callee ts
  | some {paren arguments mid fields rest} {ts : List Token} : paren.kind = .leftParen →
    Parenthesized DerivesArgument ts arguments mid → Members mid fields rest →
    Application callee (paren :: ts) (select (.call callee arguments callee.position) fields) rest

omit hinner in
/-- A call has an atom with members, and what follows it. -/
theorem call_iff {e : Expr} {rest : List Token} :
    Derives .call ts e rest ↔ ∃ callee mid fields mid', Derives .atom ts callee mid ∧
      Members mid fields mid' ∧ Application (select callee fields) mid' e rest := by
  constructor
  · intro h
    cases h with
    | called he hfields hkind harguments hafter =>
      exact ⟨_, _, _, _, he, hfields, .some hkind harguments hafter⟩
    | uncalled he hfields hnext => exact ⟨_, _, _, _, he, hfields, .none hnext⟩
  · rintro ⟨callee, mid, fields, mid', he, hfields, h⟩
    cases h with
    | none hnext => exact .uncalled he hfields hnext
    | some hkind harguments hafter => exact .called he hfields hkind harguments hafter

/-- What follows a callee is read as it is derived. -/
theorem application_reads (hlt : ts.length ≤ bound) (callee : Expr) :
    Reads finish (do
      if ← accept .leftParen then
        let arguments ← parenthesized bound (fun _ => argument recur) .endOfArguments
        members bound (.call callee arguments callee.position)
      else
        return callee) ts (Application callee ts) := by
  refine .ite_accept (by decide) (fun paren ts' hts hkind => ?_) fun hparen => ?_
  · subst hts
    rw [List.length_cons] at hlt
    refine ((arguments_reads hinner hlt _).bind fun arguments mid harguments =>
      members_reads ?_ _).congr fun e rest => ?_
    · exact Nat.lt_trans (argumentsBehind harguments).length_lt hlt
    · constructor
      · rintro ⟨arguments, mid, harguments, fields, hfields, rfl⟩
        exact .some hkind harguments hfields
      · intro h
        cases h with
        | none hnext => exact absurd hkind hnext
        | some _ harguments hfields => exact ⟨_, _, harguments, _, hfields, rfl⟩
  · refine (Reads.pure _).congr fun e rest => ?_
    constructor
    · rintro ⟨rfl, rfl⟩
      exact .none hparen
    · intro h
      cases h with
      | none => exact ⟨rfl, rfl⟩
      | some hkind _ _ => exact absurd hkind hparen

theorem call_reads (hlt : ts.length ≤ bound) :
    Reads finish (call recur bound) ts (Derives .call ts) := by
  refine ((atom_reads hinner hlt).bind fun e mid he => (members_reads ?_ e).bind
    fun callee mid' hmembers => application_reads hinner ?_ callee).congr fun e rest => ?_
  · exact Nat.lt_of_lt_of_le he.behind.length_lt hlt
  · obtain ⟨fields, hfields, -⟩ := hmembers
    exact Nat.le_trans (hfields.behind he.behind).length_lt.le hlt
  · rw [call_iff]
    constructor
    · rintro ⟨callee, mid, he, _, mid', ⟨fields, hfields, rfl⟩, h⟩
      exact ⟨callee, mid, fields, mid', he, hfields, h⟩
    · rintro ⟨callee, mid, fields, mid', he, hfields, h⟩
      exact ⟨callee, mid, he, _, mid', ⟨fields, hfields, rfl⟩, h⟩

/-- What follows a base: a sign and an exponent, or no sign. -/
inductive Raise (base : Expr) : List Token → Expr → List Token → Prop
  | none {ts : List Token} : next ts ≠ .power → Raise base ts base ts
  | some {sign exponent rest} {ts : List Token} : sign.kind = .power →
    Derives .factor ts exponent rest →
    Raise base (sign :: ts) (.binary .power base exponent sign.first) rest

omit hinner in
/-- A power has a base, and what follows it. -/
theorem power_iff {e : Expr} {rest : List Token} :
    Derives .power ts e rest ↔ ∃ base mid, Derives .call ts base mid ∧ Raise base mid e rest := by
  constructor
  · intro h
    cases h with
    | raised hbase hkind h => exact ⟨_, _, hbase, .some hkind h⟩
    | unraised hbase hnext => exact ⟨_, _, hbase, .none hnext⟩
  · rintro ⟨base, mid, hbase, h⟩
    cases h with
    | none hnext => exact .unraised hbase hnext
    | some hkind h => exact .raised hbase hkind h

theorem power_reads (hlt : ts.length ≤ bound) :
    Reads finish (power recur bound) ts (Derives .power ts) := by
  refine ((call_reads hinner hlt).bind (S := fun base mid => Raise base mid)
    fun base mid hbase => ?_).congr fun e rest => power_iff.symm
  have hmid := hbase.behind.length_lt
  rw [reads_current, kind_headD]
  by_cases hpower : next mid = .power
  · obtain ⟨sign, mid, rfl, hkind⟩ := eq_cons_of_next (by decide) hpower
    rw [if_pos hpower, reads_advance, List.tail_cons]
    rw [List.length_cons] at hmid
    refine ((hinner .factor mid (by omega)).bind fun _ _ _ => Reads.pure _).congr
      fun e rest => ?_
    constructor
    · rintro ⟨exponent, _, h, rfl, rfl⟩
      exact .some hkind h
    · intro h
      cases h with
      | none hnext => exact absurd hpower hnext
      | some _ h => exact ⟨_, rest, h, rfl, rfl⟩
  · rw [if_neg hpower]
    refine (Reads.pure _).congr fun e rest => ?_
    constructor
    · rintro ⟨rfl, rfl⟩
      exact .none hpower
    · intro h
      cases h with
      | none => exact ⟨rfl, rfl⟩
      | some hkind _ => exact absurd hkind hpower

theorem factor_reads (hlt : ts.length ≤ bound) :
    Reads finish (factor recur bound) ts (Derives .factor ts) := by
  rw [factor, reads_current, kind_headD]
  cases hoperator : signOperator? (next ts) with
  | some o =>
    have hsign := signOperator?_eq_some.1 hoperator
    cases ts with
    | nil => cases hsign
    | cons sign ts =>
      rw [List.length_cons] at hlt
      refine reads_advance.2 (((hinner .factor ts (by omega)).bind fun _ _ _ =>
        Reads.pure _).congr fun e rest => ?_)
      constructor
      · rintro ⟨operand, _, h, rfl, rfl⟩
        exact .signed hsign h
      · intro h
        cases h with
        | signed hsign' h =>
          cases hoperator.symm.trans (signOperator?_eq_some.2 hsign')
          exact ⟨_, _, h, rfl, rfl⟩
        | unsigned h => exact absurd h.mem_beginnings hsign.not_mem
  | none =>
    refine (power_reads hinner hlt).congr fun e rest => ⟨.unsigned, fun h => ?_⟩
    cases h with
    | signed hsign _ =>
      rw [next, signOperator?_eq_some.2 hsign] at hoperator
      cases hoperator
    | unsigned h => exact h

theorem term_reads (hlt : ts.length ≤ bound) :
    Reads finish (term recur bound) ts (Derives .term ts) := by
  refine (operands_reads productOperator?_eq_some (fun _ => factor_reads hinner) hlt).congr
    fun e rest => ⟨?_, fun | .product hleft h => ⟨_, _, hleft, h⟩⟩
  rintro ⟨left, mid, hleft, h⟩
  exact .product hleft h

theorem arithmetic_reads (hlt : ts.length ≤ bound) :
    Reads finish (arithmetic recur bound) ts (Derives .arithmetic ts) := by
  refine (operands_reads sumOperator?_eq_some (fun _ => term_reads hinner) hlt).congr
    fun e rest => ⟨?_, fun | .sum hleft h => ⟨_, _, hleft, h⟩⟩
  rintro ⟨left, mid, hleft, h⟩
  exact .sum hleft h

/-- What follows the left side of a comparison: no operator, or one with its right side. -/
inductive Comparand (left : Expr) : List Token → Expr → List Token → Prop
  | none {ts : List Token} : (∀ o, ¬ Infix .comparison (next ts) o) → Comparand left ts left ts
  | some {sign o right rest} {ts : List Token} : Infix .comparison sign.kind o →
    Derives .arithmetic ts right rest →
    Comparand left (sign :: ts) (.binary o left right sign.first) rest

omit hinner in
/-- A comparison that does not begin with `not` has a left side, and what follows it. -/
theorem comparison_iff (hnot : next ts ≠ .keyword .not) {e : Expr} {rest : List Token} :
    Derives .comparison ts e rest ↔
      ∃ left mid, Derives .arithmetic ts left mid ∧ Comparand left mid e rest := by
  constructor
  · intro h
    cases h with
    | not hword _ => exact absurd hword hnot
    | compare hleft ho h => exact ⟨_, _, hleft, .some ho h⟩
    | uncompared hleft hnone => exact ⟨_, _, hleft, .none hnone⟩
  · rintro ⟨left, mid, hleft, h⟩
    cases h with
    | none hnone => exact .uncompared hleft hnone
    | some ho h => exact .compare hleft ho h

/-- What follows the left side of a comparison is read as it is derived. -/
theorem comparand_reads (hlt : ts.length ≤ bound) (left : Expr) :
    Reads finish (do
      let t ← current
      match comparisonOperator? t.kind with
      | some operator =>
        advance
        let right ← arithmetic recur bound
        return .binary operator left right t.first
      | none => return left) ts (Comparand left ts) := by
  rw [reads_current, kind_headD]
  cases hoperator : comparisonOperator? (next ts) with
  | none =>
    have hnone := not_infix_of_eq_none comparisonOperator?_eq_some hoperator
    refine (Reads.pure _).congr fun e rest => ?_
    constructor
    · rintro ⟨rfl, rfl⟩
      exact .none hnone
    · intro h
      cases h with
      | none _ => exact ⟨rfl, rfl⟩
      | some ho _ => exact absurd ho (hnone _)
  | some o =>
    have ho := comparisonOperator?_eq_some.1 hoperator
    cases ts with
    | nil => cases ho
    | cons sign ts =>
      rw [List.length_cons] at hlt
      refine reads_advance.2 ?_
      rw [List.tail_cons]
      refine ((arithmetic_reads hinner (by omega)).bind fun _ _ _ => Reads.pure _).congr
        fun e rest => ?_
      constructor
      · rintro ⟨right, _, h, rfl, rfl⟩
        exact .some ho h
      · intro h
        cases h with
        | none hnone => exact absurd ho (hnone o)
        | some ho' h =>
          cases hoperator.symm.trans (comparisonOperator?_eq_some.2 ho')
          exact ⟨_, rest, h, rfl, rfl⟩

theorem comparison_reads (hlt : ts.length ≤ bound) :
    Reads finish (comparison recur bound) ts (Derives .comparison ts) := by
  rw [comparison, reads_current, kind_headD]
  by_cases hnot : next ts = .keyword .not
  · obtain ⟨word, ts, rfl, hkind⟩ := eq_cons_of_next (by decide) hnot
    rw [if_pos hnot]
    rw [List.length_cons] at hlt
    refine reads_advance.2 (((hinner .comparison ts (by omega)).bind fun _ _ _ =>
      Reads.pure _).congr fun e rest => ?_)
    constructor
    · rintro ⟨operand, _, h, rfl, rfl⟩
      exact .not hkind h
    · intro h
      cases h with
      | not _ h => exact ⟨_, _, h, rfl, rfl⟩
      | compare h | uncompared h =>
        exact absurd hnot (h.next_ne (by decide))
  · rw [if_neg hnot]
    refine ((arithmetic_reads hinner hlt).bind fun left mid hleft =>
      comparand_reads hinner ?_ left).congr fun e rest => (comparison_iff hnot).symm
    exact Nat.le_trans (Nat.le_of_lt hleft.behind.length_lt) hlt

theorem expression_reads (hlt : ts.length ≤ bound) :
    Reads finish (expression recur bound) ts (Derives .expression ts) := by
  rw [expression, reads_current, kind_headD]
  by_cases hset : next ts = .keyword .set
  · obtain ⟨word, ts, rfl, hkind⟩ := eq_cons_of_next (by decide) hset
    rw [if_pos hset]
    rw [List.length_cons] at hlt
    exact reads_advance.2 (assignment_reads hinner hkind hlt)
  · rw [if_neg hset]
    refine (operands_reads logicalOperator?_eq_some (fun _ => comparison_reads hinner) hlt).congr
      fun e rest => ⟨?_, fun h => ?_⟩
    · rintro ⟨left, mid, hleft, h⟩
      exact .logical hleft h
    · cases h with
      | assign hword _ _ _ | memberSet hword _ _ _ _ => exact absurd hword hset
      | logical hleft h => exact ⟨_, _, hleft, h⟩

end Levels

end Phrase

/-- Phrases of every level are read as they are derived. -/
theorem phrase_reads (finish : Position) (bound : Nat) :
    Phrase.ReadsInner finish (phrase bound) bound := by
  induction bound with
  | zero => exact fun level ts hlt => absurd hlt (Nat.not_lt_zero _)
  | succ bound ih =>
    intro level ts hlt
    have hle := Nat.le_of_lt_succ hlt
    cases level with
    | expression => exact Phrase.expression_reads ih hle
    | comparison => exact Phrase.comparison_reads ih hle
    | factor => exact Phrase.factor_reads ih hle

namespace Program

/-- The expressions of a program, up to the end of the input. -/
theorem items_reads {finish : Position} {bound rounds : Nat} {ts : List Token}
    (hlt : ts.length < bound) (hrounds : ts.length < rounds) (read : List Expr) :
    Reads finish (items bound rounds read) ts fun es rest => ∃ new, Items ts new rest ∧
      next rest = .endOfInput ∧ es = read.reverse ++ new := by
  induction rounds generalizing ts read with
  | zero => exact absurd hrounds (Nat.not_lt_zero _)
  | succ rounds ih =>
    rw [items, reads_isAt]
    by_cases hend : next ts = .endOfInput
    · rw [hend, beq_self_eq_true, if_pos rfl]
      exact .items_end (· = .endOfInput) hend fun e rest h => h.next_ne (by decide)
    · rw [beq_false_of_ne hend, if_neg Bool.false_ne_true]
      refine .items_more (· = .endOfInput) hend (phrase_reads finish bound .expression ts hlt)
        fun e mid hmid => ih ?_ ?_ (e :: read)
      all_goals omega

/-- A program is read from the tokens of a stream. -/
theorem parse_reads {finish : Position} {ts : List Token} :
    Reads finish parse ts fun e rest => ∃ es, Items ts es rest ∧ next rest = .endOfInput ∧
      e = .block es (TokenStream.mk ts finish).current.first := by
  rw [parse, reads_get]
  refine ((items_reads (Nat.lt_succ_self _) (Nat.lt_succ_self _) []).bind
    fun _ _ _ => Reads.pure _).congr fun e rest => ?_
  constructor
  · rintro ⟨_, _, ⟨es, hes, hend, rfl⟩, rfl, rfl⟩
    exact ⟨_, hes, hend, rfl⟩
  · rintro ⟨es, hes, hend, rfl⟩
    exact ⟨es, rest, ⟨es, hes, hend, rfl⟩, rfl, rfl⟩

end Program

/-- A program is read from a list of tokens if it is read from the stream of those tokens. -/
theorem parseTokens_eq_ok {tokens : List Token} {e : Expr} :
    parseTokens tokens = .ok e ↔ ∃ s, Program.parse (.ofTokens tokens) = .ok e s := by
  unfold parseTokens
  split
  · next program s h => simp [h]
  · next h => simp [h]

/-- Behind items of a program the end of the input is next only where no tokens are left. -/
theorem next_eq_endOfInput_iff {tokens : List Token} {es : List Expr} {rest : List Token}
    (hes : Items (TokenStream.ofTokens tokens).rest es rest) :
    next rest = .endOfInput ↔ rest = [] := by
  have hsuffix := (hes.behind (Behind.head (t := .endAt .start))).suffix_of_cons
  cases rest with
  | nil => exact iff_of_true rfl rfl
  | cons t rest =>
    have hkind := List.mem_takeWhile_imp (hsuffix.subset List.mem_cons_self)
    simpa [next] using hkind

/-- A program that is read is derived. -/
theorem derived_of_parseTokens {tokens : List Token} {e : Expr}
    (h : parseTokens tokens = .ok e) : Grammar.Program tokens e := by
  obtain ⟨s, hparse⟩ := parseTokens_eq_ok.1 h
  obtain ⟨rest, rfl, es, hes, hend, rfl⟩ := (Program.parse_reads e s).1 hparse
  obtain rfl := (next_eq_endOfInput_iff hes).1 hend
  exact ⟨es, hes, rfl⟩

/-- A program that is derived is read. -/
theorem parseTokens_of_derived {tokens : List Token} {e : Expr} (h : Grammar.Program tokens e) :
    parseTokens tokens = .ok e := by
  obtain ⟨es, hes, rfl⟩ := h
  exact parseTokens_eq_ok.2 ⟨_, Program.parse_reads.eq_ok ⟨es, hes, rfl, rfl⟩⟩

/-- A list of tokens is read as a program if and only if its tokens before the first end of the
input are derived as a row of expressions, which is greedy at every place.  The tree that is read is
the one that is derived. -/
theorem parseTokens_eq_ok_iff (tokens : List Token) (e : Expr) :
    parseTokens tokens = .ok e ↔ Grammar.Program tokens e :=
  ⟨derived_of_parseTokens, parseTokens_of_derived⟩

end SnapshotScript
