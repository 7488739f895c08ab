import SnapshotScript.Proofs.Arithmetic.FloatNumerals
import SnapshotScript.Proofs.Grammar.Material
import SnapshotScript.Proofs.Grammar.Progress
import SnapshotScript.Proofs.Judgement
import SnapshotScript.Proofs.Lexical.Numerals

/-!
# Branches that are never taken

Some branches only guard against what cannot happen.  The numerals of a text have been checked by
the reader before the parser converts them; the step of a loop has been found to be a number before
it is added to the variable; and `and` and `or` decide which operands are evaluated, so they are
never combined like other operators.
-/

namespace SnapshotScript

open SnapshotScript.Grammar SnapshotScript.Parser

/-! ### Numerals -/

/-- The next token is among those that are left, unless the input ends. -/
theorem TokenStream.current_mem {s : TokenStream} (h : s.current.kind ≠ .endOfInput) :
    s.current ∈ s.rest := by
  obtain ⟨rest, finish⟩ := s
  cases rest with
  | nil => exact absurd rfl h
  | cons t rest => exact List.mem_cons_self

/-- The tokens of a stream are among those that it was made of. -/
theorem TokenStream.mem_of_ahead {tokens : List Token} {s : TokenStream} {k : Nat} {t : Token}
    (h : Ahead k (ofTokens tokens) s) (ht : t ∈ s.rest) : t ∈ tokens :=
  (List.takeWhile_prefix _).subset (h.suffix.subset ht)

/-- No failure of the parser is about a numeral of a text. -/
theorem expected_of_parseSource {source : String} {e : SyntaxError}
    (h : parseSource source = .error (.syntactic e)) :
    e.expected ≠ .integerInRange ∧ e.expected ≠ .floatNumeral := by
  obtain ⟨tokens, htokens, hparse⟩ : ∃ tokens, tokenize source = .ok tokens ∧
      parseTokens tokens = .error e := by
    unfold parseSource at h
    split at h
    · cases h
    · next tokens htokens =>
      split at h
      · next e' hparse =>
        cases h
        exact ⟨tokens, htokens, hparse⟩
      · cases h
  have htokenizes := Lexical.tokenizes_of_tokenize htokens
  obtain ⟨s, hs⟩ := parseTokens_eq_error.1 hparse
  have hlt := Nat.lt_succ_self (TokenStream.ofTokens tokens).rest.length
  obtain ⟨hahead, hjustified, -⟩ := (Program.parse_advances hlt hlt).failure hs
  have hmem (hfound : e.found = s.current) (hend : e.found.kind ≠ .endOfInput) :
      e.found ∈ tokens := by
    rw [hfound] at hend ⊢
    exact TokenStream.mem_of_ahead hahead (TokenStream.current_mem hend)
  constructor
  · intro hexpected
    rw [Justified, hexpected] at hjustified
    obtain ⟨hfound, hkind, hnone⟩ := hjustified
    obtain ⟨hnumeral, hrange⟩ := htokenizes.integer (hmem hfound (by rw [hkind]; decide)) hkind
    obtain ⟨n, hn, -⟩ := bind_word?_of_digits hnumeral.isDigits hrange
    rw [hn] at hnone
    cases hnone
  · intro hexpected
    rw [Justified, hexpected] at hjustified
    obtain ⟨hfound, hkind, hnone⟩ := hjustified
    obtain ⟨whole, fraction, hwhole, hfraction, htext⟩ :=
      htokenizes.float (hmem hfound (by rw [hkind]; decide)) hkind
    have hread : readFloat? (whole ++ '.' :: fraction) = _ :=
      (FloatNumeral.point hwhole hfraction).readFloat?_eq false
    rw [htext, hread] at hnone
    cases hnone

/-- An integer of a program is the number that the digits at its place denote. -/
theorem integers_of_parseSource {source : String} {program : Expr}
    (h : parseSource source = .ok program) :
    program.Everywhere fun e => ∀ n p, e = .literal (.int n) p →
      ∃ digits, Lexical.NumeralAt source.toList digits p ∧ n.toInt = numeralValue digits := by
  obtain ⟨tokens, htokens, hparse⟩ := parseSource_eq_ok_iff.1 h
  obtain ⟨items, hitems, rfl⟩ := derived_of_parseTokens hparse
  have htokenizes := Lexical.tokenizes_of_tokenize htokens
  have hread : ∀ t ∈ tokens.takeWhile (·.kind ≠ .endOfInput), t ∈ tokens :=
    fun t ht => (List.takeWhile_prefix _).subset ht
  refine .node nofun fun item hitem => ?_
  refine (hitems.drawn hread item hitem).mono fun e he n p hliteral => ?_
  obtain ⟨t, ht, rfl, hconstant⟩ := he.constants _ _ hliteral
  generalize hkind : t.kind = k at hconstant
  cases hconstant with
  | int hz hn =>
    obtain ⟨hnumeral, -⟩ := htokenizes.integer ht hkind
    rw [(IntegerNumeral.unsigned hnumeral.isDigits).readInteger?_eq] at hz
    cases hz
    exact ⟨_, hnumeral, word?_eq_some_iff.1 hn⟩

/-! ### The variables of loops -/

variable {σ κ : Type}

/-- The action never fails because the variable of a loop is no number any more. -/
def Action.KeepsVariables {α : Type} (x : Action σ κ α) : Prop :=
  ∀ s e s', x s = .error (.failed e) s' → ∀ name, e.fault ≠ .loopVariable name

namespace Action.KeepsVariables

variable {α β : Type} {x : Action σ κ α}

/-- One action after another keeps the variables of loops if both do. -/
theorem bind {f : α → Action σ κ β} (hx : KeepsVariables x) (hf : ∀ a, KeepsVariables (f a)) :
    KeepsVariables (x >>= f) := by
  intro s e s' h
  change EStateM.bind x f s = _ at h
  unfold EStateM.bind at h
  split at h
  · next a mid _ => exact hf a mid e s' h
  · next u mid hfail =>
    cases h
    exact hx s e s' hfail

/-- An action that ends without a fault keeps them. -/
theorem of_ok (h : ∀ s, ∃ a s', x s = .ok a s') : KeepsVariables x := by
  intro s e s' hfail
  obtain ⟨a, s'', hok⟩ := h s
  rw [hok] at hfail
  cases hfail

variable [Runtime σ κ]

/-- A fault keeps them unless it is that of a variable. -/
theorem fail {fault : Fault} {p : Position} (h : ∀ name, fault ≠ .loopVariable name) :
    KeepsVariables (Action.fail fault p : Action σ κ α) := by
  intro s e s' hfail
  cases hfail
  exact h

theorem inFrame (hx : KeepsVariables x) : KeepsVariables (Action.inFrame x) := by
  intro s e s' hfail
  unfold Action.inFrame at hfail
  split at hfail
  · cases hfail
  · next u mid hbody =>
    cases hfail
    exact hx _ e mid hbody

/-- The body of a function keeps them, if the limit allows one more call. -/
theorem enter {recur : Expr → Action σ κ (Value κ)} (h : ∀ e, KeepsVariables (recur e))
    (limit : Nat) (f : Function κ) (names : Bindings κ) (site : Position) :
    KeepsVariables (Evaluation.enter recur limit f names site) := by
  have hdepth : KeepsVariables (Action.depth : Action σ κ Nat) := of_ok fun s => ⟨_, _, rfl⟩
  refine hdepth.bind fun depth => ?_
  split
  · exact fail fun _ => nofun
  · intro s e s' hfail
    unfold Action.inCall at hfail
    split at hfail
    · cases hfail
    · cases hfail
    · next u mid _ hbody =>
      cases hfail
      exact h f.body _ e mid hbody

end Action.KeepsVariables

section

variable [Runtime σ κ]

/-- That loops keep their variables passes on from the parts of a run. -/
def Judgement.keepingVariables : Judgement σ κ where
  holds x _ := Action.KeepsVariables x
  faulty _ := True
  bind := .bind
  inFrame := .inFrame
  look _ := .of_ok fun _ => ⟨_, _, rfl⟩
  fail _ h := .fail fun name heq => by
    rw [heq] at h
    cases h
  returned _ := by
    intro s e s' h
    cases h
  exhausted := by
    intro _ s e s' h
    cases h
  record _ := .of_ok fun _ => ⟨_, _, rfl⟩
  define _ _ := .of_ok fun _ => ⟨_, _, rfl⟩
  freshId := .of_ok fun _ => ⟨_, _, rfl⟩
  capture := .of_ok fun _ => ⟨_, _, rfl⟩
  object _ _ := .of_ok fun _ => ⟨_, _, rfl⟩
  readField _ _ := .of_ok fun _ => ⟨_, _, rfl⟩
  writeField _ _ _ := .of_ok fun _ => ⟨_, _, rfl⟩

/-- No expression fails because the variable of a loop is no number any more. -/
theorem evaluate_keepsVariables (limit steps : Nat) (e : Expr) :
    Action.KeepsVariables (evaluate limit steps e : Action σ κ (Value κ)) := by
  induction steps generalizing e with
  | zero =>
    intro s e s' h
    cases h
  | succ steps ih =>
    change Judgement.keepingVariables.holds (Evaluation.node (evaluate limit steps) limit steps e)
      (Evaluation.node (evaluate limit steps) limit steps e)
    exact Judgement.node _ (.refl steps) (fun c _ => ih c) (fun _ _ => trivial)
      fun _ _ p _ f names => .enter ih limit f names p

/-- No program fails because the variable of a loop is no number any more. -/
theorem Interpreter.fault_of_run {i : Interpreter σ} {program : Expr} {e : RuntimeError}
    (h : (i.run program).1 = .error (.runtime e)) (name : String) :
    e.fault ≠ .loopVariable name := by
  have hkeeps := evaluate_keepsVariables i.depth i.steps program i.machine
  unfold Interpreter.run at h
  dsimp only at h
  split at h
  · cases h
  · cases h
  · next e' m hfail =>
    cases h
    exact hkeeps e m hfail name
  · cases h

/-- No source text fails because the variable of a loop is no number any more. -/
theorem Interpreter.fault_of_evaluateSource {i : Interpreter σ} {source : String}
    {e : RuntimeError} (h : (i.evaluateSource source).1 = .error (.runtime e)) (name : String) :
    e.fault ≠ .loopVariable name := by
  unfold Interpreter.evaluateSource at h
  split at h
  · cases h
  · dsimp only at h
    split at h
    · cases h
    · exact Interpreter.fault_of_run h name

/-! ### Operators -/

namespace Evaluation

/-! What follows evaluates like `node`, but with `combine` for the values of binary operators. -/

variable (combine : BinaryOperator → Value κ → Value κ → Except Fault (Value κ))
  (recur : Expr → Action σ κ (Value κ)) (limit steps : Nat)

/-- The rounds of a loop over numbers. -/
def forRoundsWith (loop : Loop κ) : Nat → Ordering → Value κ → Value κ → Action σ κ (Value κ)
  | 0, _, _, _ => throw .exhausted
  | rounds + 1, direction, counter, last => do
    if counter.compareNumbers? loop.bound = some direction then
      Action.define loop.name counter
      let last ← recur loop.body
      let step ← loopStep recur loop
      let direction ← Action.ofExcept loop.position (Operator.stepDirection step)
      let held := (← Action.lookupHere loop.name).getD counter
      let counter ← Action.ofExcept loop.position (combine .add held step)
      if counter.isNumber then forRoundsWith loop rounds direction counter last
      else Action.fail (.loopVariable loop.name) loop.position
    else
      return last

/-- A loop over numbers whose bounds have been evaluated. -/
def forLoopWith (name : String) (first bound : Value κ) (step : Option Expr) (body : Expr)
    (position : Position) : Action σ κ (Value κ) :=
  if first.isNumber && bound.isNumber then
    let ascending := bound.compareNumbers? first ≠ some .lt
    let loop : Loop κ :=
      { name, bound, step, body, position, defaultStep := if ascending then 1 else -1 }
    let direction := if ascending then .lt else .gt
    Action.inFrame (forRoundsWith combine recur loop steps direction first .null)
  else
    Action.fail (.loopBounds first.typeName bound.typeName) position

/-- One node of a tree. -/
def nodeWith : Expr → Action σ κ (Value κ)
  | .binary .and left right _ => do
    let v ← recur left
    if v.truthy then return .bool (← recur right).truthy else return .bool false
  | .binary .or left right _ => do
    let v ← recur left
    if v.truthy then return .bool true else return .bool (← recur right).truthy
  | .binary operator left right position => do
    let v ← recur left
    let w ← recur right
    Action.ofExcept position (combine operator v w)
  | .forLoop name first bound step body position => do
    let first ← recur first
    let bound ← recur bound
    forLoopWith combine recur steps name first bound step body position
  | e => node recur limit steps e

end Evaluation

/-- Evaluates an expression with `combine` for the values of binary operators. -/
def evaluateWith (combine : BinaryOperator → Value κ → Value κ → Except Fault (Value κ))
    (limit : Nat) : Nat → Expr → Action σ κ (Value κ)
  | 0, _ => throw .exhausted
  | steps + 1, e => Evaluation.nodeWith combine (evaluateWith combine limit steps) limit steps e

section

variable {combine : BinaryOperator → Value κ → Value κ → Except Fault (Value κ)}
  (hcombine : ∀ operator, operator ≠ .and → operator ≠ .or →
    combine operator = Operator.binary operator)

include hcombine

/-- The rounds of a loop combine numbers by addition only. -/
theorem Evaluation.forRoundsWith_eq (recur : Expr → Action σ κ (Value κ)) (loop : Loop κ)
    (rounds : Nat) (direction : Ordering) (counter last : Value κ) :
    forRoundsWith combine recur loop rounds direction counter last =
      forRounds recur loop rounds direction counter last := by
  induction rounds generalizing direction counter last with
  | zero => rfl
  | succ rounds ih =>
    have hadd : combine .add = Operator.binary .add := hcombine .add nofun nofun
    rw [forRoundsWith, forRounds]
    simp only [hadd, ih]

/-- Operators are combined only where they are neither `and` nor `or`. -/
theorem Evaluation.nodeWith_eq (recur : Expr → Action σ κ (Value κ)) (limit steps : Nat)
    (e : Expr) : nodeWith combine recur limit steps e = node recur limit steps e := by
  cases e with
  | binary operator left right position =>
    have hoperator := hcombine operator
    cases operator with
    | and | or => rfl
    | _ =>
      refine bind_congr fun v => bind_congr fun w => ?_
      rw [hoperator nofun nofun]
  | forLoop name first bound step body position =>
    refine bind_congr fun first => bind_congr fun bound => ?_
    rw [forLoopWith, forLoop]
    simp only [forRoundsWith_eq hcombine]
  | _ => rfl

/-- What `and` and `or` would be combined to makes no difference. -/
theorem evaluateWith_eq (limit steps : Nat) (e : Expr) :
    (evaluateWith combine limit steps e : Action σ κ (Value κ)) = evaluate limit steps e := by
  induction steps generalizing e with
  | zero => rfl
  | succ steps ih =>
    have hrecur : (evaluateWith combine limit steps : Expr → Action σ κ (Value κ)) =
        evaluate limit steps := funext ih
    rw [evaluateWith, evaluate, hrecur, Evaluation.nodeWith_eq hcombine]

end

end

/-- The branches that guard against the impossible are never taken.  The parser never refuses a
numeral of a text, and the integers of a program are the numbers that the digits in the text denote.
No run fails because the variable of a loop is no number any more, and whatever the combination of
two values by `and` or `or` would give, or with which fault it would fail, every expression has the
same outcome. -/
theorem guarded_branches_unreachable [Runtime σ κ] (source : String) :
    (∀ e, parseSource source = .error (.syntactic e) →
      e.expected ≠ .integerInRange ∧ e.expected ≠ .floatNumeral) ∧
    (∀ program, parseSource source = .ok program →
      program.Everywhere fun e => ∀ n p, e = .literal (.int n) p →
        ∃ digits, Lexical.NumeralAt source.toList digits p ∧ n.toInt = numeralValue digits) ∧
    (∀ (i : Interpreter σ) e, (i.evaluateSource source).1 = .error (.runtime e) →
      ∀ name, e.fault ≠ .loopVariable name) ∧
    ∀ combine : BinaryOperator → Value κ → Value κ → Except Fault (Value κ),
      (∀ operator, operator ≠ .and → operator ≠ .or →
        combine operator = Operator.binary operator) →
      ∀ limit steps e,
        (evaluateWith combine limit steps e : Action σ κ (Value κ)) = evaluate limit steps e := by
  refine ⟨fun e h => expected_of_parseSource h, fun program h => integers_of_parseSource h,
    fun i e h name => Interpreter.fault_of_evaluateSource h name,
    fun combine h => evaluateWith_eq h⟩

end SnapshotScript
