import SnapshotScript.Proofs.Discipline
import SnapshotScript.Proofs.Grammar.Agreement
import SnapshotScript.Proofs.Grammar.Juxtaposition
import SnapshotScript.Proofs.Lexical.Juxtaposition
import SnapshotScript.Proofs.Session.Layout

/-!
# Texts that are split

A text may be given to an interpreter in two parts, one after the other.  If the first part runs to
its end, then the second part gives what the whole text gives.  The items of the whole text are
those of both parts, and between them an evaluation does nothing: the current frame stays, and no
call is active.

The text is split at the end of a line where an item ends, too.  So the first part must not end with
a `return`, and the second one must not begin with a token that goes on with the item before: the
lines `x` and `-x` are two items if they are given one by one, and a difference if they are not.
-/

namespace SnapshotScript

/-! ### Items in a row -/

namespace Evaluation

variable {σ κ : Type} (recur : Expr → Action σ κ (Value κ))

/-- Expressions in a row are evaluated like some of them first and then the others. -/
theorem sequence_append (last : Value κ) (items items' : List Expr) :
    sequence recur last (items ++ items') =
      sequence recur last items >>= fun v => sequence recur v items' := by
  induction items generalizing last with
  | nil => rfl
  | cons e items ih =>
    rw [List.cons_append, sequence, sequence, bind_assoc]
    exact congrArg (recur e >>= ·) (funext ih)

/-- The value before does not matter if there are expressions. -/
theorem sequence_congr {items : List Expr} (hne : items ≠ []) (last last' : Value κ) :
    sequence recur last items = sequence recur last' items := by
  cases items with
  | nil => exact absurd rfl hne
  | cons e items => rfl

end Evaluation

/-- If the first items of a block are evaluated to the end, then the block is evaluated like its
other items in the state that they leave. -/
theorem evaluate_block_append {σ κ : Type} [Runtime σ κ] {limit steps : Nat}
    {items items' : List Expr} {p : Position} {m m' : σ} {v : Value κ}
    (h : evaluate limit steps (.block items p) m = .ok v m') (hne : items' ≠ [])
    (p' q : Position) :
    evaluate limit steps (.block (items ++ items') q) m =
      evaluate limit steps (.block items' p') m' := by
  cases steps with
  | zero => cases h
  | succ steps =>
    have hfirst : Evaluation.sequence (evaluate limit steps) .null items m = .ok v m' := h
    change Evaluation.sequence (evaluate limit steps) .null (items ++ items') m =
      Evaluation.sequence (evaluate limit steps) .null items' m'
    rw [Evaluation.sequence_append, Evaluation.sequence_congr _ hne .null v]
    change EStateM.bind _ _ m = _
    unfold EStateM.bind
    rw [hfirst]

/-! ### Programs in a row -/

namespace Interpreter

/-- The program runs to its end: it has a value without failing and without returning. -/
def Completes (i : Interpreter) (program : Expr) : Prop :=
  ∃ v m, evaluate i.depth i.steps program i.machine = .ok v m

variable {i j k : Interpreter} {program : Expr} {v : Value} {m : Machine}

/-- Interpreters are alike in both directions. -/
theorem Alike.symm (h : i.Alike j) : j.Alike i :=
  ⟨h.machine.symm, h.depth.symm, h.steps.symm⟩

/-- Interpreters that are like another one are alike. -/
theorem Alike.trans (h : i.Alike j) (h' : j.Alike k) : i.Alike k :=
  ⟨h.machine.trans h'.machine, h.depth.trans h'.depth, h.steps.trans h'.steps⟩

/-- A log entry makes no difference. -/
theorem Alike.logged (i : Interpreter) (entry : LogEntry) : (i.log entry).Alike i :=
  ⟨.logged i.machine entry, rfl, rfl⟩

/-- A program runs to its end on interpreters that are alike, and leaves machines that are. -/
theorem exists_ok_of_alike (hij : i.Alike j)
    (h : evaluate i.depth i.steps program i.machine = .ok v m) :
    ∃ v' m', evaluate j.depth j.steps program j.machine = .ok v' m' ∧ m.Alike m' := by
  have houtcome := evaluate_alike i.depth i.steps (Eq.refl program.unplaced) hij.machine
  rw [h, hij.depth, hij.steps] at houtcome
  generalize evaluate j.depth j.steps program j.machine = y at houtcome ⊢
  cases houtcome with
  | ok _ hm => exact ⟨_, _, rfl, hm⟩

/-- A program that runs to its end does so on every interpreter that is alike. -/
theorem Completes.of_alike (h : i.Completes program) (hij : i.Alike j) : j.Completes program := by
  obtain ⟨v, m, hvalue⟩ := h
  obtain ⟨v', m', hvalue', -⟩ := exists_ok_of_alike hij hvalue
  exact ⟨v', m', hvalue'⟩

/-- A program that runs to its end leaves the machine that its evaluation leaves. -/
theorem run_alike_of_ok (hcalls : i.machine.calls = #[])
    (h : evaluate i.depth i.steps program i.machine = .ok v m) :
    (i.run program).2.Alike ⟨m, i.depth, i.steps⟩ := by
  have hforget : Runtime.forgetCalls m = m := by
    have hfollows := evaluate_follows i.depth i.steps program i.machine
    unfold Action.final at hfollows
    rw [h] at hfollows
    have hnone : m.calls = #[] := hfollows.calls.trans hcalls
    exact congrArg (fun calls => ({ m with calls } : Machine)) hnone.symm
  unfold run
  rw [h]
  dsimp only
  rw [hforget]
  exact .logged _ _

/-- A program may be split between its items.  If the first ones run to their end, then the others,
as a program of their own, end like the whole program. -/
theorem run_split_alike {items items' : List Expr} {p p' q : Position}
    (hcalls : i.machine.calls = #[]) (hcompletes : i.Completes (.block items p)) (hne : items' ≠ [])
    (hprogram : program.unplaced = (Expr.block items' p').unplaced)
    (hj : j.Alike (i.run (.block items p)).2) (hk : k.Alike i) :
    EndsAlike (j.run program) (k.run (.block (items ++ items') q)) := by
  obtain ⟨v, m, hvalue⟩ := hcompletes
  have hj' : j.Alike ⟨m, i.depth, i.steps⟩ := hj.trans (run_alike_of_ok hcalls hvalue)
  obtain ⟨v', m', hvalue', hm⟩ := exists_ok_of_alike hk.symm hvalue
  refine run_alike_of_outcomes (hj'.depth.trans hk.depth.symm) (hj'.steps.trans hk.steps.symm) ?_
  rw [evaluate_block_append hvalue' hne p' q, hj'.depth, hj'.steps, hk.depth, hk.steps]
  exact evaluate_alike i.depth i.steps hprogram (hj'.machine.trans hm)

end Interpreter

/-! ### Texts in a row -/

/-- Tokens with the same pieces have the same token next. -/
theorem next_of_pieces_eq {ts ts' : List Token} (h : ts.map Token.piece = ts'.map Token.piece) :
    Grammar.next ts = Grammar.next ts' := by
  cases ts with
  | nil => rw [List.map_eq_nil_iff.1 h.symm]
  | cons t ts =>
    obtain ⟨t', ts', rfl, hpiece, -⟩ := List.map_eq_cons_iff.1 h.symm
    exact congrArg Prod.fst hpiece.symm

/-- The program of a text that is not empty has an item. -/
theorem items_ne_nil {ts : List Token} {items : List Expr} {p : Position}
    (h : Grammar.Program ts (.block items p)) (hts : Grammar.next ts ≠ .endOfInput) :
    items ≠ [] := by
  rintro rfl
  obtain ⟨_, hitems, ⟨⟩⟩ := h
  rw [← Grammar.next_takeWhile] at hts
  generalize ts.takeWhile (·.kind ≠ .endOfInput) = read at hitems hts
  cases hitems
  exact hts rfl

/-- Two texts with a line feed between them form one program with the items of both, up to
positions, if items may follow the first text and the second one begins with an item. -/
theorem exists_program_append {first second : String} {ts ts' : List Token}
    {program program' : Expr} (hts : tokenize first = .ok ts)
    (hprogram : parseTokens ts = .ok program) (hts' : tokenize second = .ok ts')
    (hprogram' : parseTokens ts' = .ok program') (hprecedes : Grammar.Precedes ts.dropLast ts') :
    ∃ tokens items items' p p' q, program = .block items p ∧
      program'.unplaced = (Expr.block items' p').unplaced ∧ items' ≠ [] ∧
      tokenize (first ++ "\n" ++ second) = .ok tokens ∧
      parseTokens tokens = .ok (.block (items ++ items') q) := by
  obtain ⟨ts'', htokens, hpieces⟩ := tokenize_append_lineFeed hts hts'
  obtain ⟨program'', hparse, hsame⟩ := parseTokens_of_pieces_eq hprogram' hpieces.symm
  have hnext : Grammar.next ts'' = Grammar.next ts' := next_of_pieces_eq hpieces
  have hderived := derived_of_parseTokens hprogram
  have hderived'' := derived_of_parseTokens hparse
  obtain ⟨items, -, rfl⟩ := id hderived
  obtain ⟨items'', -, rfl⟩ := id hderived''
  -- the tokens of the first text are its end and those before it
  obtain ⟨read, hread, hlive⟩ := (Lexical.tokenizes_of_tokenize hts).exists_read ts rfl
  rw [hread, List.dropLast_concat] at hprecedes htokens
  rw [hread] at hderived
  obtain ⟨q, hall⟩ := hderived.append hderived'' hlive rfl
    ⟨hnext ▸ hprecedes.next_mem, hprecedes.last_ne⟩
  refine ⟨_, items, items'', _, _, q, rfl, hsame, ?_, htokens, parseTokens_of_derived hall⟩
  refine items_ne_nil hderived'' fun hend => ?_
  have hmem := hprecedes.next_mem
  rw [← hnext, hend] at hmem
  exact absurd hmem (by decide)

namespace Interpreter

/-- A text may be split where an item ends.  If the first part runs to its end, then the second part
ends like the whole text: with the same value or with the same fault in the same active calls, if at
all.  What has been printed is the same, and so are the values of all names. -/
theorem evaluateSource_split_alike (i : Interpreter) (hcalls : i.machine.calls = #[])
    {first second : String} {ts ts' : List Token} {program program' : Expr}
    (hts : tokenize first = .ok ts) (hprogram : parseTokens ts = .ok program)
    (hts' : tokenize second = .ok ts') (hprogram' : parseTokens ts' = .ok program')
    (hprecedes : Grammar.Precedes ts.dropLast ts') (hcompletes : i.Completes program) :
    EndsAlike ((i.evaluateSource first).2.evaluateSource second)
      (i.evaluateSource (first ++ "\n" ++ second)) := by
  obtain ⟨tokens, items, items', p, p', q, rfl, hsame, hne, htokens, hparse⟩ :=
    exists_program_append hts hprogram hts' hprogram' hprecedes
  have hlogs : ∀ (i : Interpreter) (entry entry' : LogEntry),
      ((i.log entry).log entry').Alike i := fun i entry entry' =>
    (Alike.logged (i.log entry) entry').trans (.logged i entry)
  rw [evaluateSource_eq_run hts hprogram, evaluateSource_eq_run hts' hprogram',
    evaluateSource_eq_run htokens hparse]
  refine run_split_alike ?_ (hcompletes.of_alike (hlogs i _ _).symm) hne hsame (hlogs _ _ _)
    ((hlogs i _ _).trans (hlogs i _ _).symm)
  exact hcalls

/-- A function that is defined in the first part, before a comment, is called in the second one. -/
theorem evaluateSource_split_alike_call :
    let i : Interpreter := ⟨.initial, 2, 9⟩
    ∃ (ts ts' : List Token) (program program' : Expr),
      i.machine.calls = #[] ∧ tokenize "fun f() -> x # one" = .ok ts ∧
      parseTokens ts = .ok program ∧ tokenize "set x = 'a' f()" = .ok ts' ∧
      parseTokens ts' = .ok program' ∧ Grammar.Precedes ts.dropLast ts' ∧ i.Completes program ∧
      EndsAlike ((i.evaluateSource "fun f() -> x # one").2.evaluateSource "set x = 'a' f()")
        (i.evaluateSource ("fun f() -> x # one" ++ "\n" ++ "set x = 'a' f()")) := by
  intro i
  have hts : tokenize "fun f() -> x # one" = .ok [⟨.keyword .fun, "fun", ⟨1, 1⟩, ⟨1, 4⟩⟩,
      ⟨.identifier, "f", ⟨1, 5⟩, ⟨1, 6⟩⟩, ⟨.leftParen, "(", ⟨1, 6⟩, ⟨1, 7⟩⟩,
      ⟨.rightParen, ")", ⟨1, 7⟩, ⟨1, 8⟩⟩, ⟨.arrow, "->", ⟨1, 9⟩, ⟨1, 11⟩⟩,
      ⟨.identifier, "x", ⟨1, 12⟩, ⟨1, 13⟩⟩, .endAt ⟨1, 19⟩] := rfl
  have hts' : tokenize "set x = 'a' f()" = .ok [⟨.keyword .set, "set", ⟨1, 1⟩, ⟨1, 4⟩⟩,
      ⟨.identifier, "x", ⟨1, 5⟩, ⟨1, 6⟩⟩, ⟨.assign, "=", ⟨1, 7⟩, ⟨1, 8⟩⟩,
      ⟨.string, "a", ⟨1, 9⟩, ⟨1, 12⟩⟩, ⟨.identifier, "f", ⟨1, 13⟩, ⟨1, 14⟩⟩,
      ⟨.leftParen, "(", ⟨1, 14⟩, ⟨1, 15⟩⟩, ⟨.rightParen, ")", ⟨1, 15⟩, ⟨1, 16⟩⟩,
      .endAt ⟨1, 16⟩] := rfl
  have hcompletes : i.Completes (.block [.function (some "f") []
      (.identifier "x" ⟨1, 12⟩) ⟨1, 1⟩] ⟨1, 1⟩) := ⟨_, _, rfl⟩
  exact ⟨_, _, _, _, rfl, hts, rfl, hts', rfl, ⟨by decide, by decide⟩, hcompletes,
    evaluateSource_split_alike i rfl hts rfl hts' rfl ⟨by decide, by decide⟩ hcompletes⟩

end Interpreter

end SnapshotScript
