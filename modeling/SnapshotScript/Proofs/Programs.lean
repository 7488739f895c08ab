import SnapshotScript.Proofs.Instance.Watch
import SnapshotScript.Proofs.Lockstep

/-!
# Programs in step

What a lawful link says about expressions carries over to programs and to source texts: they have
corresponding results, and leave corresponding states.  Between two programs no call is active, so
for this the end of all calls has to lead from corresponding states to corresponding ones as well.
-/

namespace SnapshotScript

namespace Interpreter

variable {σ κ : Type} [Runtime σ κ]

/-- The interpreter after a program that has left a state, and whether it has failed. -/
def close (i : Interpreter σ) (s : σ) (ok : Bool) : Interpreter σ :=
  { i with machine := Runtime.forgetCalls s : Interpreter σ }.log (.finished ok)

/-- The result of a program, and the interpreter afterwards, from the outcome of its expression. -/
def finish (i : Interpreter σ) :
    EStateM.Result (Unwind κ) σ (Value κ) → Except Failure (Value κ) × Interpreter σ
  | .ok v s => (.ok v, i.close s true)
  | .error (.returned v) s => (.ok v, i.close s true)
  | .error (.failed e) s => (.error (.runtime e), i.close s false)
  | .error .exhausted s => (.error .exhausted, i.close s false)

/-- Each program that is read from one of the texts is the program of that text. -/
theorem exists_source_of_mem {sources : List String} {program : Expr}
    (h : program ∈ sources.filterMap fun source => (parseSource source).toOption) :
    ∃ source ∈ sources, parseSource source = .ok program := by
  obtain ⟨source, hmem, hsource⟩ := List.mem_filterMap.1 h
  refine ⟨source, hmem, ?_⟩
  cases hparse : parseSource source with
  | error e =>
    rw [hparse] at hsource
    cases hsource
  | ok program' =>
    rw [hparse] at hsource
    cases hsource
    rfl

/-- To run a program is to evaluate its expression. -/
theorem run_eq_finish (i : Interpreter σ) (program : Expr) :
    i.run program = i.finish (evaluate i.depth i.steps program i.machine) := by
  unfold run finish
  cases evaluate i.depth i.steps program i.machine with
  | ok v s => rfl
  | error u s => cases u <;> rfl

end Interpreter

namespace Link

variable {W σ κ σ' κ' : Type} {L : Link W σ κ σ' κ'} {w w' : W}

/-- Results that correspond: values that do, or the same error. -/
inductive Results (L : Link W σ κ σ' κ') (w : W) :
    Except Failure (Value κ) → Except Failure (Value κ') → Prop
  | ok {v v'} : L.values w v v' → Results L w (.ok v) (.ok v')
  | error (e) : Results L w (.error e) (.error e)

/-- Interpreters with equal limits in states that correspond. -/
structure Interpreters (L : Link W σ κ σ' κ') (w : W) (i : Interpreter σ) (j : Interpreter σ') :
    Prop where
  machine : L.states w i.machine j.machine
  depth : i.depth = j.depth
  steps : i.steps = j.steps

variable [Preorder W] [Runtime σ κ] [Runtime σ' κ'] {i : Interpreter σ} {j : Interpreter σ'}

/-- The end of all calls leads from corresponding states to corresponding ones. -/
def Forgets (L : Link W σ κ σ' κ') : Prop :=
  ∀ {w s s'}, L.states w s s' →
    ∃ w', w ≤ w' ∧ L.states w' (Runtime.forgetCalls s) (Runtime.forgetCalls s')

namespace Lawful

variable (hL : L.Lawful)

include hL

/-- Results that correspond do so in every later world. -/
theorem results_mono (hle : w ≤ w') {r : Except Failure (Value κ)}
    {r' : Except Failure (Value κ')} (h : L.Results w r r') : L.Results w' r r' := by
  cases h with
  | ok hv => exact .ok (hL.carries hle _ _ hv)
  | error e => exact .error e

/-- An entry in both journals leaves interpreters that correspond. -/
theorem log_simulates (h : L.Interpreters w i j) (entry : LogEntry) :
    ∃ w', w ≤ w' ∧ L.Interpreters w' (i.log entry) (j.log entry) := by
  obtain ⟨w', hle, ht⟩ := hL.record (.logged entry) h.machine
  exact ⟨w', hle, ht, h.depth, h.steps⟩

variable (hforgets : L.Forgets)

include hforgets

/-- Programs that end in corresponding states leave corresponding interpreters. -/
theorem close_simulates {s : σ} {s' : σ'} (h : L.states w s s') (hdepth : i.depth = j.depth)
    (hsteps : i.steps = j.steps) (ok : Bool) :
    ∃ w', w ≤ w' ∧ L.Interpreters w' (i.close s ok) (j.close s' ok) := by
  obtain ⟨w₁, h₁, ht⟩ := hforgets h
  have hclosed : L.Interpreters w₁ ⟨Runtime.forgetCalls s, i.depth, i.steps⟩
      ⟨Runtime.forgetCalls s', j.depth, j.steps⟩ := ⟨ht, hdepth, hsteps⟩
  obtain ⟨w₂, h₂, hlogged⟩ := hL.log_simulates hclosed (.finished ok)
  exact ⟨w₂, le_trans h₁ h₂, hlogged⟩

/-- Programs whose expressions have corresponding outcomes have corresponding results. -/
theorem finish_simulates {x : EStateM.Result (Unwind κ) σ (Value κ)}
    {y : EStateM.Result (Unwind κ') σ' (Value κ')} (h : L.Outcomes w (L.values w) x y)
    (hdepth : i.depth = j.depth) (hsteps : i.steps = j.steps) :
    ∃ w', w ≤ w' ∧ L.Results w' (i.finish x).1 (j.finish y).1 ∧
      L.Interpreters w' (i.finish x).2 (j.finish y).2 := by
  cases h with
  | ok hv ht | returned hv ht =>
    obtain ⟨w', hle, hclosed⟩ := hL.close_simulates hforgets ht hdepth hsteps true
    exact ⟨w', hle, .ok (hL.carries hle _ _ hv), hclosed⟩
  | failed ht | exhausted ht =>
    obtain ⟨w', hle, hclosed⟩ := hL.close_simulates hforgets ht hdepth hsteps false
    exact ⟨w', hle, .error _, hclosed⟩

/-- A program has corresponding results. -/
theorem run_simulates (h : L.Interpreters w i j) {program : Expr} (hprogram : L.code w program) :
    ∃ w', w ≤ w' ∧ L.Results w' (i.run program).1 (j.run program).1 ∧
      L.Interpreters w' (i.run program).2 (j.run program).2 := by
  obtain ⟨w₁, h₁, hout⟩ :=
    hL.evaluate_simulates j.depth j.steps w program hprogram _ _ h.machine
  obtain ⟨w₂, h₂, hfinished⟩ := hL.finish_simulates hforgets hout h.depth h.steps
  refine ⟨w₂, le_trans h₁ h₂, ?_⟩
  rw [i.run_eq_finish, j.run_eq_finish, h.depth, h.steps]
  exact hfinished

/-- A source text has corresponding results. -/
theorem evaluateSource_simulates (h : L.Interpreters w i j) {source : String}
    (hsource : ∀ program, parseSource source = .ok program → L.code w program) :
    ∃ w', w ≤ w' ∧ L.Results w' (i.evaluateSource source).1 (j.evaluateSource source).1 ∧
      L.Interpreters w' (i.evaluateSource source).2 (j.evaluateSource source).2 := by
  unfold Interpreter.evaluateSource
  cases htokens : tokenize source with
  | error e => exact ⟨w, le_refl w, .error _, h⟩
  | ok tokens =>
    obtain ⟨w₁, h₁, htokenized⟩ := hL.log_simulates h (.tokenized tokens.length)
    dsimp only
    cases hparse : parseTokens tokens with
    | error e => exact ⟨w₁, h₁, .error _, htokenized⟩
    | ok program =>
      have hprogram := hsource program (parseSource_eq_ok_iff.2 ⟨tokens, htokens, hparse⟩)
      obtain ⟨w₂, h₂, hparsed⟩ :=
        hL.log_simulates htokenized (.parsed (Interpreter.itemCount program))
      obtain ⟨w₃, h₃, hrun⟩ :=
        hL.run_simulates hforgets hparsed (hL.code_mono (le_trans h₁ h₂) hprogram)
      exact ⟨w₃, le_trans h₁ (le_trans h₂ h₃), hrun⟩

/-- Source texts that are evaluated one after another have corresponding results. -/
theorem evaluateAll_simulates (h : L.Interpreters w i j) {sources : List String}
    (hsources : ∀ source ∈ sources, ∀ program, parseSource source = .ok program →
      L.code w program) :
    ∃ w', w ≤ w' ∧
      List.Forall₂ (L.Results w') (i.evaluateAll sources).1 (j.evaluateAll sources).1 ∧
      L.Interpreters w' (i.evaluateAll sources).2 (j.evaluateAll sources).2 := by
  induction sources generalizing w i j with
  | nil => exact ⟨w, le_refl w, .nil, h⟩
  | cons source sources ih =>
    obtain ⟨hsource, hsources⟩ := List.forall_mem_cons.1 hsources
    obtain ⟨w₁, h₁, hresult, hafter⟩ := hL.evaluateSource_simulates hforgets h hsource
    obtain ⟨w₂, h₂, hresults, hend⟩ := ih hafter fun source hmem program hprogram =>
      hL.code_mono h₁ (hsources source hmem program hprogram)
    exact ⟨w₂, le_trans h₁ h₂, .cons (hL.results_mono h₂ hresult) hresults, hend⟩

end Lawful

end Link

end SnapshotScript
