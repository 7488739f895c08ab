import Mathlib.Order.CompleteBooleanAlgebra
import Mathlib.Order.CompletePartialOrder
import SnapshotScript.Proofs.Failure.Culprit
import SnapshotScript.Proofs.Holdings
import SnapshotScript.Proofs.Observation

/-!
# Where the expression that fails comes from

An expression is evaluated because it stands in the program that is run or in the body of a
function, and a function that a machine holds has been made by an earlier evaluation.  So if the
bodies of all functions that a machine holds have a property, and the program has it, then so has
the expression that fails, and the bodies of all functions afterwards.  The property has to pass on
from an expression to those inside of it.

The same simulation shows that to tell which expression has failed does not change a run.
-/

namespace SnapshotScript

variable {P Q : Expr → Prop} {m m' : Machine} {u v : Value}

/-! ### The functions that a machine holds -/

/-- If the value is a function, `P` holds of its body. -/
def Value.Runs (P : Expr → Prop) : Value → Prop
  | .function f => P f.body
  | _ => True

/-- `P` holds of the bodies of all functions in the machine. -/
def Machine.Runs (P : Expr → Prop) (m : Machine) : Prop :=
  ∀ v, m.Holds v → v.Runs P

theorem Value.Runs.mono (h : v.Runs P) (hPQ : ∀ e, P e → Q e) : v.Runs Q := by
  cases v with
  | function f => exact hPQ _ h
  | _ => trivial

theorem Machine.Runs.mono (h : m.Runs P) (hPQ : ∀ e, P e → Q e) : m.Runs Q :=
  fun v hv => (h v hv).mono hPQ

/-- What a machine runs is told by its frames and fields. -/
theorem Machine.Runs.of_eq (h : m.Runs P) (hscopes : m'.scopes = m.scopes)
    (hcells : m'.cells = m.cells) : m'.Runs P :=
  HoldsOnly.of_eq h hscopes hcells

/-- At the beginning, a machine only holds functions that are there from the beginning. -/
theorem Machine.initial_runs : Machine.initial.Runs P := by
  intro v hv
  obtain ⟨builtin, rfl⟩ := Machine.exists_builtin_of_initial_holds hv
  trivial

/-! ### The link -/

/-- The state is the machine, all functions that it holds have the property, and so has the
expression that has failed. -/
structure Blamed.Tells (P : Expr → Prop) (b : Blamed Machine) (m : Machine) : Prop where
  state : b.state = m
  runs : m.Runs P
  culprit : ∀ n, b.culprit = some n → P n

namespace Blamed

/-- What has been told stays told when the state changes as the machine does. -/
theorem Tells.update {b : Blamed Machine} (h : b.Tells P m)
    (hruns : m'.HoldsOnly (Value.Runs P)) : (b.update m').Tells P m' :=
  ⟨rfl, hruns, h.culprit⟩

/-- Runs that tell which expression has failed, and the runs themselves. -/
def link (P : Expr → Prop) : Link Unit (Blamed Machine) FrameId Machine FrameId where
  code _ := P
  states _ b m := b.Tells P m
  places _ := Eq
  sound _ v := v.Runs P

/-- The run that tells holds the same functions in the same places. -/
theorem link_stationary : (link P).Stationary :=
  fun _ => rfl

/-- Every operation does what it does to the machine. -/
theorem link_lawful (hP : ∀ e c, P e → c ∈ e.children → P c) : (link P).Lawful where
  code_mono _ he := he
  code_level he hc := hP _ _ he (Expr.mem_children_of_level hc)
  places_mono _ hk := hk
  sound_mono _ hv := hv
  sound_plain := by
    intro w v hv
    cases v <;> first | exact hv.elim | trivial
  sound_struct _ _ _ := trivial
  calls h := congrArg Machine.calls h.state
  cells := by
    intro w b m h
    obtain rfl := h.state
    exact Cells.related_refl b.state.cells
  lookup := by
    intro w b m name h
    obtain rfl := h.state
    exact link_stationary.rel_self fun v hv => h.runs v (.inl (Scopes.holds_of_lookupWithin hv))
  lookupHere := by
    intro w b m name h
    obtain rfl := h.state
    exact link_stationary.rel_self fun v hv => h.runs v (.inl (Scopes.holds_of_lookupHere hv))
  record := by
    intro w b m e h
    obtain rfl := h.state
    exact ⟨(), le_refl _, h.update (.of_eq h.runs rfl rfl)⟩
  define := by
    intro w b m v v' name h hv
    obtain rfl := h.state
    obtain ⟨rfl, hruns⟩ := link_stationary.values_iff.1 hv
    exact ⟨(), le_refl _, h.update (.define h.runs name hruns)⟩
  freshId := by
    intro w b m h
    obtain rfl := h.state
    exact ⟨rfl, (), le_refl _, h.update (.of_eq h.runs rfl rfl)⟩
  makeFunction := by
    intro w b m _ parameters body _ name h he
    obtain rfl := h.state
    have hruns : (Runtime.freshId b.state).2.HoldsOnly (Value.Runs P) := .of_eq h.runs rfl rfl
    have hfresh := h.update hruns
    exact ⟨(), le_refl _, link_stationary.values_iff.2 ⟨rfl, hP _ _ he List.mem_cons_self⟩,
      hfresh.update (.capture hfresh.runs)⟩
  makeObject := by
    intro w b m type values values' h _ _ hvalues
    obtain rfl := h.state
    obtain ⟨rfl, hruns⟩ := link_stationary.eq_of_values hvalues
    exact ⟨(), le_refl _, link_stationary.values_iff.2 ⟨rfl, trivial⟩,
      h.update (.makeObject h.runs type hruns)⟩
  readField := by
    intro w b m type cell field i h _ _
    obtain rfl := h.state
    refine ⟨(), le_refl _, link_stationary.rel_self fun v hv => ?_, h.update h.runs⟩
    exact h.runs v (b.state.holds_of_readField hv)
  writeField := by
    intro w b m type cell i f v v' h _ _ _ hv
    obtain rfl := h.state
    obtain ⟨rfl, hruns⟩ := link_stationary.values_iff.1 hv
    exact ⟨(), le_refl _, h.update (.writeField h.runs cell i hruns)⟩
  frame := by
    intro w b m e h he
    obtain rfl := h.state
    refine ⟨(), fun _ _ => id, fun c hc => hP _ _ he (Expr.mem_children_of_opened hc),
      h.update (.enterFrame h.runs), fun w₂ _ b₂ m₂ h₂ => ?_⟩
    obtain rfl := h₂.state
    exact ⟨(), le_refl _, fun _ _ => id, h₂.update (.of_eq h₂.runs rfl rfl)⟩
  call := by
    intro w b m f f' names names' site h hf hnames
    obtain rfl := h.state
    obtain ⟨hsame, hbody⟩ := link_stationary.values_iff.1 hf
    cases hsame
    obtain ⟨rfl, hruns⟩ := link_stationary.eq_of_bindings hnames
    refine ⟨(), hbody, h.update (.enterCall h.runs f site hruns), fun w₂ _ b₂ m₂ h₂ => ?_⟩
    obtain rfl := h₂.state
    exact ⟨(), le_refl _, fun _ _ => id, h₂.update (.of_eq h₂.runs rfl rfl)⟩

/-! ### Expressions -/

/-- To blame an expression of which `P` holds does not change an action. -/
theorem blaming_simulates {w : Unit} {e : Expr} (he : P e)
    {x : Action (Blamed Machine) FrameId Value} {y : Run Value}
    (h : (link P).Simulates w (link P).values x y) :
    (link P).Simulates w (link P).values (blaming e x) y := by
  intro b m hb
  obtain ⟨w', hle, hout⟩ := h b m hb
  refine ⟨w', hle, ?_⟩
  unfold blaming
  generalize x b = result at hout
  generalize y m = result' at hout
  cases hout with
  | ok hv hb' => exact .ok hv hb'
  | returned hv hb' => exact .returned hv hb'
  | exhausted hb' => exact .exhausted hb'
  | @failed error b' m' hb' =>
    refine .failed ⟨hb'.state, hb'.runs, fun n hn => ?_⟩
    cases hculprit : b'.culprit with
    | none =>
      rw [hculprit] at hn
      cases hn
      exact he
    | some inner =>
      rw [hculprit] at hn
      cases hn
      exact hb'.culprit inner hculprit

/-- The evaluation that tells which expression has failed is the ordinary evaluation, and the
expression has the property. -/
theorem evaluate_simulates (hP : ∀ e c, P e → c ∈ e.children → P c) (limit steps : Nat) (w : Unit)
    (e : Expr) (he : P e) :
    (link P).Simulates w (link P).values (evaluateBlaming limit steps e)
      (evaluate limit steps e) := by
  induction steps generalizing w e with
  | zero => exact Link.exhausted_simulates
  | succ steps ih =>
    exact blaming_simulates he ((link_lawful hP).node_simulates (fun w e he => ih w e he) he)

end Blamed

/-! ### Texts -/

namespace Interpreter

variable {i : Interpreter} {source : String}

/-- A program that fails does so at one of the expressions that it runs, and what it leaves are
functions that it has run or might have run. -/
theorem run_runs (hP : ∀ e c, P e → c ∈ e.children → P c) (hruns : i.machine.Runs P)
    {program : Expr} (hprogram : P program) :
    (i.run program).2.machine.Runs P ∧
      ∀ e, (i.run program).1 = .error (.runtime e) → ∃ n b,
        evaluateBlaming i.depth i.steps program ⟨i.machine, none⟩ = .error (.failed e) b ∧
          b.culprit = some n ∧ P n ∧ e.position ∈ n.faultPositions := by
  have hstart : (Blamed.mk i.machine none).Tells P i.machine := ⟨rfl, hruns, nofun⟩
  obtain ⟨w', -, hout⟩ :=
    Blamed.evaluate_simulates hP i.depth i.steps () program hprogram _ _ hstart
  have hblame : Attributed (κ := FrameId) (fun _ => False) Anything
      (evaluateBlaming i.depth i.steps program (Blamed.mk i.machine none)) :=
    evaluateBlaming_attributes i.depth i.steps program (Blamed.mk i.machine none) rfl
  unfold run
  generalize evaluateBlaming i.depth i.steps program (Blamed.mk i.machine none) = x at hout hblame ⊢
  generalize evaluate i.depth i.steps program i.machine = y at hout ⊢
  cases hout with
  | ok _ hb => exact ⟨hb.runs.of_eq rfl rfl, nofun⟩
  | returned _ hb => exact ⟨hb.runs.of_eq rfl rfl, nofun⟩
  | exhausted hb => exact ⟨hb.runs.of_eq rfl rfl, nofun⟩
  | failed hb =>
    refine ⟨hb.runs.of_eq rfl rfl, fun e he => ?_⟩
    cases he
    cases hblame with
    | own hfalse _ => exact hfalse.elim
    | @inner _ _ n hculprit hp => exact ⟨n, _, rfl, hculprit, hb.culprit n hculprit, hp⟩

/-- If the text fails, then at one of the expressions that it runs, and what it leaves are functions
that it has run or might have run. -/
theorem evaluateSource_runs (hP : ∀ e c, P e → c ∈ e.children → P c) (hruns : i.machine.Runs P)
    (hsource : ∀ program, parseSource source = .ok program → P program) :
    (i.evaluateSource source).2.machine.Runs P ∧
      ∀ e, (i.evaluateSource source).1 = .error (.runtime e) →
        ∃ n, i.culprit? source = some n ∧ P n ∧ e.position ∈ n.faultPositions := by
  unfold evaluateSource culprit?
  cases htokens : tokenize source with
  | error e => exact ⟨hruns, nofun⟩
  | ok tokens =>
    have hlogged : (i.log (.tokenized tokens.length)).machine.Runs P := hruns.of_eq rfl rfl
    dsimp only
    cases hparse : parseTokens tokens with
    | error e => exact ⟨hlogged, nofun⟩
    | ok program =>
      have hprogram := hsource program (parseSource_eq_ok_iff.2 ⟨tokens, htokens, hparse⟩)
      obtain ⟨hafter, hfailed⟩ :=
        run_runs (i := (i.log (.tokenized tokens.length)).log (.parsed (itemCount program))) hP
          (hlogged.of_eq rfl rfl) hprogram
      refine ⟨hafter, fun e he => ?_⟩
      obtain ⟨n, b, hrun, hculprit, hn, hp⟩ := hfailed e he
      refine ⟨n, ?_, hn, hp⟩
      dsimp only
      rw [hrun]
      exact hculprit

end Interpreter

end SnapshotScript
