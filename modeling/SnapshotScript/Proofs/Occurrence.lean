import Mathlib.Order.CompleteBooleanAlgebra
import Mathlib.Order.CompletePartialOrder
import SnapshotScript.Proofs.Discipline
import SnapshotScript.Proofs.Holdings
import SnapshotScript.Proofs.Notes
import SnapshotScript.Proofs.Observation

/-!
# The values that occur

A value occurs in a run if an expression has it at some moment.  So that this can be told, all
values of expressions are noted here.  To note them does not change the run.

Values come from code: the struct types and functions of a run are those that its expressions
define.  If a property of code passes on to the values that such code makes (`Passes`), then it
holds of all values that occur, at any moment of any number of programs (`runAllNoting_passes`).
-/

namespace SnapshotScript

/-! ### Runs that note all values -/

section Noting

variable {σ κ : Type} [Runtime σ κ]

/-- Evaluates an expression, and notes its value and those of all expressions on the way. -/
def evaluateNoting (limit : Nat) : Nat → Expr → Action (Noted σ (Value κ)) κ (Value κ)
  | 0, _ => throw .exhausted
  | steps + 1, e => do
    let v ← Evaluation.node (evaluateNoting limit steps) limit steps e
    modify (Noted.note v)
    return v

namespace Interpreter

/-- Evaluates a program, and notes all values of its expressions. -/
def runNoting (i : Interpreter (Noted σ (Value κ))) (program : Expr) :
    Except Failure (Value κ) × Interpreter (Noted σ (Value κ)) :=
  i.finish (evaluateNoting i.depth i.steps program i.machine)

/-- The interpreter after programs that are evaluated one after another, whether they fail or not,
with the values of all expressions noted. -/
def runAllNoting (i : Interpreter (Noted σ (Value κ))) (programs : List Expr) :
    Interpreter (Noted σ (Value κ)) :=
  programs.foldl (fun i program => (i.runNoting program).2) i

/-- The interpreter after the programs of all texts that can be read, from the beginning on, with
the values of all expressions noted. -/
def noting (depth steps : Nat) (sources : List String) : Interpreter (Noted Machine Value) :=
  (Interpreter.mk ⟨Machine.initial, []⟩ depth steps).runAllNoting
    (sources.filterMap fun source => (parseSource source).toOption)

end Interpreter

end Noting

/-! ### What passes from code to values -/

/-- Of code of which `C` holds, and of the values it is given, only values come of which `S`
holds. -/
structure Passes (C : Expr → Prop) (S : Value → Prop) : Prop where
  inner {e c} : C e → c ∈ e.children → C c
  plain {v} : v.Plain → S v
  struct {e name fields} (id : Nat) : C e → e.Declares name fields →
    S (.structType ⟨id, name, fields⟩)
  object {type} (cell : CellId) : S (.structType type) → S (.object type cell)
  function {f} : S (.function f) ↔ C f.body

variable {C : Expr → Prop} {S : Value → Prop} {m m' : Machine} {u v : Value}

/-- The state is the machine.  The property holds of the values that the machine holds, and of those
that have been noted. -/
structure Noted.Keeps (S : Value → Prop) (b : Noted Machine Value) (m : Machine) : Prop where
  state : b.state = m
  held : ∀ v, m.Holds v → S v
  notes : ∀ v ∈ b.notes, S v

namespace Noted

variable {b : Noted Machine Value}

/-- What has been noted stays noted when the state changes as the machine does. -/
theorem Keeps.update (h : b.Keeps S m) (hheld : m'.HoldsOnly S) : (b.update m').Keeps S m' :=
  ⟨rfl, hheld, h.notes⟩

/-- A value with the property is noted. -/
theorem Keeps.note (h : b.Keeps S m) (hv : S v) : (b.note v).Keeps S m :=
  ⟨h.state, h.held, List.forall_mem_cons.2 ⟨hv, h.notes⟩⟩

/-- Runs with all values noted, and the runs themselves. -/
def link (C : Expr → Prop) (S : Value → Prop) :
    Link Unit (Noted Machine Value) FrameId Machine FrameId where
  code _ := C
  states _ b m := b.Keeps S m
  places _ := Eq
  sound _ := S

/-- A run with notes holds the same functions in the same places. -/
theorem link_stationary : (link C S).Stationary :=
  fun _ => rfl

/-- Every operation does what it does to the machine, and adds only values with the property. -/
theorem link_lawful (hpasses : Passes C S) : (link C S).Lawful where
  code_mono _ he := he
  code_level he hc := hpasses.inner he (Expr.mem_children_of_level hc)
  places_mono _ hk := hk
  sound_mono _ hv := hv
  sound_plain := hpasses.plain
  sound_struct := hpasses.struct
  calls h := congrArg Machine.calls h.state
  cells := by
    intro w b m h
    obtain rfl := h.state
    exact Cells.related_refl b.state.cells
  lookup := by
    intro w b m name h
    obtain rfl := h.state
    exact link_stationary.rel_self fun v hv => h.held v (.inl (Scopes.holds_of_lookupWithin hv))
  lookupHere := by
    intro w b m name h
    obtain rfl := h.state
    exact link_stationary.rel_self fun v hv => h.held v (.inl (Scopes.holds_of_lookupHere hv))
  record := by
    intro w b m e h
    obtain rfl := h.state
    exact ⟨(), le_refl _, h.update (.of_eq h.held rfl rfl)⟩
  define := by
    intro w b m v v' name h hv
    obtain rfl := h.state
    obtain ⟨rfl, hsound⟩ := link_stationary.values_iff.1 hv
    exact ⟨(), le_refl _, h.update (.define h.held name hsound)⟩
  freshId := by
    intro w b m h
    obtain rfl := h.state
    exact ⟨rfl, (), le_refl _, h.update (.of_eq h.held rfl rfl)⟩
  makeFunction := by
    intro w b m _ parameters body _ name h he
    obtain rfl := h.state
    have hbody : C body := hpasses.inner he List.mem_cons_self
    have hheld : (Runtime.freshId b.state).2.HoldsOnly S := .of_eq h.held rfl rfl
    have hfresh := h.update hheld
    exact ⟨(), le_refl _, link_stationary.values_iff.2 ⟨rfl, hpasses.function.2 hbody⟩,
      hfresh.update (.capture hfresh.held)⟩
  makeObject := by
    intro w b m type values values' h htype _ hvalues
    obtain rfl := h.state
    obtain ⟨rfl, hsound⟩ := link_stationary.eq_of_values hvalues
    exact ⟨(), le_refl _, link_stationary.values_iff.2 ⟨rfl, hpasses.object _ htype⟩,
      h.update (.makeObject h.held type hsound)⟩
  readField := by
    intro w b m type cell field i h _ _
    obtain rfl := h.state
    refine ⟨(), le_refl _, link_stationary.rel_self fun v hv => ?_, h.update h.held⟩
    exact h.held v (b.state.holds_of_readField hv)
  writeField := by
    intro w b m type cell i f v v' h _ _ _ hv
    obtain rfl := h.state
    obtain ⟨rfl, hsound⟩ := link_stationary.values_iff.1 hv
    exact ⟨(), le_refl _, h.update (.writeField h.held cell i hsound)⟩
  frame := by
    intro w b m e h he
    obtain rfl := h.state
    refine ⟨(), fun _ _ => id, fun c hc => hpasses.inner he (Expr.mem_children_of_opened hc),
      h.update (.enterFrame h.held), fun w₂ _ b₂ m₂ h₂ => ?_⟩
    obtain rfl := h₂.state
    exact ⟨(), le_refl _, fun _ _ => id, h₂.update (.of_eq h₂.held rfl rfl)⟩
  call := by
    intro w b m f f' names names' site h hf hnames
    obtain rfl := h.state
    obtain ⟨hsame, hfunction⟩ := link_stationary.values_iff.1 hf
    cases hsame
    obtain ⟨rfl, hsound⟩ := link_stationary.eq_of_bindings hnames
    refine ⟨(), hpasses.function.1 hfunction, h.update (.enterCall h.held f site hsound),
      fun w₂ _ b₂ m₂ h₂ => ?_⟩
    obtain rfl := h₂.state
    exact ⟨(), le_refl _, fun _ _ => id, h₂.update (.of_eq h₂.held rfl rfl)⟩

/-- The end of all calls concerns no values. -/
theorem link_forgets : (link C S).Forgets := by
  intro w b m h
  obtain rfl := h.state
  exact ⟨(), le_refl _, h.update (.of_eq h.held rfl rfl)⟩

/-- The evaluation that notes all values is the ordinary one, and the property holds of them. -/
theorem evaluateNoting_simulates (hpasses : Passes C S) (limit steps : Nat) (w : Unit) (e : Expr)
    (he : C e) :
    (link C S).Simulates w (link C S).values (evaluateNoting limit steps e)
      (evaluate limit steps e) := by
  induction steps generalizing w e with
  | zero => exact Link.exhausted_simulates
  | succ steps ih =>
    have hnode : (link C S).Simulates w (link C S).values
        (Evaluation.node (evaluateNoting limit steps) limit steps e)
        (Evaluation.node (evaluate limit steps) limit steps e) :=
      (link_lawful hpasses).node_simulates (fun w e he => ih w e he) he
    intro b m h
    obtain ⟨w', hle, hout⟩ := hnode b m h
    refine ⟨w', hle, ?_⟩
    change (link C S).Outcomes w' _
      (EStateM.bind (Evaluation.node (evaluateNoting limit steps) limit steps e) _ b)
      (Evaluation.node (evaluate limit steps) limit steps e m)
    unfold EStateM.bind
    generalize Evaluation.node (evaluateNoting limit steps) limit steps e b = result at hout
    generalize Evaluation.node (evaluate limit steps) limit steps e m = result' at hout
    cases hout with
    | ok hv h' => exact .ok hv (h'.note (link_stationary.values_iff.1 hv).2)
    | returned hv h' => exact .returned hv h'
    | failed h' => exact .failed h'
    | exhausted h' => exact .exhausted h'

end Noted

/-! ### Programs -/

namespace Interpreter

variable {i : Interpreter (Noted Machine Value)} {j : Interpreter}

/-- A program whose values are noted does what the program does, and the property holds of the
values. -/
theorem runNoting_simulates (hpasses : Passes C S) (h : (Noted.link C S).Interpreters () i j)
    {program : Expr} (hprogram : C program) :
    (Noted.link C S).Interpreters () (i.runNoting program).2 (j.run program).2 := by
  obtain ⟨w, -, hout⟩ :=
    Noted.evaluateNoting_simulates hpasses j.depth j.steps () program hprogram _ _ h.machine
  obtain ⟨w', -, -, hend⟩ :=
    (Noted.link_lawful hpasses).finish_simulates Noted.link_forgets hout h.depth h.steps
  rw [run_eq_finish, runNoting, h.depth, h.steps]
  exact hend

/-- Programs whose values are noted do what the programs do, and a property that passes from their
code to the values they make holds of all values that occur. -/
theorem runAllNoting_passes (hpasses : Passes C S) (hheld : ∀ v, j.machine.Holds v → S v)
    {programs : List Expr} (hprograms : ∀ program ∈ programs, C program) :
    let noting := (Interpreter.mk ⟨j.machine, []⟩ j.depth j.steps).runAllNoting programs
    noting.machine.state = (j.runAll programs).machine ∧ ∀ v ∈ noting.machine.notes, S v := by
  have hall : ∀ {i : Interpreter (Noted Machine Value)} {j : Interpreter},
      (Noted.link C S).Interpreters () i j →
        (Noted.link C S).Interpreters () (i.runAllNoting programs) (j.runAll programs) := by
    induction programs with
    | nil => exact id
    | cons program programs ih =>
      intro i j h
      obtain ⟨hprogram, hprograms⟩ := List.forall_mem_cons.1 hprograms
      exact ih hprograms (runNoting_simulates hpasses h hprogram)
  have hstart : (Noted.link C S).Interpreters () ⟨⟨j.machine, []⟩, j.depth, j.steps⟩ j :=
    ⟨⟨rfl, hheld, nofun⟩, rfl, rfl⟩
  have hend := hall hstart
  exact ⟨hend.machine.state, hend.machine.notes⟩

end Interpreter

end SnapshotScript
