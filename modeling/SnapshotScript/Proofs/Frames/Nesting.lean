import SnapshotScript.Proofs.Discipline
import SnapshotScript.Proofs.Frames.Capture
import SnapshotScript.Proofs.Frames.Tracing
import SnapshotScript.Proofs.Holdings
import SnapshotScript.Proofs.Observation

/-!
# The chain of the current frame mirrors the program

The chain of the current frame has one frame for the program, and one more for each body of a
function and each body or step of a loop over numbers around the expression that is evaluated.  It
does not matter how often frames have been copied, how deep the calls are, in which loops and calls
the functions were made, or how earlier programs ended.

This can only be shown together with what a function keeps: the frame of a function has a chain that
mirrors the place of the function in its program.  A call opens a frame below that one, and goes on
with the body, which is one frame deeper in the same program.  When the call ends, the program and
the frame are again those from before.
-/

namespace SnapshotScript

variable {P : Expr → Prop} {t t' : Traced} {nesting : Nat} {u v : Value} {f : Function}

/-- Of one of the programs, the evaluation of an expression has started, in a frame whose chain
mirrors the place of the expression. -/
structure Start.Mirrors (P : Expr → Prop) (start : Start) : Prop where
  program : P start.program
  chain : ∃ k, start.program.Encloses start.node k ∧
    start.machine.scopes.Chain start.machine.current (k + 1)

namespace Traced

/-- The function has been defined in one of the programs, in a frame whose chain mirrors the place
of the function: its body is one frame deeper. -/
structure Defines (P : Expr → Prop) (t : Traced) (f : Function) : Prop where
  lt_nextId : f.id < t.machine.nextId
  origin : P (t.origin f.id)
  chain : ∃ k, (t.origin f.id).Encloses f.body (k + 1) ∧ t.machine.scopes.Chain f.closure (k + 1)

/-- If the value is a function, it has been defined in one of the programs. -/
def Explains (P : Expr → Prop) (t : Traced) (v : Value) : Prop :=
  ∀ f, v = .function f → t.Defines P f

/-- The current frame mirrors a place at the given depth of the current program.  All functions that
are held have been defined in the programs, and all evaluations that have started were where they
should be. -/
structure Mirrors (P : Expr → Prop) (nesting : Nat) (t : Traced) : Prop where
  chain : t.machine.scopes.Chain t.machine.current (nesting + 1)
  program : P t.program
  held : ∀ v, t.machine.Holds v → t.Explains P v
  starts : ∀ start ∈ t.starts, start.Mirrors P

/-- A later trace: frames keep their chains, and functions come from where they came from. -/
structure Extends (t t' : Traced) : Prop where
  scopes : t.machine.scopes ≤ t'.machine.scopes
  nextId : t.machine.nextId ≤ t'.machine.nextId
  origin : ∀ id < t.machine.nextId, t'.origin id = t.origin id

namespace Extends

theorem refl (t : Traced) : t.Extends t :=
  ⟨le_refl _, Nat.le_refl _, fun _ _ => rfl⟩

theorem trans {t'' : Traced} (h : t.Extends t') (h' : t'.Extends t'') : t.Extends t'' where
  scopes := le_trans h.scopes h'.scopes
  nextId := Nat.le_trans h.nextId h'.nextId
  origin id hid := (h'.origin id (Nat.lt_of_lt_of_le hid h.nextId)).trans (h.origin id hid)

/-- A trace is later if no frame has been taken away and the identities are the same. -/
theorem of_scopes (hscopes : t.machine.scopes ≤ t'.machine.scopes)
    (hnextId : t'.machine.nextId = t.machine.nextId) (horigin : t'.origin = t.origin) :
    t.Extends t' :=
  ⟨hscopes, Nat.le_of_eq hnextId.symm, fun id _ => congrFun horigin id⟩

end Extends

/-- Functions stay defined. -/
theorem Explains.mono (h : t.Explains P v) (hext : t.Extends t') : t'.Explains P v := by
  rintro f rfl
  obtain ⟨hid, horigin, k, hbody, hchain⟩ := h f rfl
  have hsame := hext.origin f.id hid
  refine ⟨Nat.lt_of_lt_of_le hid hext.nextId, hsame ▸ horigin, k, hsame ▸ hbody, ?_⟩
  exact hext.scopes.1 _ _ hchain

/-- What is no function is explained in any case. -/
theorem explains_of_ne (h : ∀ f, v ≠ .function f) : t.Explains P v :=
  fun f hf => absurd hf (h f)

namespace Mirrors

/-- A later trace in the same program, with another current frame, mirrors a place if it holds only
values that were explained before. -/
theorem step (h : t.Mirrors P nesting) (hext : t.Extends t') (hprogram : P t'.program)
    (hstarts : t'.starts = t.starts) {depth : Nat}
    (hchain : t'.machine.scopes.Chain t'.machine.current (depth + 1))
    (hheld : t'.machine.HoldsOnly (t.Explains P)) :
    t'.Mirrors P depth where
  chain := hchain
  program := hprogram
  held v hv := (hheld v hv).mono hext
  starts := hstarts ▸ h.starts

end Mirrors

end Traced

/-- A moment of a run that is traced, with the depth of the current place in the program. -/
structure Level where
  trace : Traced
  nesting : Nat

/-- In the course of an evaluation the trace becomes longer, but the program is the same, and so is
the depth. -/
instance : Preorder Level where
  le w w' := w.trace.Extends w'.trace ∧ w'.trace.program = w.trace.program ∧
    w'.trace.callers = w.trace.callers ∧ w'.nesting = w.nesting
  le_refl w := ⟨.refl w.trace, rfl, rfl, rfl⟩
  le_trans _ _ _ h h' := ⟨h.1.trans h'.1, h'.2.1.trans h.2.1, h'.2.2.1.trans h.2.2.1,
    h'.2.2.2.trans h.2.2.2⟩

namespace Traced

/-- The runs that are traced and the runs themselves, in which only expressions of the programs are
evaluated, each in a frame that mirrors its place. -/
def link (P : Expr → Prop) : Link Level Traced FrameId Machine FrameId where
  code w e := w.trace.program.Encloses e w.nesting
  states w t m := w.trace = t ∧ t.machine = m ∧ t.Mirrors P w.nesting
  places _ := Eq
  sound w v := w.trace.Explains P v

/-- A run that is traced holds the same functions in the same places. -/
theorem link_stationary : (link P).Stationary :=
  fun _ => rfl

namespace Mirrors

/-- An operation that concerns neither the current frame nor the values that are held keeps the
mirror. -/
theorem of_eq (h : t.Mirrors P nesting) {m : Machine} (hscopes : m.scopes = t.machine.scopes)
    (hcurrent : m.current = t.machine.current) (hcells : m.cells = t.machine.cells)
    (hnextId : m.nextId = t.machine.nextId) :
    t.Extends (t.update m) ∧ (t.update m).Mirrors P nesting := by
  have hext : t.Extends (t.update m) :=
    .of_scopes (le_of_eq hscopes.symm) hnextId rfl
  refine ⟨hext, h.step hext h.program rfl ?_ (.of_eq h.held hscopes hcells)⟩
  change m.scopes.Chain m.current (nesting + 1)
  rw [hscopes, hcurrent]
  exact h.chain

/-- To bind an explained value keeps the mirror. -/
theorem define (h : t.Mirrors P nesting) (name : String) (hv : t.Explains P v) :
    t.Extends (t.update (t.machine.define name v)) ∧
      (t.update (t.machine.define name v)).Mirrors P nesting := by
  have hext : t.Extends (t.update (t.machine.define name v)) :=
    .of_scopes (Scopes.define_evolves _ _ name v).le rfl rfl
  exact ⟨hext, h.step hext h.program rfl (h.chain.define name v) (.define h.held name hv)⟩

/-- A new identity belongs to the current program, which keeps the mirror. -/
theorem freshId (h : t.Mirrors P nesting) :
    t.Extends (Runtime.freshId t).2 ∧ (Runtime.freshId t).2.Mirrors P nesting := by
  have hext : t.Extends (Runtime.freshId t).2 :=
    ⟨le_refl t.machine.scopes, Nat.le_succ _,
      fun id hid => Function.update_of_ne (Nat.ne_of_lt hid) _ _⟩
  exact ⟨hext, h.step hext h.program rfl h.chain h.held⟩

/-- To capture the current frame keeps the mirror. -/
theorem capture (h : t.Mirrors P nesting) :
    t.Extends (Runtime.capture t).2 ∧ (Runtime.capture t).2.Mirrors P nesting := by
  have hevolves := Scopes.capture_evolves t.machine.scopes t.machine.current
  have hext : t.Extends (Runtime.capture t).2 := .of_scopes hevolves.le rfl rfl
  exact ⟨hext, h.step hext h.program rfl (h.chain.evolves hevolves) (.capture h.held)⟩

/-- A new function is explained by the current program, in which it is defined. -/
theorem makeFunction (h : t.Mirrors P nesting) (name : Option String) (parameters : List String)
    {body : Expr} (hbody : t.program.Encloses body (nesting + 1)) :
    (Runtime.capture (Runtime.freshId t).2).2.Explains P
      (.function ⟨t.machine.nextId, name, parameters, body, t.machine.current⟩) := by
  have hnew := h.freshId.2.capture.2
  have horigin : (Runtime.capture (Runtime.freshId t).2).2.origin t.machine.nextId = t.program :=
    Function.update_self _ _ _
  rintro f hf
  cases hf
  refine ⟨Nat.lt_succ_self _, ?_, nesting, ?_, hnew.chain⟩
  · rw [horigin]
    exact h.program
  · rw [horigin]
    exact hbody

/-- A new instance of explained values keeps the mirror. -/
theorem makeObject (h : t.Mirrors P nesting) (type : StructType) {values : List Value}
    (hvalues : ∀ v ∈ values, t.Explains P v) :
    t.Extends (Runtime.makeObject type values t).2 ∧
      (Runtime.makeObject type values t).2.Mirrors P nesting := by
  have hext : t.Extends (Runtime.makeObject type values t).2 :=
    .of_scopes (le_refl t.machine.scopes) rfl rfl
  exact ⟨hext, h.step hext h.program rfl h.chain (.makeObject h.held type hvalues)⟩

/-- To write an explained value into a field keeps the mirror. -/
theorem writeField (h : t.Mirrors P nesting) (cell : CellId) (i : Nat) (hv : t.Explains P v) :
    t.Extends (Runtime.writeField cell i v t) ∧
      (Runtime.writeField cell i v t).Mirrors P nesting := by
  have hext : t.Extends (Runtime.writeField cell i v t) :=
    .of_scopes (le_refl t.machine.scopes) rfl rfl
  exact ⟨hext, h.step hext h.program rfl h.chain (.writeField h.held cell i hv)⟩

/-- An empty frame mirrors the place one deeper. -/
theorem enterFrame (h : t.Mirrors P nesting) :
    t.Extends (Runtime.enterFrame t) ∧ (Runtime.enterFrame t).Mirrors P (nesting + 1) := by
  have hext : t.Extends (Runtime.enterFrame t) :=
    .of_scopes (Scopes.push_evolves t.machine.scopes _).le rfl rfl
  exact ⟨hext, h.step hext h.program rfl h.chain.addChild (.enterFrame h.held)⟩

/-- A call goes on where the function was defined, one frame deeper. -/
theorem enterCall (h : t.Mirrors P nesting) (hf : t.Defines P f) {names : Bindings}
    (hnames : ∀ b ∈ names, t.Explains P b.2) (site : Position) :
    t.Extends (Runtime.enterCall f names site t) ∧ ∃ k,
      (t.origin f.id).Encloses f.body (k + 1) ∧
        (Runtime.enterCall f names site t).Mirrors P (k + 1) := by
  obtain ⟨-, horigin, k, hbody, hchain⟩ := hf
  have hext : t.Extends (Runtime.enterCall f names site t) :=
    .of_scopes (t.machine.scopes.le_addChild_defineAll f.closure names) rfl rfl
  exact ⟨hext, k, hbody, h.step hext horigin rfl (hchain.addChild.defineAll names)
    (.enterCall h.held f site hnames)⟩

/-- To go back to the frame and the program of an earlier trace leads back to the place that they
mirror. -/
theorem leave (h' : t'.Mirrors P nesting) {depth : Nat} (h : t.Mirrors P depth)
    (hext : t.Extends t') (calls : Array ActiveCall) {program : Expr}
    (hprogram : program = t.program) (callers : List Expr) :
    let left : Traced :=
      { t' with
        machine := { t'.machine with current := t.machine.current, calls := calls }
        program := program
        callers := callers }
    t'.Extends left ∧ left.Mirrors P depth := by
  intro left
  subst hprogram
  have hleft : t'.Extends left := .of_scopes (le_refl t'.machine.scopes) rfl rfl
  have hchain := (hext.trans hleft).scopes.1 _ _ h.chain
  exact ⟨hleft, h'.step hleft h.program rfl hchain h'.held⟩

end Mirrors

/-- Every operation of a traced run does what the operation does, and the frames mirror the places
of the expressions. -/
theorem link_lawful : (link P).Lawful where
  code_mono := by
    rintro w w' e ⟨-, hprogram, -, hnesting⟩ he
    change w'.trace.program.Encloses e w'.nesting
    rw [hprogram, hnesting]
    exact he
  code_level he hc := he.level hc
  places_mono _ hk := hk
  sound_mono hle hv := hv.mono hle.1
  sound_plain := by
    rintro w v hv f rfl
    cases hv
  sound_struct _ _ _ := explains_of_ne nofun
  calls := by
    rintro w t _ ⟨-, rfl, -⟩
    rfl
  cells := by
    rintro w t _ ⟨-, rfl, -⟩
    exact Cells.related_refl t.machine.cells
  lookup := by
    rintro ⟨t, nesting⟩ _ _ name ⟨rfl, rfl, h⟩
    exact link_stationary.rel_self fun v hv => h.held v (.inl (Scopes.holds_of_lookupWithin hv))
  lookupHere := by
    rintro ⟨t, nesting⟩ _ _ name ⟨rfl, rfl, h⟩
    exact link_stationary.rel_self fun v hv => h.held v (.inl (Scopes.holds_of_lookupHere hv))
  record := by
    rintro ⟨t, nesting⟩ _ _ e ⟨rfl, rfl, h⟩
    obtain ⟨hext, h'⟩ := h.of_eq (m := t.machine.record e) rfl rfl rfl rfl
    exact ⟨⟨_, nesting⟩, ⟨hext, rfl, rfl, rfl⟩, rfl, rfl, h'⟩
  define := by
    rintro ⟨t, nesting⟩ _ _ v v' name ⟨rfl, rfl, h⟩ hv
    obtain ⟨rfl, hexplains⟩ := link_stationary.values_iff.1 hv
    obtain ⟨hext, h'⟩ := h.define name hexplains
    exact ⟨⟨_, nesting⟩, ⟨hext, rfl, rfl, rfl⟩, rfl, rfl, h'⟩
  freshId := by
    rintro ⟨t, nesting⟩ _ _ ⟨rfl, rfl, h⟩
    exact ⟨rfl, ⟨_, nesting⟩, ⟨h.freshId.1, rfl, rfl, rfl⟩, rfl, rfl, h.freshId.2⟩
  makeFunction := by
    rintro ⟨t, nesting⟩ _ _ _ parameters body _ name ⟨rfl, rfl, h⟩ he
    obtain ⟨hext, hfresh⟩ := h.freshId
    obtain ⟨hext', h'⟩ := hfresh.capture
    have hexplains := h.makeFunction name parameters (he.opened List.mem_cons_self)
    have hle : (⟨t, nesting⟩ : Level) ≤ ⟨_, nesting⟩ := ⟨hext.trans hext', rfl, rfl, rfl⟩
    exact ⟨_, hle, link_stationary.values_iff.2 ⟨rfl, hexplains⟩, rfl, rfl, h'⟩
  makeObject := by
    rintro ⟨t, nesting⟩ _ _ type values values' ⟨rfl, rfl, h⟩ - - hvalues
    obtain ⟨rfl, hexplains⟩ := link_stationary.eq_of_values hvalues
    obtain ⟨hext, h'⟩ := h.makeObject type hexplains
    exact ⟨⟨_, nesting⟩, ⟨hext, rfl, rfl, rfl⟩,
      link_stationary.values_iff.2 ⟨rfl, explains_of_ne nofun⟩, rfl, rfl, h'⟩
  readField := by
    rintro ⟨t, nesting⟩ _ _ type cell field i ⟨rfl, rfl, h⟩ - -
    refine ⟨⟨t, nesting⟩, le_refl _, link_stationary.rel_self fun v hv => ?_, rfl, rfl, h⟩
    exact h.held v (t.machine.holds_of_readField hv)
  writeField := by
    rintro ⟨t, nesting⟩ _ _ type cell i f v v' ⟨rfl, rfl, h⟩ - - - hv
    obtain ⟨rfl, hexplains⟩ := link_stationary.values_iff.1 hv
    obtain ⟨hext, h'⟩ := h.writeField cell i hexplains
    exact ⟨⟨_, nesting⟩, ⟨hext, rfl, rfl, rfl⟩, rfl, rfl, h'⟩
  frame := by
    rintro ⟨t, nesting⟩ _ _ e ⟨rfl, rfl, h⟩ he
    obtain ⟨hext, hentered⟩ := h.enterFrame
    refine ⟨⟨_, nesting + 1⟩, fun _ _ hv => ⟨hv.1, hv.2.mono hext⟩, fun c hc => he.opened hc,
      ⟨rfl, rfl, hentered⟩, ?_⟩
    rintro ⟨t₂, _⟩ ⟨hext₂, hprogram, hcallers, -⟩ _ _ ⟨rfl, rfl, h₂⟩
    obtain ⟨hleft, h₃⟩ :=
      h₂.leave h (hext.trans hext₂) t₂.machine.calls hprogram t₂.callers
    exact ⟨⟨_, nesting⟩, ⟨(hext.trans hext₂).trans hleft, hprogram, hcallers, rfl⟩,
      fun _ _ hv => ⟨hv.1, hv.2.mono hleft⟩, rfl, rfl, h₃⟩
  call := by
    rintro ⟨t, nesting⟩ _ _ f f' names names' site ⟨rfl, rfl, h⟩ hf hnames
    obtain ⟨hsame, hdefines⟩ := link_stationary.values_iff.1 hf
    cases hsame
    obtain ⟨rfl, hexplains⟩ := link_stationary.eq_of_bindings hnames
    obtain ⟨hext, k, hbody, hentered⟩ := h.enterCall (hdefines f rfl) hexplains site
    refine ⟨⟨Runtime.enterCall f names site t, k + 1⟩, hbody, ⟨rfl, rfl, hentered⟩, ?_⟩
    rintro ⟨t₂, _⟩ ⟨hext₂, -, hcallers, -⟩ _ _ ⟨rfl, rfl, h₂⟩
    change t₂.callers = t.program :: t.callers at hcallers
    have hprogram : t₂.callers.headD t₂.program = t.program := by rw [hcallers]; rfl
    have hbefore : t₂.callers.tail = t.callers := by rw [hcallers]; rfl
    obtain ⟨hleft, h₃⟩ :=
      h₂.leave h (hext.trans hext₂) t₂.machine.calls.pop hprogram t₂.callers.tail
    exact ⟨⟨_, nesting⟩, ⟨(hext.trans hext₂).trans hleft, hprogram, hbefore, rfl⟩,
      fun _ _ hv => ⟨hv.1, hv.2.mono hleft⟩, rfl, rfl, h₃⟩

/-- The end of all calls concerns no frames. -/
theorem link_forgets : (link P).Forgets := by
  rintro ⟨t, nesting⟩ _ _ ⟨rfl, rfl, h⟩
  obtain ⟨hext, h'⟩ := h.of_eq (m := Runtime.forgetCalls t.machine) rfl rfl rfl rfl
  exact ⟨⟨_, nesting⟩, ⟨hext, rfl, rfl, rfl⟩, rfl, rfl, h'⟩

/-! ### Programs -/

/-- The evaluation of an expression starts in a frame that mirrors its place. -/
theorem Mirrors.note (h : t.Mirrors P nesting) {e : Expr} (he : t.program.Encloses e nesting) :
    t.Extends (t.note e) ∧ (t.note e).Mirrors P nesting := by
  have hext : t.Extends (t.note e) := .of_scopes (le_refl t.machine.scopes) rfl rfl
  refine ⟨hext, h.chain, h.program, fun v hv => (h.held v hv).mono hext, ?_⟩
  exact List.forall_mem_cons.2 ⟨⟨h.program, nesting, he, h.chain⟩, h.starts⟩

/-- The evaluation that notes all evaluations on the way is the ordinary one. -/
theorem evaluate_simulates (limit steps : Nat) (w : Level) (e : Expr) (he : (link P).code w e) :
    (link P).Simulates w (link P).values (evaluateTracing limit steps e)
      (evaluate limit steps e) := by
  induction steps generalizing w e with
  | zero => exact Link.exhausted_simulates
  | succ steps ih =>
    obtain ⟨t, nesting⟩ := w
    rintro _ _ ⟨rfl, rfl, h⟩
    obtain ⟨hext, hnoted⟩ := h.note he
    have hcode : (link P).code ⟨t.note e, nesting⟩ e := he
    have hnode : (link P).Simulates ⟨t.note e, nesting⟩ (link P).values
        (Evaluation.node (evaluateTracing limit steps) limit steps e)
        (Evaluation.node (evaluate limit steps) limit steps e) :=
      link_lawful.node_simulates (fun w e he => ih w e he) hcode
    have hnext : (⟨t, nesting⟩ : Level) ≤ ⟨t.note e, nesting⟩ := ⟨hext, rfl, rfl, rfl⟩
    obtain ⟨w', hle, hout⟩ := hnode (t.note e) t.machine ⟨rfl, rfl, hnoted⟩
    exact ⟨w', le_trans hnext hle, hout⟩

end Traced

namespace Interpreter

variable {i : Interpreter Traced} {j : Interpreter}

/-- Between programs: the current frame has no parent, all functions that are held have been defined
in the programs, and all evaluations that have started were where they should be. -/
structure Traces (P : Expr → Prop) (i : Interpreter Traced) (j : Interpreter) : Prop where
  machine : i.machine.machine = j.machine
  depth : i.depth = j.depth
  steps : i.steps = j.steps
  chain : i.machine.machine.scopes.Chain i.machine.machine.current 1
  held : ∀ v, i.machine.machine.Holds v → i.machine.Explains P v
  starts : ∀ start ∈ i.machine.starts, start.Mirrors P

/-- A program that is traced does what the program does. -/
theorem Traces.trace (h : Traces P i j) {program : Expr} (hprogram : P program) :
    Traces P (i.trace program).2 (j.run program).2 := by
  have hext : i.machine.Extends (i.machine.enter program) :=
    .of_scopes (le_refl i.machine.machine.scopes) rfl rfl
  have hentered : (i.machine.enter program).Mirrors P 0 :=
    ⟨h.chain, hprogram, fun v hv => (h.held v hv).mono hext, h.starts⟩
  have hcode : (Traced.link P).code ⟨i.machine.enter program, 0⟩ program := .refl
  obtain ⟨w₁, h₁, hout⟩ := Traced.evaluate_simulates j.depth j.steps _ program hcode
    (i.machine.enter program) j.machine ⟨rfl, h.machine, hentered⟩
  obtain ⟨w₂, h₂, -, hend⟩ :=
    Traced.link_lawful.finish_simulates Traced.link_forgets hout h.depth h.steps
  obtain ⟨-, hmachine, hmirrors⟩ := hend.machine
  have hnesting : w₂.nesting = 0 := (le_trans h₁ h₂).2.2.2
  rw [hnesting] at hmirrors
  rw [run_eq_finish, Interpreter.trace, h.depth, h.steps]
  exact ⟨hmachine, hend.depth, hend.steps, hmirrors.chain, hmirrors.held, hmirrors.starts⟩

/-- Programs that are traced do what the programs do. -/
theorem Traces.traceAll (h : Traces P i j) {programs : List Expr}
    (hprograms : ∀ program ∈ programs, P program) :
    Traces P (i.traceAll programs) (j.runAll programs) := by
  induction programs generalizing i j with
  | nil => exact h
  | cons program programs ih =>
    obtain ⟨hprogram, hprograms⟩ := List.forall_mem_cons.1 hprograms
    exact ih (h.trace hprogram) hprograms

end Interpreter

/-- Programs that have been read from texts run one after another, whether they fail or not, from a
root frame on and with no functions from elsewhere.  Whenever the evaluation of an expression
starts, it is an expression of one of these programs, and the chain of the current frame has one
frame more than there are bodies of functions, and bodies and steps of loops over numbers, around
the expression in this program.  There is only one such number, as the expression stands at one
place.  To note the evaluations does not change the runs. -/
theorem frame_chain_mirrors_nesting (i : Interpreter) (programs : List Expr)
    (hprograms : ∀ program ∈ programs, ∃ source, parseSource source = .ok program)
    {frame : Frame} (hframe : i.machine.scopes.frames[i.machine.current]? = some frame)
    (hroot : frame.parent = none) (hfunctions : ∀ f, ¬ i.machine.Holds (.function f)) :
    let traced := (Interpreter.mk (Traced.initial i.machine) i.depth i.steps).traceAll programs
    traced.machine.machine = (i.runAll programs).machine ∧
      ∀ start ∈ traced.machine.starts, start.program ∈ programs ∧
        ∃ k, start.program.Encloses start.node k ∧
          (∀ k', start.program.Encloses start.node k' → k' = k) ∧
          start.machine.scopes.Chain start.machine.current (1 + k) := by
  have hstart : Interpreter.Traces (· ∈ programs)
      ⟨Traced.initial i.machine, i.depth, i.steps⟩ i :=
    ⟨rfl, rfl, rfl, .root hframe hroot, fun v hv f hf => (hfunctions f (hf ▸ hv)).elim, nofun⟩
  have hend := hstart.traceAll fun _ => id
  refine ⟨hend.machine, fun start hmem => ?_⟩
  obtain ⟨hprogram, k, henclosed, hchain⟩ := hend.starts start hmem
  obtain ⟨source, hsource⟩ := hprograms start.program hprogram
  have hdistinct := distinct_of_parseSource hsource
  refine ⟨hprogram, k, henclosed, fun k' h' => h'.unique hdistinct henclosed, ?_⟩
  rw [Nat.add_comm]
  exact hchain

/-- A loop gives a function, which a second program calls.  Of the thirteen evaluations, the last
three start in the first program again, within the body of the function. -/
theorem frame_chain_mirrors_nesting_closure :
    let i : Interpreter := ⟨.initial, 1000, 9⟩
    let programs := ["set f = for i = 1 to 2 then fun(x) -> x + i", "f(1)"].filterMap
      fun source => (parseSource source).toOption
    let frame : Frame := ⟨Builtin.all.map fun b => (b.name, .builtin b), none, false⟩
    let traced := (Interpreter.mk (Traced.initial i.machine) i.depth i.steps).traceAll programs
    (∀ program ∈ programs, ∃ source, parseSource source = .ok program) ∧
      i.machine.scopes.frames[i.machine.current]? = some frame ∧ frame.parent = none ∧
      (∀ f, ¬ i.machine.Holds (.function f)) ∧
      traced.machine.starts.length = 13 ∧
      traced.machine.machine = (i.runAll programs).machine ∧
      ∀ start ∈ traced.machine.starts, start.program ∈ programs ∧
        ∃ k, start.program.Encloses start.node k ∧
          (∀ k', start.program.Encloses start.node k' → k' = k) ∧
          start.machine.scopes.Chain start.machine.current (1 + k) := by
  intro i programs frame
  have hprograms : ∀ program ∈ programs, ∃ source, parseSource source = .ok program := by
    intro program hmem
    obtain ⟨source, -, hsource⟩ := Interpreter.exists_source_of_mem hmem
    exact ⟨source, hsource⟩
  have hfunctions : ∀ f, ¬ i.machine.Holds (.function f) := by
    intro f hholds
    obtain ⟨b, hb⟩ := Machine.exists_builtin_of_initial_holds hholds
    cases hb
  have hframe : i.machine.scopes.frames[i.machine.current]? = some frame := rfl
  have hroot : frame.parent = none := rfl
  refine ⟨hprograms, hframe, hroot, hfunctions, by decide +kernel, ?_⟩
  exact frame_chain_mirrors_nesting i programs hprograms hframe hroot hfunctions

end SnapshotScript
