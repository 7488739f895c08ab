import SnapshotScript.Proofs.Frames.Grounded
import SnapshotScript.Proofs.Observation

/-!
# No frame keeps itself alive

What a frame needs stays alive with it.  A frame that needs itself, through its ancestors and the
frames that their functions keep, would stay alive for ever.  We show that programs never make one:
at every moment of their runs the frames are grounded.

For this all values of a machine have to be known, not only those in its frames.  A function that is
given to a call, or that is found in a field, is bound in a frame later.
-/

namespace SnapshotScript

variable {m m' : Machine} {u v : Value}

/-- The value keeps captured frames only. -/
def Value.KeepsCaptured (s : Scopes) (v : Value) : Prop :=
  ∀ g, v.Keeps g → s.Captured g

/-- Captured frames stay captured. -/
theorem Value.KeepsCaptured.mono {s s' : Scopes} (h : v.KeepsCaptured s) (hle : s ≤ s') :
    v.KeepsCaptured s' :=
  fun g hg => hle.2 g (h g hg)

/-- The frames are grounded, the current one is there, and functions keep captured frames only. -/
structure Machine.Grounded (m : Machine) : Prop where
  scopes : m.scopes.Grounded
  current : m.current < m.scopes.frames.size
  held : ∀ v, m.Holds v → v.KeepsCaptured m.scopes

namespace Machine.Grounded

/-- The current frame has a chain. -/
theorem exists_chain (h : m.Grounded) : ∃ n, m.scopes.Chain m.current n :=
  h.scopes.chain m.current h.current

/-- A change of anything but the frames and the fields. -/
theorem of_eq (h : m.Grounded) (hscopes : m'.scopes = m.scopes) (hcurrent : m'.current = m.current)
    (hcells : m'.cells = m.cells) : m'.Grounded where
  scopes := hscopes ▸ h.scopes
  current := by rw [hscopes, hcurrent]; exact h.current
  held := by
    rw [hscopes]
    exact HoldsOnly.of_eq h.held hscopes hcells

/-- To bind a value that keeps captured frames only leaves a machine grounded. -/
theorem define (h : m.Grounded) (name : String) (hv : v.KeepsCaptured m.scopes) :
    (m.define name v).Grounded where
  scopes := h.scopes.define m.current name hv
  current := by
    obtain ⟨n, hchain⟩ := h.exists_chain
    exact (hchain.define name v).lt_size
  held u hu := by
    have hkeeps : u.KeepsCaptured m.scopes := HoldsOnly.define h.held name hv u hu
    exact hkeeps.mono (Scopes.define_evolves m.scopes m.current name v).le

/-- To capture the current frame leaves a machine grounded. -/
theorem capture (h : m.Grounded) : m.capture.2.Grounded where
  scopes := h.scopes.capture h.current
  current := by
    obtain ⟨n, hchain⟩ := h.exists_chain
    exact (hchain.evolves (Scopes.capture_evolves m.scopes m.current)).lt_size
  held u hu := (h.held u (holds_of_capture hu)).mono (Scopes.capture_evolves _ _).le

/-- The current frame is captured for a function to keep. -/
theorem captured_current (h : m.Grounded) : m.capture.2.scopes.Captured m.current :=
  (h.scopes.toRooted.capture h.current).2

theorem enterFrame (h : m.Grounded) : m.enterFrame.Grounded where
  scopes := h.scopes.addChild h.current
  current := by
    obtain ⟨n, hchain⟩ := h.exists_chain
    exact hchain.addChild.lt_size
  held u hu := (h.held u (holds_of_enterFrame hu)).mono (Scopes.push_evolves _ _).le

/-- A call leaves a machine grounded if the function keeps a captured frame, and the arguments keep
captured frames. -/
theorem enterCall (h : m.Grounded) {f : Function} (hf : m.scopes.Captured f.closure)
    {names : Bindings} (hnames : ∀ b ∈ names, b.2.KeepsCaptured m.scopes) (site : Position) :
    (m.enterCall f names site).Grounded where
  scopes := by
    have hchild : m.scopes ≤ (m.scopes.addChild f.closure).2 := (Scopes.push_evolves _ _).le
    have hgrounded : (m.scopes.addChild f.closure).2.Grounded := h.scopes.addChild hf.lt_size
    exact hgrounded.defineAll _ fun b hb => (hnames b hb).mono hchild
  current := by
    obtain ⟨n, hchain⟩ := h.scopes.chain f.closure hf.lt_size
    exact (hchain.addChild.defineAll names).lt_size
  held u hu := by
    have hkeeps : u.KeepsCaptured m.scopes := HoldsOnly.enterCall h.held f site hnames u hu
    exact hkeeps.mono (m.scopes.le_addChild_defineAll f.closure names)

/-- A machine that goes back to the frame of an earlier grounded one is grounded. -/
theorem leave (h' : m'.Grounded) (h : m.Grounded) (hle : m.scopes ≤ m'.scopes)
    (calls : Array ActiveCall) :
    Grounded { m' with current := m.current, calls := calls } where
  scopes := h'.scopes
  current := by
    obtain ⟨n, hchain⟩ := h.exists_chain
    exact (hle.1 m.current n hchain).lt_size
  held := h'.held

/-- A new instance leaves a machine grounded if its values keep captured frames only. -/
theorem makeObject (h : m.Grounded) (type : StructType) {values : List Value}
    (hvalues : ∀ v ∈ values, v.KeepsCaptured m.scopes) :
    (m.makeObject type values).2.Grounded where
  scopes := h.scopes
  current := h.current
  held := HoldsOnly.makeObject h.held type hvalues

/-- To write a value that keeps captured frames into a field leaves a machine grounded. -/
theorem writeField (h : m.Grounded) (cell : CellId) (i : Nat) (hv : v.KeepsCaptured m.scopes) :
    (m.writeField cell i v).Grounded where
  scopes := h.scopes
  current := h.current
  held := HoldsOnly.writeField h.held cell i hv

end Machine.Grounded

/-- The machine before the first program is grounded. -/
theorem Machine.initial_grounded : Machine.initial.Grounded where
  scopes := by
    change Scopes.empty.addGlobals.2.Grounded
    refine Scopes.Grounded.defineAll (Scopes.Grounded.addRoot .empty) _ fun b hb g hg => ?_
    obtain ⟨builtin, -, rfl⟩ := List.mem_map.1 hb
    obtain ⟨f, hf, -⟩ := hg
    cases hf
  current := by decide
  held v hv g hg := by
    obtain ⟨builtin, rfl⟩ := Machine.exists_builtin_of_initial_holds hv
    obtain ⟨f, hf, -⟩ := hg
    cases hf

/-! ### Runs under observation -/

namespace Watch

/-- The watch observes the machine, and the machine is grounded at every moment. -/
structure Grounds (w : Watch) (m : Machine) : Prop where
  machine : w.machine = m
  grounded : m.Grounded
  latest : w.toMoment ∈ w.moments
  moments : ∀ moment ∈ w.moments, moment.machine.Grounded

namespace Grounds

variable {w : Watch}

/-- The watch goes on with a machine that is grounded. -/
theorem next (h : w.Grounds m) (h' : m'.Grounded) : (w.next m').Grounds m' where
  machine := rfl
  grounded := h'
  latest := List.mem_cons_self
  moments := List.forall_mem_cons.2 ⟨h', h.moments⟩

/-- The watch may notice any access to a field. -/
theorem access (h : w.Grounds m) (cell : CellId) (i : Nat) : (w.access cell i).Grounds m :=
  { h with }

/-- The watch may notice a new instance, if the machine that holds it is grounded. -/
theorem made (h : w.Grounds m) (type : StructType) (h' : m'.Grounded) :
    (w.made type m').Grounds m' where
  machine := rfl
  grounded := h'
  latest := List.mem_cons_self
  moments := List.forall_mem_cons.2 ⟨h', h.moments⟩

end Grounds

/-- The observed runs and the runs themselves, in which functions keep captured frames only. -/
def grounding : Link Scopes Watch FrameId Machine FrameId where
  code _ _ := True
  states s w m := m.scopes = s ∧ w.Grounds m
  places _ := Eq
  sound s v := v.KeepsCaptured s

/-- An observed run holds the same functions in the same places. -/
theorem grounding_stationary : grounding.Stationary :=
  fun _ => rfl

/-- Every operation of an observed run does what the operation does, and keeps machines
grounded. -/
theorem grounding_lawful : grounding.Lawful where
  code_mono _ _ := trivial
  code_level _ _ := trivial
  places_mono _ hk := hk
  sound_mono h hv := hv.mono h
  sound_plain := by
    rintro s v hv g ⟨f, rfl, -⟩
    cases hv
  sound_struct := by
    rintro s e name fields id - - g ⟨f, hf, -⟩
    cases hf
  calls := by
    rintro _ w _ ⟨-, ⟨rfl, -, -, -⟩⟩
    rfl
  cells := by
    rintro _ w _ ⟨-, ⟨rfl, -, -, -⟩⟩
    exact Cells.related_refl w.machine.cells
  lookup := by
    rintro _ w m name ⟨rfl, h⟩
    obtain rfl := h.machine
    exact grounding_stationary.rel_self fun v hv =>
      h.grounded.held v (.inl (Scopes.holds_of_lookupWithin hv))
  lookupHere := by
    rintro _ w m name ⟨rfl, h⟩
    obtain rfl := h.machine
    exact grounding_stationary.rel_self fun v hv =>
      h.grounded.held v (.inl (Scopes.holds_of_lookupHere hv))
  record := by
    rintro _ w m e ⟨rfl, h⟩
    obtain rfl := h.machine
    exact ⟨_, le_refl _, rfl, h.next (h.grounded.of_eq rfl rfl rfl)⟩
  define := by
    rintro _ w m v v' name ⟨rfl, h⟩ hv
    obtain rfl := h.machine
    obtain ⟨rfl, hkeeps⟩ := grounding_stationary.values_iff.1 hv
    exact ⟨_, (Scopes.define_evolves _ _ name v).le, rfl, h.next (h.grounded.define name hkeeps)⟩
  freshId := by
    rintro _ w m ⟨rfl, h⟩
    obtain rfl := h.machine
    exact ⟨rfl, _, le_refl _, rfl, h.next (h.grounded.of_eq rfl rfl rfl)⟩
  makeFunction := by
    rintro _ w m _ parameters body _ name ⟨rfl, h⟩ -
    obtain rfl := h.machine
    have hgrounded : (Runtime.freshId w.machine).2.Grounded := h.grounded.of_eq rfl rfl rfl
    have hfresh := h.next hgrounded
    refine ⟨_, (Scopes.capture_evolves _ _).le, grounding_stationary.values_iff.2 ⟨rfl, ?_⟩, rfl,
      hfresh.next hfresh.grounded.capture⟩
    rintro g ⟨f, hf, rfl⟩
    cases hf
    exact hfresh.grounded.captured_current
  makeObject := by
    rintro _ w m type values values' ⟨rfl, h⟩ - - hvalues
    obtain rfl := h.machine
    obtain ⟨rfl, hkeeps⟩ := grounding_stationary.eq_of_values hvalues
    refine ⟨_, le_refl _, grounding_stationary.values_iff.2 ⟨rfl, ?_⟩, rfl,
      h.made type (h.grounded.makeObject type hkeeps)⟩
    rintro g ⟨f, hf, -⟩
    cases hf
  readField := by
    rintro _ w m type cell field i ⟨rfl, h⟩ - -
    obtain rfl := h.machine
    refine ⟨_, le_refl _, grounding_stationary.rel_self fun v hv => ?_, rfl,
      (h.access cell i).next h.grounded⟩
    exact h.grounded.held v (w.machine.holds_of_readField hv)
  writeField := by
    rintro _ w m type cell i f v v' ⟨rfl, h⟩ - - - hv
    obtain rfl := h.machine
    obtain ⟨rfl, hkeeps⟩ := grounding_stationary.values_iff.1 hv
    exact ⟨_, le_refl _, rfl, (h.access cell i).next (h.grounded.writeField cell i hkeeps)⟩
  frame := by
    rintro _ w m e ⟨rfl, h⟩ -
    obtain rfl := h.machine
    have hle : w.machine.scopes ≤ w.machine.enterFrame.scopes := (Scopes.push_evolves _ _).le
    refine ⟨w.machine.enterFrame.scopes, fun _ _ hv => ⟨hv.1, hv.2.mono hle⟩, fun _ _ => trivial,
      ⟨rfl, h.next h.grounded.enterFrame⟩, ?_⟩
    rintro _ hle' w₂ m₂ ⟨rfl, h₂⟩
    obtain rfl := h₂.machine
    have hleave := h₂.grounded.leave h.grounded (le_trans hle hle') w₂.machine.calls
    exact ⟨_, le_trans hle hle', fun _ _ => id, rfl, h₂.next hleave⟩
  call := by
    rintro _ w m f f' names names' site ⟨rfl, h⟩ hf hnames
    obtain rfl := h.machine
    obtain ⟨hsame, hclosure⟩ := grounding_stationary.values_iff.1 hf
    cases hsame
    obtain ⟨rfl, hkeeps⟩ := grounding_stationary.eq_of_bindings hnames
    have hle := w.machine.scopes.le_addChild_defineAll f.closure names
    have hentered := h.grounded.enterCall (hclosure _ ⟨f, rfl, rfl⟩) hkeeps site
    refine ⟨_, trivial, ⟨rfl, h.next hentered⟩, ?_⟩
    rintro _ hle' w₂ m₂ ⟨rfl, h₂⟩
    obtain rfl := h₂.machine
    have hleave := h₂.grounded.leave h.grounded (le_trans hle hle') w₂.machine.calls.pop
    exact ⟨_, le_trans hle hle', fun _ _ => id, rfl, h₂.next hleave⟩

/-- The end of all calls concerns no frames. -/
theorem grounding_forgets : grounding.Forgets := by
  rintro _ w m ⟨rfl, h⟩
  obtain rfl := h.machine
  exact ⟨_, le_refl _, rfl, h.next (h.grounded.of_eq rfl rfl rfl)⟩

/-- Before the first program the machine is observed as it is. -/
theorem initial_grounds : initial.Grounds .initial where
  machine := rfl
  grounded := Machine.initial_grounded
  latest := List.mem_cons_self
  moments moment hmem := by
    obtain rfl := List.mem_singleton.1 hmem
    exact Machine.initial_grounded

end Watch

/-- A frame that a function needs does not bind the function. -/
theorem Scopes.Grounded.not_mem_bindings {s : Scopes} (h : s.Grounded) {f : Function}
    {g : FrameId} (hneeds : Relation.ReflTransGen s.Needs f.closure g) {frame : Frame}
    (hframe : s.frames[g]? = some frame) (name : String) :
    (name, .function f) ∉ frame.bindings := by
  intro hmem
  have hback : s.Needs g f.closure := ⟨frame, hframe, .inr ⟨_, hmem, f, rfl, rfl⟩⟩
  exact h.acyclic g (Relation.TransGen.head' hback hneeds)

/-- Source texts are read and evaluated one after another, whether they fail or not.  At every
moment, up to the one that the runs leave, no frame needs itself: not through its ancestors, nor
through the frames that the functions keep that are bound in it or in a frame that it needs.  In
particular, none of the frames that the frame of a function needs binds the function itself.  To
observe the runs does not change them. -/
theorem no_frame_needs_itself (depth steps : Nat) (sources : List String) :
    let observed := (Interpreter.mk Watch.initial depth steps).evaluateAll sources
    let run := (Interpreter.mk Machine.initial depth steps).evaluateAll sources
    let watch := observed.2.machine
    observed.1 = run.1 ∧ watch.machine = run.2.machine ∧ watch.toMoment ∈ watch.moments ∧
      ∀ moment ∈ watch.moments,
        (∀ f, ¬ Relation.TransGen moment.machine.scopes.Needs f f) ∧
          ∀ (f : Function) (g : FrameId) (frame : Frame) (name : String),
            Relation.ReflTransGen moment.machine.scopes.Needs f.closure g →
            moment.machine.scopes.frames[g]? = some frame →
            (name, .function f) ∉ frame.bindings := by
  have hstart : Watch.grounding.Interpreters Machine.initial.scopes
      ⟨Watch.initial, depth, steps⟩ ⟨Machine.initial, depth, steps⟩ :=
    ⟨⟨rfl, Watch.initial_grounds⟩, rfl, rfl⟩
  have hcode : ∀ source ∈ sources, ∀ program, parseSource source = .ok program →
      Watch.grounding.code Machine.initial.scopes program := fun _ _ _ _ => trivial
  obtain ⟨s, -, hresults, ⟨-, hend⟩, -, -⟩ :=
    Watch.grounding_lawful.evaluateAll_simulates Watch.grounding_forgets hstart hcode
  have hequal := Watch.grounding_stationary.eq_of_results hresults
  refine ⟨hequal, hend.machine, hend.latest, fun moment hmoment => ?_⟩
  have hgrounded := (hend.moments moment hmoment).scopes
  exact ⟨hgrounded.acyclic, fun f g frame name hneeds hframe =>
    hgrounded.not_mem_bindings hneeds hframe name⟩

end SnapshotScript
