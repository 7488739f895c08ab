import SnapshotScript.Proofs.Discipline
import SnapshotScript.Proofs.Lockstep
import SnapshotScript.Proofs.Snapshot.Unfolding

/-!
# Copies of captured frames are snapshots

A machine writes to its frames in place, unless a function has captured them.  We show that programs
cannot tell: they do the same with environments that are values.

The world of the simulation is an archive together with the machine.  That a later machine *follows*
an earlier one is all that is needed to come back from a call or a loop.
-/

namespace SnapshotScript

namespace Snapshot

variable {ρ ρ' : Archive} {m m' : Machine} {r r' : State}

/-- The machine represents the state with environments: its current frame stands for the
environment, each captured frame in the archive for the one noted, and all else is the same up to
places that correspond. -/
structure Represents (ρ : Archive) (m : Machine) (r : State) : Prop where
  upward : m.scopes.Upward
  environment : Scopes.Stands ρ m.scopes m.current r.environment.maps
  archived : ∀ f e, ρ f e → m.scopes.Captured f ∧ Scopes.Stands ρ m.scopes f e.maps
  cells : Cells.Related ρ m.cells r.cells
  calls : m.calls = r.calls
  nextId : m.nextId = r.nextId
  journal : m.journal = r.journal

/-- What is known at a moment of a run: the archive, and the machine. -/
structure World where
  archive : Archive
  machine : Machine

instance : Preorder World where
  le w w' := (∀ f e, w.archive f e → w'.archive f e) ∧ w.machine.Follows w'.machine
  le_refl w := ⟨fun _ _ => id, Std.Refl.refl w.machine⟩
  le_trans _ _ _ h h' :=
    ⟨fun f e hf => h'.1 f e (h.1 f e hf), IsTrans.trans _ _ _ h.2 h'.2⟩

/-- Machines and the states that they represent. -/
def link : Link World Machine FrameId State Environment where
  code _ _ := True
  states w m r := w.machine = m ∧ Represents w.archive m r
  places w := w.archive
  sound _ _ := True

/-- A machine goes on to represent a state if its frames evolve, from the current one on, without
capturing any. -/
theorem Represents.evolves (h : Represents ρ m r) {writable : Option FrameId}
    (hevolves : m.scopes.Evolves writable m'.scopes)
    (hcaptured : ∀ g, m'.scopes.Captured g → m.scopes.Captured g)
    (henvironment : Scopes.Stands ρ m'.scopes m'.current r'.environment.maps)
    (hcells : Cells.Related ρ m'.cells r'.cells) (hcalls : m'.calls = r'.calls)
    (hnextId : m'.nextId = r'.nextId) (hjournal : m'.journal = r'.journal) :
    Represents ρ m' r' where
  upward := h.upward.evolves hevolves hcaptured
  environment := henvironment
  archived f e hf := by
    obtain ⟨hcap, hstands⟩ := h.archived f e hf
    exact ⟨hcap.evolves hevolves,
      hstands.evolves hevolves fun _ _ => .inr ⟨hcap, h.upward⟩⟩
  cells := hcells
  calls := hcalls
  nextId := hnextId
  journal := hjournal

/-- To bind a name in the current frame is to bind it in the innermost map. -/
theorem Represents.define (h : Represents ρ m r) (name : String) {v : Value}
    {v' : Value Environment} (hv : Value.Related ρ v v') :
    Represents ρ (m.define name v) (Runtime.define name v' r) :=
  h.evolves (Scopes.define_evolves m.scopes m.current name v) (fun _ => Scopes.captured_of_define)
    (h.environment.define name hv) h.cells h.calls h.nextId h.journal

/-- The environment of a function is archived when its frame is captured. -/
theorem Represents.capture (h : Represents ρ m r) :
    Represents (fun f e => ρ f e ∨ f = m.current ∧ e = r.environment) m.capture.2 r := by
  obtain ⟨hup, hcurrent⟩ := h.environment.chain.capture_upward h.upward
  have hevolves := Scopes.capture_evolves m.scopes m.current
  have hmore : ∀ f e, ρ f e → ρ f e ∨ f = m.current ∧ e = r.environment := fun _ _ => .inl
  have henvironment := (h.environment.evolves hevolves (by simp)).mono hmore
  refine ⟨hup, henvironment, ?_, ?_, h.calls, h.nextId, h.journal⟩
  · rintro f e (hf | ⟨rfl, rfl⟩)
    · obtain ⟨hcap, hstands⟩ := h.archived f e hf
      exact ⟨hcap.evolves hevolves, (hstands.evolves hevolves (by simp)).mono hmore⟩
    · exact ⟨hcurrent, henvironment⟩
  · exact h.cells.mono hmore

/-- To open an empty frame is to open an empty map. -/
theorem Represents.enterFrame (h : Represents ρ m r) :
    Represents ρ m.enterFrame (Runtime.enterFrame r) :=
  h.evolves (m.scopes.push_evolves _) (fun _ => Scopes.captured_of_push rfl)
    h.environment.addChild h.cells h.calls h.nextId h.journal

/-- A frame with the names of a call, below the frame of the function, is a map with these names
inside the environment of the function. -/
theorem Represents.enterCall (h : Represents ρ m r) {f : Function} {k : Environment}
    (hf : ρ f.closure k) (site : Position) {names : Bindings} {names' : Bindings Environment}
    (hnames : List.Forall₂ (fun b b' => b.1 = b'.1 ∧ Value.Related ρ b.2 b'.2) names names') :
    Represents ρ (m.enterCall f names site)
      (r.enterCall ⟨f.id, f.name, f.parameters, f.body, k⟩ names' site) := by
  let child := m.scopes.addChild f.closure
  have hchild := m.scopes.push_evolves ⟨[], some f.closure, false⟩
  have hdefine := (Scopes.defineAll_evolves child.2 child.1 names).1
  have hstands := (h.archived f.closure k hf).2.addChild.defineAll hnames
  have hevolves : m.scopes.Evolves none (child.2.defineAll child.1 names).2 :=
    hchild.trans hdefine (.inr fun g hg => by cases hg; exact Nat.le_refl _)
  refine h.evolves hevolves (fun g hg => ?_) hstands h.cells ?_ h.nextId ?_
  · exact Scopes.captured_of_push rfl (Scopes.captured_of_defineAll hg)
  · exact congrArg (Array.push · ⟨f.displayName, site⟩) h.calls
  · change m.journal.push _ = r.journal.push _
    rw [h.journal, h.calls]
    rfl

/-- After a call or a loop the frame from before stands for the environment from before. -/
theorem Represents.leave (h : Represents ρ m r) {stop : Machine} {t : State}
    (hρ : ∀ f e, ρ f e → ρ' f e) (hscopes : m.scopes.Evolves none stop.scopes)
    (ht : Represents ρ' stop t) {calls calls' : Array ActiveCall} (hcalls : calls = calls') :
    Represents ρ' { stop with current := m.current, calls := calls }
      { t with environment := r.environment, calls := calls' } where
  upward := ht.upward
  environment := (h.environment.evolves hscopes (by simp)).mono hρ
  archived := ht.archived
  cells := ht.cells
  calls := hcalls
  nextId := ht.nextId
  journal := ht.journal

/-- Values that are related correspond, if there are any. -/
theorem values_of_related {w : World} {v : Option Value} {v' : Option (Value Environment)}
    (h : Option.Rel (Value.Related w.archive) v v') : Option.Rel (link.values w) v v' := by
  cases h with
  | none => exact .none
  | some hv => exact .some ⟨hv, trivial⟩

/-- Each operation on environments does what the operation on machines does. -/
theorem link_lawful : link.Lawful where
  code_mono _ _ := trivial
  code_level _ _ := trivial
  places_mono h hk := h.1 _ _ hk
  sound_mono _ _ := trivial
  sound_plain _ := trivial
  sound_struct _ _ _ := trivial
  calls := by
    rintro w m r ⟨rfl, h⟩
    exact h.calls
  cells := by
    rintro w m r ⟨rfl, h⟩
    exact h.cells
  lookup := by
    rintro w m r name ⟨rfl, h⟩
    exact values_of_related (h.environment.lookup name)
  lookupHere := by
    rintro w m r name ⟨rfl, h⟩
    exact values_of_related (h.environment.lookupHere name)
  record := by
    rintro ⟨ρ, m⟩ _ r e ⟨rfl, h⟩
    refine ⟨⟨ρ, m.record e⟩, ⟨fun _ _ => id, (Run.record_restores e m).follows⟩, rfl, ?_⟩
    exact { h with journal := congrArg (Array.push · e) h.journal }
  define := by
    rintro ⟨ρ, m⟩ _ r v v' name ⟨rfl, h⟩ ⟨hv, -⟩
    exact ⟨⟨ρ, m.define name v⟩, ⟨fun _ _ => id, Run.define_follows name v m⟩, rfl,
      h.define name hv⟩
  freshId := by
    rintro ⟨ρ, m⟩ _ r ⟨rfl, h⟩
    refine ⟨h.nextId, ⟨ρ, (Runtime.freshId m).2⟩, ⟨fun _ _ => id, ?_⟩, rfl, ?_⟩
    · exact (⟨rfl, .refl _ _, rfl⟩ : m.Restores (Runtime.freshId m).2).follows
    · exact { h with nextId := congrArg (· + 1) h.nextId }
  makeFunction := by
    rintro ⟨ρ, m⟩ _ r _ parameters body _ name ⟨rfl, h⟩ -
    have hfresh : Represents ρ (Runtime.freshId m).2 (Runtime.freshId r).2 :=
      { h with nextId := congrArg (· + 1) h.nextId }
    refine ⟨⟨fun f e => ρ f e ∨ f = m.current ∧ e = r.environment,
      (Runtime.freshId m).2.capture.2⟩, ⟨fun _ _ => .inl, ?_⟩, ⟨?_, trivial⟩, rfl, hfresh.capture⟩
    · have hrestores := Run.makeFunction_restores name parameters body m
      exact hrestores.follows
    · have hid : (Runtime.freshId m).1 = (Runtime.freshId r).1 := h.nextId
      rw [hid]
      exact ⟨.function ⟨_, name, parameters, body, ⟨(_, _), .inr ⟨rfl, rfl⟩⟩⟩, rfl, rfl⟩
  makeObject := by
    rintro ⟨ρ, m⟩ _ r type values values' ⟨rfl, h⟩ - - hvalues
    refine ⟨⟨ρ, (m.makeObject type values).2⟩, ⟨fun _ _ => id, ?_⟩, ⟨?_, trivial⟩, rfl, ?_⟩
    · exact (⟨rfl, .refl _ _, rfl⟩ : m.Restores (m.makeObject type values).2).follows
    · refine ⟨.object type m.cells.size, rfl, ?_⟩
      exact congrArg (Value.object type) h.cells.size_eq
    · exact { h with cells := h.cells.push (hvalues.imp fun _ _ hv => hv.1) }
  readField := by
    rintro w m r type cell field i ⟨rfl, h⟩ - -
    exact ⟨w, le_refl w, values_of_related (h.cells.read cell i), rfl, h⟩
  writeField := by
    rintro ⟨ρ, m⟩ _ r type cell i f v v' ⟨rfl, h⟩ - - - ⟨hv, -⟩
    refine ⟨⟨ρ, m.writeField cell i v⟩, ⟨fun _ _ => id, ?_⟩, rfl, ?_⟩
    · exact (Run.writeField_restores cell i v m).follows
    · exact { h with cells := h.cells.write cell i hv }
  frame := by
    rintro ⟨ρ, m⟩ _ r _ ⟨rfl, h⟩ -
    refine ⟨⟨ρ, m.enterFrame⟩, fun _ _ => id, fun _ _ => trivial, ⟨rfl, h.enterFrame⟩, ?_⟩
    rintro ⟨ρ', stop⟩ ⟨hρ, hfollows⟩ _ t ⟨rfl, ht⟩
    have hrestores := Machine.restores_of_enterFrame hfollows
    have hscopes : m.scopes.Evolves none stop.scopes := hrestores.scopes
    exact ⟨⟨ρ', { stop with current := m.current }⟩, ⟨hρ, hrestores.follows⟩, fun _ _ => id, rfl,
      h.leave hρ hscopes ht ht.calls⟩
  call := by
    rintro ⟨ρ, m⟩ _ r f f' names names' site ⟨rfl, h⟩ ⟨hf, -⟩ hnames
    obtain ⟨k, hk, hfunction⟩ := hf.function
    cases hfunction
    have hnames' := hnames.imp fun b b' hb =>
      (⟨hb.1, hb.2.1⟩ : b.1 = b'.1 ∧ Value.Related ρ b.2 b'.2)
    refine ⟨⟨ρ, m.enterCall f names site⟩, trivial, ⟨rfl, h.enterCall hk site hnames'⟩, ?_⟩
    rintro ⟨ρ', stop⟩ ⟨hρ, hfollows⟩ _ t ⟨rfl, ht⟩
    have hrestores := Machine.restores_of_enterCall hfollows
    have hscopes : m.scopes.Evolves none stop.scopes := hrestores.scopes
    exact ⟨⟨ρ', { stop with current := m.current, calls := stop.calls.pop }⟩,
      ⟨hρ, hrestores.follows⟩, fun _ _ => id, rfl,
      h.leave hρ hscopes ht (congrArg Array.pop ht.calls)⟩

/-! ### Programs -/

/-- The functions that the machine holds keep captured frames, and no frame needs itself. -/
structure Sealed (rank : FrameId → Nat) (m : Machine) : Prop where
  scopes : m.scopes.Sealed rank
  current : m.current < m.scopes.frames.size
  cells : ∀ values ∈ m.cells, ∀ v ∈ values, ∀ g, v.Keeps g → m.scopes.Captured g

/-- The state with the environments of the frames instead of the frames. -/
def State.ofMachine (rank : FrameId → Nat) (m : Machine) : State where
  environment := m.scopes.environmentOf rank m.current
  cells := m.cells.map (m.scopes.environmentOf rank)
  calls := m.calls
  nextId := m.nextId
  journal := m.journal

/-- A machine represents the state with the environments of its frames. -/
theorem Sealed.represents {rank : FrameId → Nat} (h : Sealed rank m) :
    Represents (m.scopes.archive rank) m (.ofMachine rank m) where
  upward := h.scopes.upward
  environment := h.scopes.stands h.current
  archived _ _ := h.scopes.archived
  cells := Cells.related_map fun values hvalues v hv g hg =>
    ⟨h.cells values hvalues v hv g hg, rfl⟩
  calls := rfl
  nextId := rfl
  journal := rfl

/-- A machine with a single frame is sealed, if it holds no functions but those that are there from
the beginning. -/
theorem sealed_root {frame : Frame} (hscopes : m.scopes.frames = #[frame])
    (hcurrent : m.current = 0) (hparent : frame.parent = none)
    (hframe : ∀ b ∈ frame.bindings, ∀ g, ¬ b.2.Keeps g)
    (hcells : ∀ values ∈ m.cells, ∀ v ∈ values, ∀ g, ¬ v.Keeps g) : Sealed (fun _ => 0) m := by
  have honly : ∀ (f : FrameId) (other : Frame), m.scopes.frames[f]? = some other →
      other = frame := by
    intro f other hother
    rw [hscopes] at hother
    exact Array.eq_of_mem_singleton (Array.mem_of_getElem? hother)
  refine ⟨⟨?_, ?_, ?_, ?_⟩, by simp [hcurrent, hscopes], ?_⟩
  · intro f other parent hother _ habove
    rw [honly f other hother, hparent] at habove
    cases habove
  · intro f other parent hother habove
    rw [honly f other hother, hparent] at habove
    cases habove
  · intro f other hother b hb g hg
    exact absurd hg (hframe b (honly f other hother ▸ hb) g)
  · rintro f g ⟨other, hother, habove | ⟨b, hb, hg⟩⟩
    · rw [honly f other hother, hparent] at habove
      cases habove
    · exact absurd hg (hframe b (honly f other hother ▸ hb) g)
  · intro values hvalues v hv g hg
    exact absurd hg (hcells values hvalues v hv g)

/-- The machine before the first program is sealed. -/
theorem sealed_initial : Sealed (fun _ => 0) Machine.initial := by
  refine sealed_root rfl rfl rfl ?_ nofun
  rintro b hb g ⟨f, hf, -⟩
  have hbuiltin : b ∈ Builtin.all.map fun b => (b.name, (.builtin b : Value)) := hb
  obtain ⟨builtin, -, rfl⟩ := List.mem_map.1 hbuiltin
  cases hf

/-- Results that correspond: values that are the same up to places, or the same error. -/
def Agree (ρ : Archive) : Except Failure Value → Except Failure (Value Environment) → Prop
  | .ok v, .ok v' => v.Related ρ v'
  | .error e, .error e' => e = e'
  | _, _ => False

/-- A program has corresponding results, and the machine represents the state again. -/
theorem run_represents {depth steps : Nat} (h : Represents ρ m r) (program : Expr) :
    ∃ ρ' : Archive, (∀ f e, ρ f e → ρ' f e) ∧
      Agree ρ' ((Interpreter.mk m depth steps).run program).1
        ((Interpreter.mk r depth steps).run program).1 ∧
      Represents ρ' ((Interpreter.mk m depth steps).run program).2.machine
        ((Interpreter.mk r depth steps).run program).2.machine := by
  obtain ⟨⟨ρ', m'⟩, ⟨hρ, -⟩, hout⟩ :=
    link_lawful.evaluate_simulates depth steps ⟨ρ, m⟩ program trivial m r ⟨rfl, h⟩
  refine ⟨ρ', hρ, ?_⟩
  have hfinish : ∀ {stop t}, link.states ⟨ρ', m'⟩ stop t → ∀ ok : Bool,
      Represents ρ' (Runtime.record (.logged (.finished ok)) (Runtime.forgetCalls stop))
        (Runtime.record (.logged (.finished ok)) (Runtime.forgetCalls t)) := by
    rintro stop t ⟨rfl, ht⟩ ok
    exact { ht with calls := rfl, journal := congrArg (Array.push · _) ht.journal }
  unfold Interpreter.run
  dsimp only
  generalize evaluate depth steps program m = x at hout
  generalize evaluate depth steps program r = y at hout
  cases hout with
  | ok hv ht => exact ⟨hv.1, hfinish ht true⟩
  | returned hv ht => exact ⟨hv.1, hfinish ht true⟩
  | failed ht => exact ⟨rfl, hfinish ht false⟩
  | exhausted ht => exact ⟨rfl, hfinish ht false⟩

end Snapshot

/-- The copies of captured frames implement functions that hold the values of names.  A sealed
machine represents the state with the environments of its frames.  Let a machine represent a state
in which environments are values.  Then every program has the same result in both, up to what
functions keep, or the same error.  It prints the same, the fields of all instances are the same,
all names have the same values, and the machine represents the state again.  An archive, which only
grows, tells which environments the frames of functions stand for. -/
theorem snapshot_semantics :
    (∀ (rank : FrameId → Nat) (m : Machine), Snapshot.Sealed rank m →
      Snapshot.Represents (m.scopes.archive rank) m (.ofMachine rank m)) ∧
    ∀ (depth steps : Nat) (ρ : Archive) (m : Machine) (r : Snapshot.State) (program : Expr),
      Snapshot.Represents ρ m r →
      let run := (Interpreter.mk m depth steps).run program
      let run' := (Interpreter.mk r depth steps).run program
      ∃ ρ' : Archive, (∀ f e, ρ f e → ρ' f e) ∧
        Snapshot.Agree ρ' run.1 run'.1 ∧
        run.2.machine.journal = run'.2.machine.journal ∧
        Cells.Related ρ' run.2.machine.cells run'.2.machine.cells ∧
        (∀ name, Option.Rel (Value.Related ρ') (run.2.machine.lookup name)
          (run'.2.machine.environment.lookup name)) ∧
        Snapshot.Represents ρ' run.2.machine run'.2.machine := by
  refine ⟨fun rank m h => h.represents, fun depth steps ρ m r program h => ?_⟩
  obtain ⟨ρ', hρ, hagree, hstop⟩ := Snapshot.run_represents h program
  exact ⟨ρ', hρ, hagree, hstop.journal, hstop.cells, hstop.environment.lookup, hstop⟩

/-- After `set x = 1`, `set f = fun() -> x` and `set x = 2`, the call `f()` gives 1 in both. -/
theorem snapshot_semantics_closure :
    let m := Machine.initial
    let r := Snapshot.State.ofMachine (fun _ => 0) m
    let program : Expr := .block [.assign "x" (.literal (.int 1) .start) .start,
      .assign "f" (.function none [] (.identifier "x" .start) .start) .start,
      .assign "x" (.literal (.int 2) .start) .start,
      .call (.identifier "f" .start) [] .start] .start
    let run := (Interpreter.mk m 1000 4).run program
    let run' := (Interpreter.mk r 1000 4).run program
    let ρ := m.scopes.archive fun _ => 0
    Snapshot.Sealed (fun _ => 0) m ∧ Snapshot.Represents ρ m r ∧ run.1 = .ok (.int 1) ∧
      run'.1 = .ok (.int 1) ∧ ∃ ρ' : Archive, (∀ f e, ρ f e → ρ' f e) ∧
        Snapshot.Agree ρ' run.1 run'.1 ∧ run.2.machine.journal = run'.2.machine.journal ∧
        Cells.Related ρ' run.2.machine.cells run'.2.machine.cells ∧
        (∀ name, Option.Rel (Value.Related ρ') (run.2.machine.lookup name)
          (run'.2.machine.environment.lookup name)) ∧
        Snapshot.Represents ρ' run.2.machine run'.2.machine := by
  have hsealed : Snapshot.Sealed (fun _ => 0) Machine.initial := Snapshot.sealed_initial
  have hstart := snapshot_semantics.1 _ _ hsealed
  exact ⟨hsealed, hstart, rfl, rfl, snapshot_semantics.2 1000 4 _ _ _ _ hstart⟩

end SnapshotScript
