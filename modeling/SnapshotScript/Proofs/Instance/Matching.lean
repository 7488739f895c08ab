import SnapshotScript.Proofs.Instance.Typing
import SnapshotScript.Proofs.Observation

/-!
# Instances match their declaration at every moment

A run under observation does what the run does, and the machine is typed at every moment.
-/

namespace SnapshotScript

/-- The watch observes the machine, and all that it has observed is as it should be. -/
structure Watch.Observes (t : Typing) (w : Watch) (m : Machine) : Prop where
  machine : w.machine = m
  types : w.types = t.types
  typed : m.Typed t
  latest : w.toMoment ∈ w.moments
  moments : ∀ moment ∈ w.moments, moment.Matches
  accesses : ∀ a ∈ w.accesses, a.InRange

namespace Watch.Observes

variable {t : Typing} {w : Watch} {m m' : Machine}

/-- The watch goes on with a machine that is typed. -/
theorem next (h : w.Observes t m) (h' : m'.Typed t) : (w.next m').Observes t m' where
  machine := rfl
  types := h.types
  typed := h'
  latest := List.mem_cons_self
  moments moment hmem := by
    rcases List.mem_cons.1 hmem with rfl | hold
    · rw [h.types]
      exact h'.matches_moment
    · exact h.moments moment hold
  accesses := h.accesses

/-- The watch may notice an access to a declared field. -/
theorem access (h : w.Observes t m) {type : StructType} {cell : CellId} {i : Nat}
    (hcell : t.types[cell]? = some type) (hi : i < type.fields.length) :
    (w.access cell i).Observes t m where
  machine := h.machine
  types := h.types
  typed := h.typed
  latest := h.latest
  moments := h.moments
  accesses a hmem := by
    rcases List.mem_cons.1 hmem with rfl | hold
    · have hmoment : w.toMoment = ⟨m, t.types⟩ := by
        rw [← h.machine, ← h.types]
      rw [hmoment]
      exact h.typed.inRange hcell hi
    · exact h.accesses a hold

/-- The watch may notice a new instance, if the machine that holds it is typed. -/
theorem made (h : w.Observes t m) {type : StructType}
    (h' : m'.Typed ⟨t.types.push type⟩) : (w.made type m').Observes ⟨t.types.push type⟩ m' := by
  have hpushed : { w with types := w.types.push type : Watch }.types = t.types.push type :=
    congrArg (Array.push · type) h.types
  refine ⟨rfl, hpushed, h', List.mem_cons_self, fun moment hmem => ?_, h.accesses⟩
  rcases List.mem_cons.1 hmem with rfl | hold
  · rw [hpushed]
    exact h'.matches_moment
  · exact h.moments moment hold

end Watch.Observes

/-- The observed runs and the runs themselves. -/
def Watch.link : Link Typing Watch FrameId Machine FrameId where
  code _ := Expr.WellFormed
  states t w m := w.Observes t m
  places _ := Eq
  sound t v := v.Sound t

namespace Watch

/-- An observed run holds the same functions in the same places. -/
theorem link_stationary : link.Stationary :=
  fun _ => rfl

/-- Every operation of an observed run does what the operation does, and keeps machines typed. -/
theorem link_lawful : link.Lawful where
  code_mono _ he := he
  code_level := by
    rintro t e c ⟨-, hchildren⟩ hc
    exact hchildren c (Expr.mem_children_of_level hc)
  places_mono _ hk := hk
  sound_mono h hv := hv.mono h
  sound_plain := by
    intro t v hv
    cases v <;> first | exact hv.elim | trivial
  sound_struct := by
    rintro t e name fields id hwellFormed hdeclares
    cases hdeclares with
    | struct =>
      obtain ⟨hnames, -⟩ := hwellFormed
      exact hnames _ fields _ rfl
    | assign =>
      obtain ⟨-, hchildren⟩ := hwellFormed
      obtain ⟨hnames, -⟩ := hchildren _ List.mem_cons_self
      exact hnames _ fields _ rfl
  calls h := congrArg Machine.calls h.machine
  cells := by
    intro t w m h
    obtain rfl := h.machine
    exact Cells.related_refl w.machine.cells
  lookup := by
    intro t w m name h
    obtain rfl := h.machine
    exact link_stationary.rel_self fun v hv =>
      h.typed.held v (.inl (Scopes.holds_of_lookupWithin hv))
  lookupHere := by
    intro t w m name h
    obtain rfl := h.machine
    exact link_stationary.rel_self fun v hv =>
      h.typed.held v (.inl (Scopes.holds_of_lookupHere hv))
  record := by
    intro t w m e h
    obtain rfl := h.machine
    exact ⟨t, le_refl t, h.next (h.typed.of_eq rfl rfl)⟩
  define := by
    intro t w m v v' name h hv
    obtain rfl := h.machine
    obtain ⟨rfl, hsound⟩ := link_stationary.values_iff.1 hv
    exact ⟨t, le_refl t, h.next (h.typed.define name hsound)⟩
  freshId := by
    intro t w m h
    obtain rfl := h.machine
    exact ⟨rfl, t, le_refl t, h.next (h.typed.of_eq rfl rfl)⟩
  makeFunction := by
    rintro t w m _ parameters body _ name h ⟨-, hchildren⟩
    obtain rfl := h.machine
    have htyped : (Runtime.freshId w.machine).2.Typed t := h.typed.of_eq rfl rfl
    have hfresh := h.next htyped
    exact ⟨t, le_refl t, link_stationary.values_iff.2 ⟨rfl, hchildren body List.mem_cons_self⟩,
      hfresh.next hfresh.typed.capture⟩
  makeObject := by
    intro t w m type values values' h htype hfits hvalues
    obtain rfl := h.machine
    obtain ⟨rfl, hsound⟩ := link_stationary.eq_of_values hvalues
    obtain ⟨hle, hobject, htyped⟩ := h.typed.makeObject htype hfits hsound
    exact ⟨⟨t.types.push type⟩, hle, link_stationary.values_iff.2 ⟨rfl, hobject⟩, h.made htyped⟩
  readField := by
    intro t w m type cell field i h hobject hi
    obtain rfl := h.machine
    have hlt : i < type.fields.length := (List.findIdx?_eq_some_iff_getElem.1 hi).1
    refine ⟨t, le_refl t, link_stationary.rel_self fun v hv => ?_,
      (h.access hobject hlt).next h.typed⟩
    exact h.typed.held v (w.machine.holds_of_readField hv)
  writeField := by
    intro t w m type cell i f v v' h hobject hf hconform hv
    obtain rfl := h.machine
    obtain ⟨rfl, hsound⟩ := link_stationary.values_iff.1 hv
    have hlt : i < type.fields.length := (List.getElem?_eq_some_iff.1 hf).1
    exact ⟨t, le_refl t,
      (h.access hobject hlt).next (h.typed.writeField hobject hf hconform hsound)⟩
  frame := by
    rintro t w m e h ⟨-, hchildren⟩
    obtain rfl := h.machine
    refine ⟨t, fun _ _ => id, fun c hc => hchildren c (Expr.mem_children_of_opened hc),
      h.next h.typed.enterFrame, fun t₂ hle w₂ m₂ h₂ => ?_⟩
    obtain rfl := h₂.machine
    exact ⟨t₂, hle, fun _ _ => id, h₂.next (h₂.typed.of_eq rfl rfl)⟩
  call := by
    intro t w m f f' names names' site h hf hnames
    obtain rfl := h.machine
    obtain ⟨hsame, hbody⟩ := link_stationary.values_iff.1 hf
    cases hsame
    obtain ⟨rfl, hsound⟩ := link_stationary.eq_of_bindings hnames
    refine ⟨t, hbody, h.next (h.typed.enterCall f site hsound), fun t₂ hle w₂ m₂ h₂ => ?_⟩
    obtain rfl := h₂.machine
    exact ⟨t₂, hle, fun _ _ => id, h₂.next (h₂.typed.of_eq rfl rfl)⟩

/-! ### Programs -/

/-- Before the first program there are no instances. -/
theorem initial_typed : Machine.initial.Typed ⟨#[]⟩ where
  size := rfl
  instances cell values h := by cases h
  held v hv := by
    obtain ⟨builtin, rfl⟩ := Machine.exists_builtin_of_initial_holds hv
    trivial

/-- Before the first program the machine is observed as it is. -/
theorem initial_observes : initial.Observes ⟨#[]⟩ .initial where
  machine := rfl
  types := rfl
  typed := initial_typed
  latest := List.mem_cons_self
  moments moment hmem := by
    obtain rfl := List.mem_singleton.1 hmem
    exact initial_typed.matches_moment
  accesses a hmem := by cases hmem

/-- The end of all calls concerns no values. -/
theorem link_forgets : link.Forgets := by
  intro t w m h
  obtain rfl := h.machine
  exact ⟨t, le_refl t, h.next (h.typed.of_eq rfl rfl)⟩

end Watch

/-- Two interpreters, the first of which is observed, with equal limits. -/
structure Interpreter.Observes (t : Typing) (i : Interpreter Watch) (j : Interpreter) : Prop where
  machine : i.machine.Observes t j.machine
  depth : i.depth = j.depth
  steps : i.steps = j.steps

end SnapshotScript
