import SnapshotScript.Proofs.Morphism

/-!
# Observers of runs

What happens in the course of a run cannot be read off the state that the run leaves.  An observer
holds a state of the run, and more besides, and it takes notice of each operation that leads to a
new state.  It has no influence on the run: its operations are those of the state
(`Observer.runtime`).

Two observers of the same run can be compared.  If a map between them respects what each of them
notices, then it respects what each of them makes of an expression (`Observer.Hom.evaluate_eq`).
For instance an observer may forget all that it has noticed, and then the ordinary run is left.
-/

namespace SnapshotScript

/-- An operation that leads to a new state of a run. -/
inductive Runtime.Step (κ : Type) where
  | define (name : String) (v : Value κ)
  | capture
  | enterFrame
  | leaveFrame (saved : κ)
  | enterCall (f : Function κ) (names : Bindings κ) (site : Position)
  | leaveCall (saved : κ)
  | forgetCalls
  | makeObject (type : StructType) (values : List (Value κ))
  | readField (cell : CellId) (i : Nat)
  | writeField (cell : CellId) (i : Nat) (v : Value κ)
  /-- The identity has not been used before. -/
  | freshId (id : Nat)
  | record (e : Event)

/-- How the states of a run are observed. -/
structure Observer (τ σ κ : Type) where
  /-- The state that is observed. -/
  state : τ → σ
  /-- The observer when an operation has led to a new state. -/
  notice : Runtime.Step κ → σ → τ → τ
  state_notice (step s t) : state (notice step s t) = s

variable {τ τ' σ κ : Type}

namespace Observer

/-- The observer that notices nothing: the state itself. -/
def blind : Observer σ σ κ where
  state := id
  notice _ s _ := s
  state_notice _ _ _ := rfl

variable [Runtime σ κ]

/-- The operations of the state that is observed. -/
abbrev runtime (O : Observer τ σ κ) : Runtime τ κ where
  lookup t := Runtime.lookup (O.state t)
  lookupHere t := Runtime.lookupHere (O.state t)
  define name v t := O.notice (.define name v) (Runtime.define name v (O.state t)) t
  place t := Runtime.place (O.state t)
  capture t :=
    ((Runtime.capture (O.state t)).1, O.notice .capture (Runtime.capture (O.state t)).2 t)
  enterFrame t := O.notice .enterFrame (Runtime.enterFrame (O.state t)) t
  leaveFrame saved t := O.notice (.leaveFrame saved) (Runtime.leaveFrame saved (O.state t)) t
  enterCall f names site t :=
    O.notice (.enterCall f names site) (Runtime.enterCall f names site (O.state t)) t
  leaveCall saved t := O.notice (.leaveCall saved) (Runtime.leaveCall saved (O.state t)) t
  calls t := Runtime.calls (O.state t)
  forgetCalls t := O.notice .forgetCalls (Runtime.forgetCalls (O.state t)) t
  cells t := Runtime.cells (O.state t)
  makeObject type values t :=
    ((Runtime.makeObject type values (O.state t)).1,
      O.notice (.makeObject type values) (Runtime.makeObject type values (O.state t)).2 t)
  readField cell i t :=
    ((Runtime.readField cell i (O.state t)).1,
      O.notice (.readField cell i) (Runtime.readField cell i (O.state t)).2 t)
  writeField cell i v t :=
    O.notice (.writeField cell i v) (Runtime.writeField cell i v (O.state t)) t
  freshId t :=
    let (id, s) := Runtime.freshId (O.state t)
    (id, O.notice (.freshId id) s t)
  record e t := O.notice (.record e) (Runtime.record e (O.state t)) t

/-- A map between two observers of the same run that respects what they notice. -/
structure Hom (O : Observer τ σ κ) (O' : Observer τ' σ κ) where
  map : τ → τ'
  state_map (t) : O'.state (map t) = O.state t
  notice_map (step s t) : O'.notice step s (map t) = map (O.notice step s t)

/-- An observer may forget all that it has noticed. -/
def forgetting (O : Observer τ σ κ) : O.Hom .blind where
  map := O.state
  state_map _ := rfl
  notice_map step s t := (O.state_notice step s t).symm

namespace Hom

variable {O : Observer τ σ κ} {O' : Observer τ' σ κ} (h : O.Hom O')

omit [Runtime σ κ] in
/-- What an operation makes of the observed state is noticed on both sides of the map. -/
theorem notice_state (step : Runtime.Step κ) (operation : σ → σ) (t : τ) :
    O'.notice step (operation (O'.state (h.map t))) (h.map t) =
      h.map (O.notice step (operation (O.state t)) t) := by
  rw [h.state_map, h.notice_map]

/-- Every operation respects the map. -/
def morphism : @Runtime.Morphism τ κ τ' κ O.runtime O'.runtime :=
  letI := O.runtime
  letI := O'.runtime
  { closure := id
    position := id
    state := h.map
    lookup_state t name := by
      rw [Value.recast_refl_fun, Option.map_id]
      exact congrArg (Runtime.lookup · name) (h.state_map t)
    lookupHere_state t name := by
      rw [Value.recast_refl_fun, Option.map_id]
      exact congrArg (Runtime.lookupHere · name) (h.state_map t)
    define_state name v t := by
      rw [Value.recast_refl]
      exact h.notice_state (.define name v) (Runtime.define name v) t
    place_state t := congrArg Runtime.place (h.state_map t)
    capture_state t := by
      dsimp only [Runtime.capture]
      rw [h.state_map, h.notice_map]
      rfl
    enterFrame_state := h.notice_state .enterFrame Runtime.enterFrame
    leaveFrame_state k := h.notice_state (.leaveFrame k) (Runtime.leaveFrame k)
    enterCall_state f names site t := by
      rw [Function.recast_refl, Bindings.recast_refl]
      exact h.notice_state (.enterCall f names site) (Runtime.enterCall f names site) t
    leaveCall_state k := h.notice_state (.leaveCall k) (Runtime.leaveCall k)
    calls_state t := by
      rw [ActiveCall.relocate_id, Array.map_id]
      exact congrArg Runtime.calls (h.state_map t)
    cells_state t := by
      rw [Cells.recast_refl]
      exact congrArg Runtime.cells (h.state_map t)
    makeObject_state type values t := by
      rw [Value.recast_refl_fun, List.map_id]
      dsimp only [Runtime.makeObject]
      rw [h.state_map, h.notice_map]
      rfl
    readField_state cell i t := by
      rw [Value.recast_refl_fun, Option.map_id]
      dsimp only [Runtime.readField]
      rw [h.state_map, h.notice_map]
      rfl
    writeField_state cell i v t := by
      rw [Value.recast_refl]
      exact h.notice_state (.writeField cell i v) (Runtime.writeField cell i v) t
    freshId_state t := by
      dsimp only [Runtime.freshId]
      rw [h.state_map, h.notice_map]
    record_state e := h.notice_state (.record e) (Runtime.record e) }

/-- An expression has the same outcome for both observers, apart from what they have noticed. -/
theorem evaluate_eq (limit steps : Nat) (e : Expr) (t : τ) :
    letI := O.runtime
    letI := O'.runtime
    evaluate limit steps e (h.map t) =
      (Mirror.onStates h.map).outcome id (evaluate limit steps e t) :=
  letI := O.runtime
  letI := O'.runtime
  h.morphism.evaluate_eq rfl rfl limit steps e t

end Hom

end Observer

end SnapshotScript
