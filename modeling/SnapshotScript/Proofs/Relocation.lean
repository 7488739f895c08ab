import SnapshotScript.Proofs.Morphism

/-!
# Machines in other positions

A machine mentions positions in two places: the bodies of the functions that it holds, and the
active calls.  To move these to other positions is a morphism (`Machine.relocation`), and so is to
have some events happen before all others.
-/

namespace SnapshotScript

variable (π : Position → Position)

/-- Other positions, with the same places of functions. -/
abbrev Recast.onPositions {κ : Type} : Recast κ κ where
  closure := id
  position := π

/-- The frame with the bodies of its functions in other positions. -/
def Frame.relocate (frame : Frame) : Frame :=
  ⟨frame.bindings.recast (.onPositions π), frame.parent, frame.captured⟩

/-- The frames with the bodies of their functions in other positions. -/
def Scopes.relocate (s : Scopes) : Scopes :=
  ⟨s.frames.map (Frame.relocate π)⟩

/-- The machine in other positions. -/
def Machine.relocate (m : Machine) : Machine where
  scopes := m.scopes.relocate π
  cells := m.cells.recast (.onPositions π)
  current := m.current
  calls := m.calls.map (ActiveCall.relocate π)
  nextId := m.nextId
  journal := m.journal

/-- The machine with events in front of those of its journal. -/
def Machine.after (events : Array Event) (m : Machine) : Machine :=
  { m with journal := events ++ m.journal }

/-! ### Everything where it is -/

@[simp] theorem Scopes.relocate_id (s : Scopes) : s.relocate id = s := by
  have hframes : Frame.relocate id = id := by
    funext frame
    rw [Frame.relocate, Bindings.recast_refl]
    rfl
  rw [relocate, hframes, Array.map_id]

@[simp] theorem Machine.after_empty (m : Machine) : m.after #[] = m := by
  rw [after, Array.empty_append]

@[simp] theorem Machine.relocate_id (m : Machine) : m.relocate id = m := by
  rw [relocate, Scopes.relocate_id, Cells.recast_refl, ActiveCall.relocate_id, Array.map_id]

/-! ### Frames -/

namespace Scopes

@[simp] theorem size_relocate (s : Scopes) : (s.relocate π).frames.size = s.frames.size :=
  Array.size_map

@[simp] theorem getElem?_relocate (s : Scopes) (f : FrameId) :
    (s.relocate π).frames[f]? = s.frames[f]?.map (Frame.relocate π) :=
  Array.getElem?_map

theorem lookupHere_relocate (s : Scopes) (f : FrameId) (name : String) :
    (s.relocate π).lookupHere f name =
      (s.lookupHere f name).map (Value.recast (.onPositions π)) := by
  unfold lookupHere
  rw [getElem?_relocate]
  cases s.frames[f]? with
  | none => rfl
  | some frame => exact Bindings.find?_recast _ name frame.bindings

theorem lookupWithin_relocate (s : Scopes) (count : Nat) (f : FrameId) (name : String) :
    (s.relocate π).lookupWithin count f name =
      (s.lookupWithin count f name).map (Value.recast (.onPositions π)) := by
  induction count generalizing f with
  | zero => rfl
  | succ count ih =>
    simp only [lookupWithin, getElem?_relocate]
    cases s.frames[f]? with
    | none => rfl
    | some frame =>
      simp only [Option.map_some, Frame.relocate, Bindings.find?_recast]
      cases frame.bindings.find? name with
      | some v => rfl
      | none =>
        cases frame.parent with
        | none => rfl
        | some parent => exact ih parent

theorem lookup_relocate (s : Scopes) (f : FrameId) (name : String) :
    (s.relocate π).lookup f name = (s.lookup f name).map (Value.recast (.onPositions π)) := by
  unfold lookup
  rw [size_relocate, lookupWithin_relocate]

theorem push_relocate (s : Scopes) (frame : Frame) :
    (s.relocate π).push (frame.relocate π) =
      ((s.push frame).1, (s.push frame).2.relocate π) := by
  simp only [push, size_relocate]
  exact congrArg (fun frames => (s.frames.size, Scopes.mk frames)) Array.map_push.symm

theorem addChild_relocate (s : Scopes) (parent : FrameId) :
    (s.relocate π).addChild parent =
      ((s.addChild parent).1, (s.addChild parent).2.relocate π) :=
  push_relocate π s ⟨[], some parent, false⟩

/-- A frame may be moved before or after it is changed, if the change does not look at positions. -/
theorem modify_relocate (s : Scopes) (f : FrameId) {change change' : Frame → Frame}
    (h : ∀ frame, change' (frame.relocate π) = (change frame).relocate π) :
    Scopes.mk ((s.relocate π).frames.modify f change') =
      (Scopes.mk (s.frames.modify f change)).relocate π := by
  refine congrArg Scopes.mk (Array.ext_getElem? fun i => ?_)
  simp only [relocate, Array.getElem?_modify, Array.getElem?_map]
  split
  · cases s.frames[i]? with
    | none => rfl
    | some frame => exact congrArg some (h frame)
  · rfl

theorem define_relocate (s : Scopes) (f : FrameId) (name : String) (v : Value) :
    (s.relocate π).define f name (v.recast (.onPositions π)) =
      ((s.define f name v).1, (s.define f name v).2.relocate π) := by
  have hinsert : ∀ frame : Frame, (frame.relocate π).bindings.insert name
      (v.recast (.onPositions π)) =
        (frame.bindings.insert name v).recast (.onPositions π) := fun frame =>
    Bindings.insert_recast _ name v frame.bindings
  have hcaptured : ∀ frame : Frame, (frame.relocate π).captured = frame.captured := fun _ => rfl
  unfold define
  rw [getElem?_relocate]
  cases s.frames[f]? with
  | none => rfl
  | some frame =>
    simp only [Option.map_some, hinsert, hcaptured]
    split
    · exact push_relocate π s { frame with
        bindings := frame.bindings.insert name v, captured := false }
    · refine congrArg (Prod.mk f) (modify_relocate π s f fun frame => ?_)
      rw [hinsert]
      rfl

theorem defineAll_relocate (s : Scopes) (f : FrameId) (names : Bindings) :
    (s.relocate π).defineAll f (names.recast (.onPositions π)) =
      ((s.defineAll f names).1, (s.defineAll f names).2.relocate π) := by
  induction names generalizing s f with
  | nil => rfl
  | cons b names ih =>
    have hfirst := define_relocate π s f b.1 b.2
    change defineAll ((s.relocate π).define f b.1 (b.2.recast (.onPositions π))).2
      ((s.relocate π).define f b.1 (b.2.recast (.onPositions π))).1
      (Bindings.recast (.onPositions π) names) = _
    rw [hfirst]
    exact ih _ _

theorem captureWithin_relocate (s : Scopes) (count : Nat) (f : FrameId) :
    (s.relocate π).captureWithin count f = (s.captureWithin count f).relocate π := by
  induction count generalizing s f with
  | zero => rfl
  | succ count ih =>
    simp only [captureWithin, getElem?_relocate]
    cases s.frames[f]? with
    | none => rfl
    | some frame =>
      have hmark : Scopes.mk ((s.relocate π).frames.modify f fun frame =>
          { frame with captured := true }) =
            (Scopes.mk (s.frames.modify f fun frame =>
              { frame with captured := true })).relocate π :=
        modify_relocate π s f fun _ => rfl
      have hcaptured : (frame.relocate π).captured = frame.captured := rfl
      have hparent : (frame.relocate π).parent = frame.parent := rfl
      simp only [Option.map_some, hcaptured, hparent, hmark]
      split
      · rfl
      · cases frame.parent with
        | none => rfl
        | some parent => exact ih _ parent

theorem capture_relocate (s : Scopes) (f : FrameId) :
    (s.relocate π).capture f = (s.capture f).relocate π := by
  unfold capture
  rw [size_relocate, captureWithin_relocate]

end Scopes

/-! ### Machines -/

namespace Machine

theorem readField_relocate (cells : Cells) (cell : CellId) (i : Nat) :
    ((cells.recast (.onPositions π)).getD cell [])[i]? =
      (cells.getD cell [])[i]?.map (Value.recast (.onPositions π)) := by
  simp only [Cells.recast, Array.getD_eq_getD_getElem?, Array.getElem?_map]
  cases cells[cell]? with
  | none => simp
  | some values => simp

theorem writeField_relocate (cells : Cells) (cell : CellId) (i : Nat) (v : Value) :
    (cells.recast (.onPositions π)).modify cell
        (fun values => values.set i (v.recast (.onPositions π))) =
      Cells.recast (.onPositions π) (cells.modify cell fun values => values.set i v) := by
  refine Array.ext_getElem? fun c => ?_
  simp only [Cells.recast, Array.getElem?_map, Array.getElem?_modify]
  split
  · cases cells[c]? <;> simp [List.map_set]
  · rfl

theorem enterCall_relocate (m : Machine) (events : Array Event) (f : Function) (names : Bindings)
    (site : Position) :
    ((m.relocate π).after events).enterCall (f.recast (.onPositions π))
        (names.recast (.onPositions π)) (π site) =
      ((m.enterCall f names site).relocate π).after events := by
  have hcalls : (m.calls.push ⟨f.displayName, site⟩).map (ActiveCall.relocate π) =
      (m.calls.map (ActiveCall.relocate π)).push ⟨f.displayName, π site⟩ := Array.map_push
  dsimp only [enterCall, after, relocate, Function.recast]
  rw [Scopes.addChild_relocate, hcalls, Array.size_map]
  dsimp only
  rw [Scopes.defineAll_relocate, Array.push_append]
  rfl

theorem makeObject_relocate (m : Machine) (events : Array Event) (type : StructType)
    (values : List Value) :
    ((m.relocate π).after events).makeObject type (values.map (Value.recast (.onPositions π))) =
      ((m.makeObject type values).1.recast (.onPositions π),
        ((m.makeObject type values).2.relocate π).after events) := by
  have hcells : (m.cells.recast (.onPositions π)).push
      (values.map (Value.recast (.onPositions π))) =
        Cells.recast (.onPositions π) (m.cells.push values) := Array.map_push.symm
  have hsize : (m.cells.recast (.onPositions π)).size = m.cells.size := Array.size_map
  dsimp only [makeObject, after, relocate]
  rw [hcells, hsize]
  rfl

/-- To move a machine to other positions, and to have events happen before those of its journal, is
a morphism. -/
def relocation (events : Array Event) : Runtime.Morphism Machine FrameId Machine FrameId where
  closure := id
  position := π
  state m := (m.relocate π).after events
  lookup_state m name := m.scopes.lookup_relocate π m.current name
  lookupHere_state m name := m.scopes.lookupHere_relocate π m.current name
  define_state name v m :=
    congrArg (fun p : FrameId × Scopes =>
        ({ (m.relocate π).after events with scopes := p.2, current := p.1 } : Machine))
      (m.scopes.define_relocate π m.current name v)
  place_state _ := rfl
  capture_state m :=
    congrArg (fun scopes : Scopes =>
        (m.current, ({ (m.relocate π).after events with scopes } : Machine)))
      (m.scopes.capture_relocate π m.current)
  enterFrame_state m :=
    congrArg (fun p : FrameId × Scopes =>
        ({ (m.relocate π).after events with scopes := p.2, current := p.1 } : Machine))
      (m.scopes.addChild_relocate π m.current)
  leaveFrame_state _ _ := rfl
  enterCall_state f names site m := m.enterCall_relocate π events f names site
  leaveCall_state saved m :=
    congrArg (fun calls => ({ (m.relocate π).after events with current := saved, calls } : Machine))
      Array.map_pop.symm
  calls_state _ := rfl
  cells_state _ := rfl
  makeObject_state type values m := m.makeObject_relocate π events type values
  readField_state cell i m :=
    congrArg (·, (m.relocate π).after events) (readField_relocate π m.cells cell i)
  writeField_state cell i v m :=
    congrArg (fun cells => ({ (m.relocate π).after events with cells } : Machine))
      (writeField_relocate π m.cells cell i v)
  freshId_state _ := rfl
  record_state _ m :=
    congrArg (fun journal => ({ m.relocate π with journal } : Machine)) Array.push_append

end Machine

end SnapshotScript
