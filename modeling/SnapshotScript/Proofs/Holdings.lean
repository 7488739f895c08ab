import SnapshotScript.Proofs.Frames
import SnapshotScript.Proofs.Instance.Watch

/-!
# Values that are held

A machine holds values in its frames and in the fields of its instances.  An operation of a run adds
at most the values that it is given: whatever is held afterwards has been held before, or is one of
these.  And the values that names and fields give are held.

So a property of all values that a machine holds (`Machine.HoldsOnly`) is kept by every operation,
if the values that the operation is given have it.
-/

namespace SnapshotScript

/-! ### Frames -/

namespace Scopes

variable {s : Scopes} {f : FrameId} {name : String} {v u : Value}

/-- What has been bound is what was bound before, or the new value. -/
theorem mem_insert {bs : Bindings} {other : String} (h : (other, u) ∈ bs.insert name v) :
    u = v ∨ (other, u) ∈ bs := by
  induction bs with
  | nil =>
    cases List.mem_singleton.1 h
    exact .inl rfl
  | cons b bs ih =>
    obtain ⟨n, w⟩ := b
    simp only [Bindings.insert] at h
    split at h
    · rcases List.mem_cons.1 h with heq | hrest
      · cases heq
        exact .inl rfl
      · exact .inr (List.mem_cons_of_mem _ hrest)
    · rcases List.mem_cons.1 h with heq | hrest
      · exact .inr (heq ▸ List.mem_cons_self)
      · exact (ih hrest).imp id (List.mem_cons_of_mem _)

/-- The value of a name is bound to it. -/
theorem mem_of_find? {bs : Bindings} (h : bs.find? name = some v) : (name, v) ∈ bs := by
  induction bs with
  | nil => cases h
  | cons b bs ih =>
    obtain ⟨n, w⟩ := b
    simp only [Bindings.find?] at h
    split at h
    · next heq =>
      subst heq
      cases h
      exact List.mem_cons_self
    · exact List.mem_cons_of_mem _ (ih h)

/-- A new frame adds its own bindings. -/
theorem holds_of_push {frame : Frame} (h : (s.push frame).2.Holds u) :
    s.Holds u ∨ ∃ name, (name, u) ∈ frame.bindings := by
  obtain ⟨g, found, name, hfound, hmem⟩ := h
  rw [push_frames] at hfound
  split at hfound
  · cases hfound
    exact .inr ⟨name, hmem⟩
  · exact .inl ⟨g, found, name, hfound, hmem⟩

/-- A frame whose bindings are not changed adds no values. -/
theorem holds_of_modify {change : Frame → Frame}
    (hsame : ∀ frame, (change frame).bindings = frame.bindings)
    (h : Holds ⟨s.frames.modify f change⟩ u) : s.Holds u := by
  obtain ⟨g, found, name, hfound, hmem⟩ := h
  rw [Array.getElem?_modify] at hfound
  split at hfound
  · cases hold : s.frames[g]? with
    | none => simp [hold] at hfound
    | some frame =>
      rw [hold] at hfound
      cases hfound
      exact ⟨g, frame, name, hold, hsame frame ▸ hmem⟩
  · exact ⟨g, found, name, hfound, hmem⟩

/-- A binding adds its value. -/
theorem holds_of_define (h : (s.define f name v).2.Holds u) : u = v ∨ s.Holds u := by
  unfold define at h
  split at h
  · exact .inr h
  · next frame hframe =>
    have hinsert : ∀ {other}, (other, u) ∈ frame.bindings.insert name v → u = v ∨ s.Holds u :=
      fun hmem => (mem_insert hmem).imp id fun hold => ⟨f, frame, _, hframe, hold⟩
    split at h
    · rcases holds_of_push h with hold | ⟨other, hmem⟩
      · exact .inr hold
      · exact hinsert hmem
    · obtain ⟨g, found, other, hfound, hmem⟩ := h
      rw [Array.getElem?_modify] at hfound
      split at hfound
      · next heq =>
        subst heq
        rw [hframe] at hfound
        cases hfound
        exact hinsert hmem
      · exact .inr ⟨g, found, other, hfound, hmem⟩

/-- Bindings add their values. -/
theorem holds_of_defineAll {bs : Bindings} (h : (s.defineAll f bs).2.Holds u) :
    (∃ b ∈ bs, u = b.2) ∨ s.Holds u := by
  induction bs generalizing s f with
  | nil => exact .inr h
  | cons b bs ih =>
    obtain ⟨name, v⟩ := b
    rcases ih h with ⟨b, hb, heq⟩ | hrest
    · exact .inl ⟨b, List.mem_cons_of_mem _ hb, heq⟩
    · rcases holds_of_define hrest with heq | hold
      · exact .inl ⟨(name, v), List.mem_cons_self, heq⟩
      · exact .inr hold

/-- To mark a frame adds no values. -/
theorem holds_of_mark (h : (s.mark f).Holds u) : s.Holds u := by
  refine holds_of_modify ?_ h
  exact fun _ => rfl

/-- To capture frames adds no values. -/
theorem holds_of_captureWithin {count : Nat} (h : (s.captureWithin count f).Holds u) :
    s.Holds u :=
  captureWithin_keeps (P := fun s' => s'.Holds u → s.Holds u)
    (fun _ _ hkeeps hmarked => hkeeps (holds_of_mark hmarked)) id count f h

/-- The value of a name is held. -/
theorem holds_of_lookupHere (h : s.lookupHere f name = some v) : s.Holds v := by
  unfold lookupHere at h
  split at h
  · next frame hframe => exact ⟨f, frame, name, hframe, mem_of_find? h⟩
  · cases h

/-- The value of a name is held. -/
theorem holds_of_lookupWithin {count : Nat} (h : s.lookupWithin count f name = some v) :
    s.Holds v := by
  induction count generalizing f with
  | zero => cases h
  | succ count ih =>
    unfold lookupWithin at h
    split at h
    · cases h
    · next frame hframe =>
      split at h
      · next found hfound =>
        cases h
        exact ⟨f, frame, name, hframe, mem_of_find? hfound⟩
      · split at h
        · exact ih h
        · cases h

end Scopes

/-! ### Machines -/

namespace Machine

variable {m : Machine} {u v : Value}

/-- A binding adds its value. -/
theorem holds_of_define {name : String} (h : (m.define name v).Holds u) : u = v ∨ m.Holds u := by
  rcases h with hframe | hcell
  · exact (Scopes.holds_of_define hframe).imp id .inl
  · exact .inr (.inr hcell)

/-- To capture the current frame adds no values. -/
theorem holds_of_capture (h : m.capture.2.Holds u) : m.Holds u :=
  h.imp Scopes.holds_of_captureWithin id

/-- An empty frame adds no values. -/
theorem holds_of_enterFrame (h : m.enterFrame.Holds u) : m.Holds u := by
  refine h.imp (fun hframe => ?_) id
  rcases Scopes.holds_of_push hframe with hold | ⟨name, hmem⟩
  · exact hold
  · cases hmem

/-- A call adds the values of its names. -/
theorem holds_of_enterCall {f : Function} {names : Bindings} {site : Position}
    (h : (m.enterCall f names site).Holds u) : (∃ b ∈ names, u = b.2) ∨ m.Holds u := by
  rcases h with hframe | hcell
  · rcases Scopes.holds_of_defineAll hframe with hnew | hchild
    · exact .inl hnew
    · rcases Scopes.holds_of_push hchild with hold | ⟨name, hmem⟩
      · exact .inr (.inl hold)
      · cases hmem
  · exact .inr (.inr hcell)

/-- A new instance adds the values of its fields. -/
theorem holds_of_makeObject {type : StructType} {values : List Value}
    (h : (m.makeObject type values).2.Holds u) : u ∈ values ∨ m.Holds u := by
  rcases h with hframe | ⟨cell, held, hheld, hmem⟩
  · exact .inr (.inl hframe)
  · change (m.cells.push values)[cell]? = some held at hheld
    rw [Array.getElem?_push] at hheld
    split at hheld
    · cases hheld
      exact .inl hmem
    · exact .inr (.inr ⟨cell, held, hheld, hmem⟩)

/-- The fields of an instance are those from before, or one of them has been written to. -/
theorem cells_of_writeField {cell c : CellId} {i : Nat} {held : List Value}
    (h : (m.writeField cell i v).cells[c]? = some held) :
    ∃ values, m.cells[c]? = some values ∧ (held = values ∨ c = cell ∧ held = values.set i v) := by
  change (m.cells.modify cell fun values => values.set i v)[c]? = some held at h
  rw [Array.getElem?_modify] at h
  split at h
  · next heq =>
    cases hold : m.cells[c]? with
    | none => simp [hold] at h
    | some values =>
      rw [hold] at h
      cases h
      exact ⟨values, rfl, .inr ⟨heq.symm, rfl⟩⟩
  · exact ⟨held, h, .inl rfl⟩

/-- A value that is put into a field is added. -/
theorem holds_of_writeField {cell : CellId} {i : Nat} (h : (m.writeField cell i v).Holds u) :
    u = v ∨ m.Holds u := by
  rcases h with hframe | ⟨c, held, hheld, hmem⟩
  · exact .inr (.inl hframe)
  · obtain ⟨values, hvalues, hsame⟩ := cells_of_writeField hheld
    rcases hsame with rfl | ⟨-, rfl⟩
    · exact .inr (.inr ⟨c, held, hvalues, hmem⟩)
    · rcases List.mem_or_eq_of_mem_set hmem with hold | heq
      · exact .inr (.inr ⟨c, values, hvalues, hold⟩)
      · exact .inl heq

/-- The value of a field is held. -/
theorem holds_of_readField (m : Machine) {cell : CellId} {i : Nat}
    (h : (Runtime.readField cell i m).1 = some v) : m.Holds v := by
  have hfield : (m.cells.getD cell [])[i]? = some v := h
  rw [Array.getD_eq_getD_getElem?] at hfield
  cases hcell : m.cells[cell]? with
  | none => simp [hcell] at hfield
  | some values =>
    rw [hcell] at hfield
    exact .inr ⟨cell, values, hcell, List.mem_of_getElem? hfield⟩

/-- Before the first program all names stand for functions that are there from the beginning. -/
theorem exists_builtin_of_initial_holds {v : Value} (hv : initial.Holds v) :
    ∃ b, v = .builtin b := by
  rcases hv with hv | ⟨cell, values, hvalues, -⟩
  · change (Scopes.empty.addGlobals).2.Holds v at hv
    rcases Scopes.holds_of_defineAll hv with ⟨b, hb, rfl⟩ | hroot
    · obtain ⟨builtin, -, rfl⟩ := List.mem_map.1 hb
      exact ⟨builtin, rfl⟩
    · rcases Scopes.holds_of_push hroot with ⟨f, frame, name, hframe, -⟩ | ⟨name, hmem⟩
      · cases hframe
      · cases hmem
  · cases hvalues

/-! ### Properties of all values that are held -/

/-- The property holds of all values in the machine. -/
def HoldsOnly (S : Value → Prop) (m : Machine) : Prop :=
  ∀ v, m.Holds v → S v

namespace HoldsOnly

variable {S T : Value → Prop} {m' : Machine}

theorem mono (h : m.HoldsOnly S) (hST : ∀ v, S v → T v) : m.HoldsOnly T :=
  fun v hv => hST v (h v hv)

/-- What a machine holds is told by its frames and fields. -/
theorem of_eq (h : m.HoldsOnly S) (hscopes : m'.scopes = m.scopes) (hcells : m'.cells = m.cells) :
    m'.HoldsOnly S := by
  intro v hv
  rw [Machine.Holds, hscopes, hcells] at hv
  exact h v hv

/-- To bind a value with the property adds no others. -/
theorem define (h : m.HoldsOnly S) (name : String) (hv : S v) :
    (m.define name v).HoldsOnly S := by
  intro u hu
  rcases holds_of_define hu with rfl | hold
  · exact hv
  · exact h u hold

theorem capture (h : m.HoldsOnly S) : m.capture.2.HoldsOnly S :=
  fun v hv => h v (holds_of_capture hv)

theorem enterFrame (h : m.HoldsOnly S) : m.enterFrame.HoldsOnly S :=
  fun v hv => h v (holds_of_enterFrame hv)

/-- A call adds values with the property only, if the arguments have it. -/
theorem enterCall (h : m.HoldsOnly S) (f : Function) (site : Position) {names : Bindings}
    (hnames : ∀ b ∈ names, S b.2) : (m.enterCall f names site).HoldsOnly S := by
  intro v hv
  rcases holds_of_enterCall hv with ⟨b, hb, rfl⟩ | hold
  · exact hnames b hb
  · exact h v hold

/-- A new instance adds values with the property only, if its fields have it. -/
theorem makeObject (h : m.HoldsOnly S) (type : StructType) {values : List Value}
    (hvalues : ∀ v ∈ values, S v) : (m.makeObject type values).2.HoldsOnly S :=
  fun v hv => (holds_of_makeObject hv).elim (hvalues v) (h v)

/-- To write a value with the property into a field adds no others. -/
theorem writeField (h : m.HoldsOnly S) (cell : CellId) (i : Nat) (hv : S v) :
    (m.writeField cell i v).HoldsOnly S := by
  intro u hu
  rcases holds_of_writeField hu with rfl | hold
  · exact hv
  · exact h u hold

end HoldsOnly

end Machine

end SnapshotScript
