import SnapshotScript.Proofs.Snapshot.Archive

/-!
# The environments that frames stand for

A frame needs its parent, and the frames that the functions in it keep.  As long as no frame needs
itself, directly or through others, its environment can be read off: follow the parents, and replace
each frame that a function keeps by the environment of that frame.

Frames are *sealed* if functions keep only captured ones.  Each frame then stands for its
environment, and the archive notes the environments of all captured frames.
-/

namespace SnapshotScript

namespace Scopes

variable {s : Scopes} {rank : FrameId → Nat} {f : FrameId} {frame : Frame}

/-- The first frame needs the second one: it is its parent, or a function in it keeps it. -/
def Needs (s : Scopes) (f g : FrameId) : Prop :=
  ∃ frame, s.frames[f]? = some frame ∧
    (frame.parent = some g ∨ ∃ b ∈ frame.bindings, b.2.Keeps g)

/-- The environment of a frame, with empty ones for what is more than `depth` frames away. -/
def environmentWithin (s : Scopes) : Nat → FrameId → Environment
  | 0, _ => .of []
  | depth + 1, f =>
    match s.frames[f]? with
    | none => .of []
    | some frame =>
      let map := frame.bindings.map (s.environmentWithin depth)
      match frame.parent with
      | none => .of [map]
      | some parent => (s.environmentWithin depth parent).push map

/-- The environment of a frame that needs only frames of lower rank. -/
def environmentOf (s : Scopes) (rank : FrameId → Nat) (f : FrameId) : Environment :=
  s.environmentWithin (rank f + 1) f

/-- Functions keep only captured frames, and no frame needs itself: frames need only those of lower
rank, and their parents are older than themselves. -/
structure Sealed (s : Scopes) (rank : FrameId → Nat) : Prop where
  upward : s.Upward
  parents : ∀ (f : FrameId) (frame : Frame) (parent : FrameId), s.frames[f]? = some frame →
    frame.parent = some parent → parent < f
  functions : ∀ (f : FrameId) (frame : Frame), s.frames[f]? = some frame →
    ∀ b ∈ frame.bindings, ∀ g, b.2.Keeps g → s.Captured g
  grounded : ∀ f g, s.Needs f g → rank g < rank f

/-- The captured frames with their environments. -/
def archive (s : Scopes) (rank : FrameId → Nat) : Archive := fun f e =>
  s.Captured f ∧ s.environmentOf rank f = e

/-- Frames that are farther away than the rank of a frame do not matter for its environment. -/
theorem environmentWithin_eq (hgrounded : ∀ f g, s.Needs f g → rank g < rank f)
    {depth depth' : Nat} (hdepth : rank f < depth) (hdepth' : rank f < depth') :
    s.environmentWithin depth f = s.environmentWithin depth' f := by
  induction depth generalizing f depth' with
  | zero => exact absurd hdepth (Nat.not_lt_zero _)
  | succ depth ih =>
    obtain ⟨depth', rfl⟩ := Nat.exists_eq_add_one_of_ne_zero (Nat.ne_zero_of_lt hdepth')
    have hneeds : ∀ g, s.Needs f g →
        s.environmentWithin depth g = s.environmentWithin depth' g := by
      intro g hg
      have hlt := hgrounded f g hg
      exact ih (by omega) (by omega)
    rw [environmentWithin, environmentWithin]
    cases hframe : s.frames[f]? with
    | none => rfl
    | some frame =>
      have hmap : frame.bindings.map (s.environmentWithin depth) =
          frame.bindings.map (s.environmentWithin depth') :=
        Bindings.map_congr fun b hb g hg => hneeds g ⟨frame, hframe, .inr ⟨b, hb, hg⟩⟩
      cases hparent : frame.parent with
      | none => simp only [hparent, hmap]
      | some parent => simp only [hparent, hmap, hneeds parent ⟨frame, hframe, .inl hparent⟩]

/-- The environment of a frame has its bindings in the innermost map, inside the environment of its
parent. -/
theorem environmentOf_eq (hgrounded : ∀ f g, s.Needs f g → rank g < rank f)
    (hframe : s.frames[f]? = some frame) :
    (s.environmentOf rank f).maps = frame.bindings.map (s.environmentOf rank) ::
      (frame.parent.elim [] fun parent => (s.environmentOf rank parent).maps) := by
  have hneeds : ∀ g, s.Needs f g → s.environmentWithin (rank f) g = s.environmentOf rank g :=
    fun g hg => environmentWithin_eq hgrounded (hgrounded f g hg) (Nat.lt_succ_self _)
  have hmap : frame.bindings.map (s.environmentWithin (rank f)) =
      frame.bindings.map (s.environmentOf rank) :=
    Bindings.map_congr fun b hb g hg => hneeds g ⟨frame, hframe, .inr ⟨b, hb, hg⟩⟩
  rw [environmentOf, environmentWithin, hframe]
  cases hparent : frame.parent with
  | none =>
    simp only [hparent, hmap]
    rfl
  | some parent =>
    simp only [hparent, hmap, hneeds parent ⟨frame, hframe, .inl hparent⟩]
    rfl

namespace Sealed

/-- Each frame stands for its environment. -/
theorem stands (h : s.Sealed rank) (hf : f < s.frames.size) :
    Stands (s.archive rank) s f (s.environmentOf rank f).maps := by
  induction f using Nat.strongRecOn with
  | ind f ih =>
    have hframe : s.frames[f]? = some s.frames[f] := Array.getElem?_eq_getElem hf
    have hmap : Bindings.Related (s.archive rank) s.frames[f].bindings
        (s.frames[f].bindings.map (s.environmentOf rank)) :=
      Bindings.related_map fun b hb g hg => ⟨h.functions f _ hframe b hb g hg, rfl⟩
    rw [environmentOf_eq h.grounded hframe]
    cases hparent : s.frames[f].parent with
    | none => exact .root hframe hparent hmap
    | some parent =>
      have hlt : parent < f := h.parents f _ parent hframe hparent
      exact .child hframe hparent hlt hmap (ih parent hlt (Nat.lt_trans hlt hf))

/-- The environments in the archive are those that the frames stand for. -/
theorem archived (h : s.Sealed rank) {e : Environment} (he : s.archive rank f e) :
    s.Captured f ∧ Stands (s.archive rank) s f e.maps := by
  obtain ⟨hcaptured, rfl⟩ := he
  refine ⟨hcaptured, h.stands ?_⟩
  obtain ⟨frame, hframe, -⟩ := hcaptured
  exact (Array.getElem?_eq_some_iff.1 hframe).1

end Sealed

end Scopes

end SnapshotScript
