import Mathlib.Data.List.Basic
import SnapshotScript.Scope

/-!
# How frames change

Every operation on frames leaves the existing ones almost as they are: a frame keeps its parent, and
once it is captured it stays captured and keeps its bindings.  Only `Scopes.define` writes to an
existing frame, and only to the one it is given.  `Scopes.Evolves` says this of any number of
operations, with the one frame that may be written to as a parameter.
-/

namespace SnapshotScript

namespace Scopes

variable {s s' s'' : Scopes} {f g : FrameId} {frame : Frame}

/-! ### Frames after an operation -/

/-- Adding a frame leaves the frames that are there as they are. -/
theorem push_frames (s : Scopes) (frame : Frame) (g : FrameId) :
    (s.push frame).2.frames[g]? = if g = s.frames.size then some frame else s.frames[g]? :=
  Array.getElem?_push

/-- The frame that holds a new binding is not captured, has the parent of the frame in which the
name was bound, and its other bindings. -/
theorem define_frame (h : s.frames[f]? = some frame) (name : String) (v : Value) :
    (s.define f name v).2.frames[(s.define f name v).1]? =
      some { frame with bindings := frame.bindings.insert name v, captured := false } := by
  unfold define
  cases hc : frame.captured with
  | true => simp [h, hc, push]
  | false => simp [h, hc, Array.getElem?_modify]

/-- The frame that holds a new binding is the one in which the name was bound, or a new one. -/
theorem define_fst (s : Scopes) (f : FrameId) (name : String) (v : Value) :
    (s.define f name v).1 = f ∨ (s.define f name v).1 = s.frames.size := by
  unfold define
  split
  · exact .inl rfl
  · split
    · exact .inr rfl
    · exact .inl rfl

/-! ### Evolution -/

/-- The frames of `s` are still there in `s'` with their parents.  Those that are captured stay so.
Their bindings are the same unless the frame is the one that is `writable` and is not captured. -/
def Evolves (writable : Option FrameId) (s s' : Scopes) : Prop :=
  ∀ g old, s.frames[g]? = some old → ∃ new, s'.frames[g]? = some new ∧ new.parent = old.parent ∧
    (old.captured = true → new.captured = true) ∧
    (writable ≠ some g ∨ old.captured = true → new.bindings = old.bindings)

namespace Evolves

variable {w w' : Option FrameId}

theorem refl (w : Option FrameId) (s : Scopes) : Evolves w s s :=
  fun _ old h => ⟨old, h, rfl, id, fun _ => rfl⟩

/-- What writes to no frame writes to at most one. -/
theorem of_none (h : Evolves none s s') (w : Option FrameId) : Evolves w s s' := by
  intro g old hg
  obtain ⟨new, hnew, hparent, hcaptured, hbindings⟩ := h g old hg
  exact ⟨new, hnew, hparent, hcaptured, fun _ => hbindings (.inl (by simp))⟩

/-- Frames are never taken away. -/
theorem size_le (h : Evolves w s s') : s.frames.size ≤ s'.frames.size := by
  by_contra hlt
  have hg := Array.getElem?_eq_getElem (Nat.lt_of_not_le hlt)
  obtain ⟨new, hnew, -⟩ := h _ _ hg
  simp at hnew

/-- Two evolutions make one if the second one writes to the same frame or to a frame that was not
there before the first one. -/
theorem trans (h : Evolves w s s') (h' : Evolves w' s' s'')
    (hw : w' = w ∨ ∀ g, w' = some g → s.frames.size ≤ g) : Evolves w s s'' := by
  intro g old hg
  obtain ⟨mid, hmid, hparent, hcaptured, hbindings⟩ := h g old hg
  obtain ⟨new, hnew, hparent', hcaptured', hbindings'⟩ := h' g mid hmid
  refine ⟨new, hnew, hparent'.trans hparent, hcaptured' ∘ hcaptured, fun hcond => ?_⟩
  have hlt : g < s.frames.size := (Array.getElem?_eq_some_iff.1 hg).1
  have hcond' : w' ≠ some g ∨ mid.captured = true := by
    rcases hcond with hne | hold
    · rcases hw with rfl | hfresh
      · exact .inl hne
      · exact .inl fun heq => absurd (hfresh g heq) (Nat.not_le.2 hlt)
    · exact .inr (hcaptured hold)
  exact (hbindings' hcond').trans (hbindings hcond)

/-- A captured frame keeps its parent and its bindings. -/
theorem frozen (h : Evolves w s s') (hg : s.frames[g]? = some frame)
    (hc : frame.captured = true) : s'.frames[g]? = some frame := by
  obtain ⟨new, hnew, hparent, hcaptured, hbindings⟩ := h g frame hg
  rw [hnew]
  cases new
  cases frame
  simp_all

end Evolves

/-- A new frame changes nothing about the others. -/
theorem push_evolves (s : Scopes) (frame : Frame) : Evolves none s (s.push frame).2 := by
  intro g old hg
  have hlt : g < s.frames.size := (Array.getElem?_eq_some_iff.1 hg).1
  refine ⟨old, ?_, rfl, id, fun _ => rfl⟩
  rw [push_frames, if_neg (Nat.ne_of_lt hlt), hg]

/-- A modification of one frame that keeps its parent, and its bindings too if it is captured, is an
evolution. -/
theorem modify_evolves (s : Scopes) (f : FrameId) (change : Frame → Frame)
    (h : ∀ old, s.frames[f]? = some old → (change old).parent = old.parent ∧
      (old.captured = true → (change old).captured = true) ∧
      (w ≠ some f ∨ old.captured = true → (change old).bindings = old.bindings)) :
    Evolves w s ⟨s.frames.modify f change⟩ := by
  intro g old hg
  by_cases hfg : f = g
  · subst hfg
    exact ⟨change old, by simp [Array.getElem?_modify, hg], h old hg⟩
  · exact ⟨old, by simp [Array.getElem?_modify, hfg, hg], rfl, id, fun _ => rfl⟩

/-- Binding a name writes to the given frame only. -/
theorem define_evolves (s : Scopes) (f : FrameId) (name : String) (v : Value) :
    Evolves (some f) s (s.define f name v).2 := by
  unfold define
  split
  · exact .refl _ s
  · next frame hf =>
    split
    · exact (push_evolves s _).of_none _
    · next hc =>
      apply modify_evolves
      intro old hold
      obtain rfl : frame = old := by simpa [hf] using hold
      exact ⟨rfl, id, fun hcond => by simp [hc] at hcond⟩

/-- Binding names writes to the given frame and to new ones only, and ends in one of these. -/
theorem defineAll_evolves (s : Scopes) (f : FrameId) (bs : Bindings) :
    Evolves (some f) s (s.defineAll f bs).2 ∧
      ((s.defineAll f bs).1 = f ∨ s.frames.size ≤ (s.defineAll f bs).1) := by
  induction bs generalizing s f with
  | nil => exact ⟨.refl _ s, .inl rfl⟩
  | cons b bs ih =>
    obtain ⟨name, v⟩ := b
    have hfirst := define_evolves s f name v
    obtain ⟨hrest, hend⟩ := ih (s.define f name v).2 (s.define f name v).1
    have hsize := hfirst.size_le
    have hfst := define_fst s f name v
    refine ⟨hfirst.trans hrest ?_, ?_⟩
    · rcases hfst with h | h
      · exact .inl (by rw [h])
      · exact .inr fun g hg => by cases hg; exact Nat.le_of_eq h.symm
    · rcases hend with hend | hend
      · rcases hfst with h | h
        · exact .inl (hend.trans h)
        · exact .inr (Nat.le_of_eq (hend.trans h).symm)
      · exact .inr (Nat.le_trans hsize hend)

/-- The frames with one more frame marked. -/
def mark (s : Scopes) (f : FrameId) : Scopes :=
  ⟨s.frames.modify f fun frame => { frame with captured := true }⟩

/-- What marking one frame keeps, capturing frames keeps. -/
theorem captureWithin_keeps {P : Scopes → Prop} (hmark : ∀ s f, P s → P (s.mark f)) {s : Scopes}
    (h : P s) (count : Nat) (f : FrameId) : P (s.captureWithin count f) := by
  induction count generalizing s f with
  | zero => exact h
  | succ count ih =>
    unfold captureWithin
    split
    · exact h
    · next frame _ =>
      split
      · exact h
      · have hnext : P (s.mark f) := hmark s f h
        dsimp only
        split
        · next parent _ => exact ih hnext parent
        · exact hnext

/-- To mark a frame changes nothing else. -/
theorem mark_evolves (s : Scopes) (f : FrameId) : Evolves none s (s.mark f) :=
  modify_evolves s f _ fun _ _ => ⟨rfl, fun _ => rfl, fun _ => rfl⟩

/-- Capturing frames changes nothing but the marks. -/
theorem captureWithin_evolves (s : Scopes) (count : Nat) (f : FrameId) :
    Evolves none s (s.captureWithin count f) :=
  captureWithin_keeps (fun s' g hs' => hs'.trans (mark_evolves s' g) (.inl rfl)) (.refl _ s) count f

/-- Capturing a frame changes nothing but the marks. -/
theorem capture_evolves (s : Scopes) (f : FrameId) : Evolves none s (s.capture f) :=
  captureWithin_evolves s _ f

end Scopes

end SnapshotScript
