import Mathlib.Logic.Relation
import SnapshotScript.Proofs.Frames.Capture

/-!
# Sequences of operations on frames

Frames come about by operations on the frames that are there.  Whatever the operations are and in
whatever order they come, a frame and its ancestors look the same for ever once the frame has been
captured, and a binding changes what is looked up for the one name only.
-/

namespace SnapshotScript

namespace Scopes

/-- An operation on frames. -/
inductive Operation where
  | addRoot
  | addChild (parent : FrameId)
  | define (f : FrameId) (name : String) (v : Value)
  | capture (f : FrameId)
  | lookup (f : FrameId) (name : String)
  | lookupHere (f : FrameId) (name : String)

namespace Operation

/-- The frame to which the operation is applied. -/
def target? : Operation → Option FrameId
  | .addRoot => none
  | .addChild f | .define f _ _ | .capture f | .lookup f _ | .lookupHere f _ => some f

/-- The frames after the operation. -/
def apply (s : Scopes) : Operation → Scopes
  | .addRoot => s.addRoot.2
  | .addChild parent => (s.addChild parent).2
  | .define f name v => (s.define f name v).2
  | .capture f => s.capture f
  | .lookup _ _ | .lookupHere _ _ => s

/-- The frame that the operation may write to. -/
def written? : Operation → Option FrameId
  | .define f _ _ => some f
  | _ => none

end Operation

/-- The second frames come from the first ones by operations on frames that are there. -/
inductive Reaches (s : Scopes) : Scopes → Prop
  | refl : Reaches s s
  | step {s' : Scopes} (op : Operation) : Reaches s s' →
    (∀ f, op.target? = some f → f < s'.frames.size) → Reaches s (op.apply s')

/-- The second frame is the parent of the first one. -/
def Parent (s : Scopes) (f g : FrameId) : Prop :=
  ∃ frame, s.frames[f]? = some frame ∧ frame.parent = some g

/-- The second frame is in the chain of the first one. -/
def Ancestor (s : Scopes) : FrameId → FrameId → Prop :=
  Relation.ReflTransGen s.Parent

variable {s s' : Scopes} {f g : FrameId}

/-! ### Single operations -/

/-- An operation writes to one frame at most. -/
theorem Operation.evolves (op : Operation) (s : Scopes) : s.Evolves op.written? (op.apply s) := by
  cases op with
  | addRoot => exact push_evolves s _
  | addChild parent => exact push_evolves s _
  | define f name v => exact define_evolves s f name v
  | capture f => exact capture_evolves s f
  | lookup f name => exact .refl _ s
  | lookupHere f name => exact .refl _ s

/-- An operation keeps chains, and ancestors of captured frames captured. -/
theorem Rooted.apply (h : s.Rooted) {op : Operation}
    (htarget : ∀ f, op.target? = some f → f < s.frames.size) : (op.apply s).Rooted := by
  cases op with
  | addRoot => exact h.addRoot
  | addChild parent => exact h.addChild (htarget parent rfl)
  | define f name v => exact h.define f name v
  | capture f => exact (h.capture (htarget f rfl)).1
  | lookup f name => exact h
  | lookupHere f name => exact h

/-- A frame that is captured is not written to, nor is an ancestor of it. -/
theorem Captured.spares (h : s.Captured f) (hup : s.Upward) (writable : Option FrameId) :
    s.Spares writable f :=
  fun _ _ => .inr ⟨h, hup⟩

/-- With a frame its ancestors are captured. -/
theorem Captured.ancestor (h : s.Captured f) (hup : s.Upward) (hg : s.Ancestor f g) :
    s.Captured g := by
  induction hg with
  | refl => exact h
  | tail _ hparent ih =>
    obtain ⟨frame, hframe, hcaptured⟩ := ih
    obtain ⟨frame', hframe', hparent⟩ := hparent
    rw [hframe] at hframe'
    cases hframe'
    exact hup _ frame _ hframe hcaptured hparent

/-! ### Sequences of operations -/

namespace Reaches

/-- Operations keep chains, and ancestors of captured frames captured. -/
theorem rooted (h : s.Reaches s') (hs : s.Rooted) : s'.Rooted := by
  induction h with
  | refl => exact hs
  | step _ _ htarget ih => exact ih.apply htarget

/-- Captured frames stay as they are. -/
theorem frozen (h : s.Reaches s') {frame : Frame} (hframe : s.frames[f]? = some frame)
    (hcaptured : frame.captured = true) : s'.frames[f]? = some frame := by
  induction h with
  | refl => exact hframe
  | @step s' op _ _ ih => exact (op.evolves s').frozen ih hcaptured

/-- The names of a captured frame keep their values. -/
theorem lookup_eq (h : s.Reaches s') (hs : s.Rooted) (hf : s.Captured f) (name : String) :
    s'.lookup f name = s.lookup f name := by
  induction h with
  | refl => rfl
  | @step s' op hreach _ ih =>
    obtain ⟨frame, hframe, hcaptured⟩ := hf
    have hf' : s'.Captured f := ⟨frame, hreach.frozen hframe hcaptured, hcaptured⟩
    have hs' := hreach.rooted hs
    obtain ⟨n, hchain⟩ := hs'.chain f (Array.getElem?_eq_some_iff.1 hf'.choose_spec.1).1
    exact (hchain.lookup_evolves (op.evolves s') (hf'.spares hs'.upward _) name).trans ih

/-- The names of a captured frame keep the values that they have in the frame itself. -/
theorem lookupHere_eq (h : s.Reaches s') (hf : s.Captured f) (name : String) :
    s'.lookupHere f name = s.lookupHere f name := by
  obtain ⟨frame, hframe, hcaptured⟩ := hf
  simp only [lookupHere, hframe, h.frozen hframe hcaptured]

end Reaches

/-! ### Bindings -/

/-- A frame that is not captured holds its new bindings itself. -/
theorem define_fst_of_not_captured (hf : ¬ s.Captured f) (name : String) (v : Value) :
    (s.define f name v).1 = f := by
  unfold define
  split
  · rfl
  · next frame hframe =>
    split
    · next hcaptured => exact absurd ⟨frame, hframe, hcaptured⟩ hf
    · rfl

/-- In the frame that holds a new binding the name has the new value, and all others have the ones
that they had. -/
theorem lookupHere_define (hf : f < s.frames.size) (name : String) (v : Value) (other : String) :
    (s.define f name v).2.lookupHere (s.define f name v).1 other =
      if name = other then some v else s.lookupHere f other := by
  have hframe : s.frames[f]? = some s.frames[f] := Array.getElem?_eq_getElem hf
  simp only [lookupHere, define_frame hframe, hframe, Bindings.find?_insert]

/-- From the frame that holds a new binding the name has the new value, and all others have the ones
that they had. -/
theorem Chain.lookup_define {n : Nat} (h : s.Chain f n) (name : String) (v : Value)
    (other : String) :
    (s.define f name v).2.lookup (s.define f name v).1 other =
      if name = other then some v else s.lookup f other := by
  obtain ⟨frame, hframe⟩ := h.exists_frame
  have hevolves := define_evolves s f name v
  have hparents : (frame.parent.bind fun parent => (s.define f name v).2.lookup parent other) =
      frame.parent.bind fun parent => s.lookup parent other := by
    cases h with
    | root hroot hnone =>
      rw [hframe] at hroot
      cases hroot
      rw [hnone]
      rfl
    | child hchild hparent hlt hchain =>
      rw [hframe] at hchild
      cases hchild
      rw [hparent, Option.bind_some, Option.bind_some]
      exact hchain.lookup_evolves hevolves (fun g hg => .inl (Option.some.inj hg ▸ hlt)) other
  rw [(h.define name v).lookup_eq (define_frame hframe name v), h.lookup_eq hframe, hparents,
    Bindings.find?_insert]
  split
  · rfl
  · rfl

/-- A binding leaves the other names in a frame as they are. -/
theorem find?_of_define {old new : Frame} {name other : String} {v : Value}
    (hold : s.frames[g]? = some old) (hnew : (s.define f name v).2.frames[g]? = some new)
    (hother : other ≠ name) : new.bindings.find? other = old.bindings.find? other := by
  by_cases hwrites : f = g ∧ old.captured = false
  · obtain ⟨rfl, hfree⟩ := hwrites
    have hsame : (s.define f name v).1 = f := define_fst_of_not_captured (by
      rintro ⟨frame, hframe, hcaptured⟩
      rw [hold] at hframe
      cases hframe
      simp [hfree] at hcaptured) name v
    have hframe := define_frame hold name v
    rw [hsame, hnew] at hframe
    cases hframe
    exact (Bindings.find?_insert name other v old.bindings).trans (if_neg hother.symm)
  · obtain ⟨found, hfound, -, -, hbindings⟩ := define_evolves s f name v g old hold
    rw [hnew] at hfound
    cases hfound
    rw [hbindings]
    by_cases hfg : f = g
    · exact .inr (by simpa [hfg] using hwrites)
    · exact .inl fun heq => hfg (Option.some.inj heq)

/-- Whatever operations have led to the frames: once a frame has been captured, every name keeps the
values that it has then for the frame and for its ancestors, with or without the frames around
them, whatever operations follow.  A binding gives the name its value in the frame that holds it,
which is the frame itself if it is not captured.  All other names keep their values, from there and
from every frame. -/
theorem captured_frames_frozen (hs : Reaches .empty s) (hf : f < s.frames.size) :
    (∀ g s', (s.capture f).Ancestor f g → (s.capture f).Reaches s' → ∀ name,
      s'.lookup g name = (s.capture f).lookup g name ∧
        s'.lookupHere g name = (s.capture f).lookupHere g name) ∧
    ∀ name v,
      (¬ s.Captured f → (s.define f name v).1 = f) ∧
      (∀ other, (s.define f name v).2.lookup (s.define f name v).1 other =
        if name = other then some v else s.lookup f other) ∧
      (∀ other, (s.define f name v).2.lookupHere (s.define f name v).1 other =
        if name = other then some v else s.lookupHere f other) ∧
      ∀ g < s.frames.size, ∀ other, other ≠ name →
        (s.define f name v).2.lookup g other = s.lookup g other ∧
          (s.define f name v).2.lookupHere g other = s.lookupHere g other := by
  have hrooted : s.Rooted := hs.rooted .empty
  obtain ⟨hcapture, hcaptured⟩ := hrooted.capture hf
  refine ⟨fun g s' hg hs' name => ?_, fun name v => ⟨fun hfree => ?_, fun other => ?_,
    lookupHere_define hf name v, fun g hg other hother => ⟨?_, ?_⟩⟩⟩
  · have hg' := hcaptured.ancestor hcapture.upward hg
    exact ⟨hs'.lookup_eq hcapture hg' name, hs'.lookupHere_eq hg' name⟩
  · exact define_fst_of_not_captured hfree name v
  · obtain ⟨n, hchain⟩ := hrooted.chain f hf
    exact hchain.lookup_define name v other
  · obtain ⟨n, hchain⟩ := hrooted.chain g hg
    exact hchain.lookup_congr (define_evolves s f name v) other
      fun _ _ _ hold hnew => find?_of_define hold hnew hother
  · have hframe : s.frames[g]? = some s.frames[g] := Array.getElem?_eq_getElem hg
    obtain ⟨new, hnew, -⟩ := define_evolves s f name v g _ hframe
    simp only [lookupHere, hframe, hnew, find?_of_define hframe hnew hother]

/-- A root and a frame below it: once the lower frame has been captured, a binding in the root does
not show in the root. -/
theorem captured_frames_frozen_root :
    let s := ((Scopes.empty.addRoot.2.define 0 "x" (.int 1)).2.addChild 0).2
    Reaches .empty s ∧ 1 < s.frames.size ∧ (s.capture 1).lookup 0 "x" = some (.int 1) ∧
      ∀ name,
        ((s.capture 1).define 0 "x" (.int 2)).2.lookup 0 name = (s.capture 1).lookup 0 name := by
  intro s
  have hroot : Reaches .empty Scopes.empty.addRoot.2 := .step .addRoot .refl nofun
  have hbound : Reaches .empty (Scopes.empty.addRoot.2.define 0 "x" (.int 1)).2 :=
    .step (.define 0 "x" (.int 1)) hroot (by rintro _ ⟨⟩; decide)
  have hs : Reaches .empty s := .step (.addChild 0) hbound (by rintro _ ⟨⟩; decide)
  have hf : 1 < s.frames.size := by decide
  have habove : (s.capture 1).Ancestor 1 0 := .single ⟨⟨[], some 0, true⟩, rfl, rfl⟩
  have hlater : (s.capture 1).Reaches ((s.capture 1).define 0 "x" (.int 2)).2 :=
    .step (.define 0 "x" (.int 2)) .refl (by rintro _ ⟨⟩; decide)
  exact ⟨hs, hf, rfl, fun name => ((captured_frames_frozen hs hf).1 0 _ habove hlater name).1⟩

end Scopes

end SnapshotScript
