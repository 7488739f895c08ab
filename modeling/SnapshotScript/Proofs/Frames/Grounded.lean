import Mathlib.Logic.Relation
import SnapshotScript.Proofs.Frames.Capture
import SnapshotScript.Proofs.Holdings
import SnapshotScript.Proofs.Snapshot.Unfolding

/-!
# No frame needs itself

A frame needs its parent and the frames that the functions in it keep.  The order in which frames
are made does not tell which of them needs which: an old frame may hold a function that a call has
returned, and then it needs the newer frame of that call.

The order that counts is that of capturing.  Functions keep captured frames only, and so captured
frames need captured frames only.  A frame comes to need another one while it is new or not yet
captured itself, and then the other one is older or captured.  In both cases nothing leads back:
what is older does not need what is new, and what is captured does not need what is not.
-/

namespace SnapshotScript

namespace Scopes

variable {s s' : Scopes} {f g : FrameId} {writable : Option FrameId}

/-- Functions keep captured frames only, and no frame needs itself, directly or through others. -/
structure Grounded (s : Scopes) : Prop extends s.Rooted where
  functions : ∀ (f : FrameId) (frame : Frame), s.frames[f]? = some frame →
    ∀ b ∈ frame.bindings, ∀ g, b.2.Keeps g → s.Captured g
  acyclic : ∀ f, ¬ Relation.TransGen s.Needs f f

/-- Frames need frames that are there. -/
theorem Captured.lt_size (h : s.Captured f) : f < s.frames.size := by
  obtain ⟨frame, hframe, -⟩ := h
  exact (Array.getElem?_eq_some_iff.1 hframe).1

/-! ### New needs -/

/-- No frame comes to need itself if whatever is needed anew is in a set that nothing leads out of,
and is needed by what is not in the set. -/
theorem acyclic_of_new_needs {C : FrameId → Prop} (h : ∀ f, ¬ Relation.TransGen s.Needs f f)
    (hclosed : ∀ x y, s'.Needs x y → C x → C y)
    (hnew : ∀ x y, s'.Needs x y → s.Needs x y ∨ ¬ C x ∧ C y) (f : FrameId) :
    ¬ Relation.TransGen s'.Needs f f := by
  have hstays : ∀ {x y}, Relation.TransGen s'.Needs x y → C x → C y := by
    intro x y hpath hx
    induction hpath with
    | single hneeds => exact hclosed _ _ hneeds hx
    | tail _ hneeds ih => exact hclosed _ _ hneeds ih
  -- a path that does not enter the set has been there before
  have hold : ∀ {x y}, Relation.TransGen s'.Needs x y → C x ∨ ¬ C y →
      Relation.TransGen s.Needs x y := by
    intro x y hpath hside
    induction hpath with
    | single hneeds =>
      rcases hnew _ _ hneeds with hbefore | ⟨hx, hy⟩
      · exact .single hbefore
      · exact absurd hside (by simp [hx, hy])
    | @tail y z hbegin hneeds ih =>
      have hmiddle : C x ∨ ¬ C y := hside.imp id fun hz hy => hz (hclosed _ _ hneeds hy)
      rcases hnew _ _ hneeds with hbefore | ⟨hy, hz⟩
      · exact (ih hmiddle).tail hbefore
      · rcases hside with hx | hz'
        · exact absurd (hstays hbegin hx) hy
        · exact absurd hz hz'
  intro hcycle
  exact h f (hold hcycle (Classical.em (C f)))

namespace Grounded

/-- What a frame needs is there. -/
theorem needed_lt_size (h : s.Grounded) (hneeds : s.Needs f g) : g < s.frames.size := by
  obtain ⟨frame, hframe, hparent | ⟨b, hb, hkeeps⟩⟩ := hneeds
  · have hf : f < s.frames.size := (Array.getElem?_eq_some_iff.1 hframe).1
    obtain ⟨n, hchain⟩ := h.chain f hf
    exact Nat.lt_trans (hchain.parent_lt hframe hparent) hf
  · exact (h.functions f frame hframe b hb g hkeeps).lt_size

/-- Captured frames need captured frames only. -/
theorem needed_captured (h : s.Grounded) (hneeds : s.Needs f g) (hf : s.Captured f) :
    s.Captured g := by
  obtain ⟨frame, hframe, hparent | ⟨b, hb, hkeeps⟩⟩ := hneeds
  · obtain ⟨frame', hframe', hcaptured⟩ := hf
    rw [hframe] at hframe'
    cases hframe'
    exact h.upward f frame g hframe hcaptured hparent
  · exact h.functions f frame hframe b hb g hkeeps

theorem empty : Scopes.empty.Grounded where
  toRooted := .empty
  functions _ _ hframe := by cases hframe
  acyclic f hcycle := by
    obtain ⟨g, ⟨frame, hframe, -⟩, -⟩ := Relation.TransGen.head'_iff.1 hcycle
    cases hframe

/-- Frames stay grounded if one is added that is not captured, below a frame that is there or
without a parent, with functions that keep captured frames. -/
theorem push (h : s.Grounded) {frame : Frame} (hnew : frame.captured = false)
    (hparent : ∀ parent, frame.parent = some parent → parent < s.frames.size)
    (hfunctions : ∀ b ∈ frame.bindings, ∀ g, b.2.Keeps g → s.Captured g) :
    (s.push frame).2.Grounded := by
  have hevolves := push_evolves s frame
  have hrooted := h.toRooted.push hnew hparent
  have hcases : ∀ {x : FrameId} {found : Frame}, (s.push frame).2.frames[x]? = some found →
      x = s.frames.size ∧ found = frame ∨ s.frames[x]? = some found := by
    intro x found hx
    rw [push_frames] at hx
    split at hx
    · next heq =>
      cases hx
      exact .inl ⟨heq, rfl⟩
    · exact .inr hx
  refine ⟨hrooted, fun x found hx b hb g hkeeps => ?_, ?_⟩
  · rcases hcases hx with ⟨-, rfl⟩ | hold
    · exact (hfunctions b hb g hkeeps).evolves hevolves
    · exact (h.functions x found hold b hb g hkeeps).evolves hevolves
  · have hsplit : ∀ x y, (s.push frame).2.Needs x y →
        s.Needs x y ∨ ¬ x < s.frames.size ∧ y < s.frames.size := by
      rintro x y ⟨found, hx, hneeds⟩
      rcases hcases hx with ⟨rfl, rfl⟩ | hold
      · refine .inr ⟨Nat.lt_irrefl _, ?_⟩
        rcases hneeds with hp | ⟨b, hb, hkeeps⟩
        · exact hparent y hp
        · exact (hfunctions b hb y hkeeps).lt_size
      · exact .inl ⟨found, hold, hneeds⟩
    refine acyclic_of_new_needs h.acyclic (fun x y hneeds _ => ?_) hsplit
    rcases hsplit x y hneeds with hold | ⟨-, hy⟩
    · exact h.needed_lt_size hold
    · exact hy

theorem addRoot (h : s.Grounded) : s.addRoot.2.Grounded :=
  h.push rfl nofun (by simp)

theorem addChild (h : s.Grounded) (hf : f < s.frames.size) : (s.addChild f).2.Grounded :=
  h.push rfl (fun _ hparent => Option.some.inj hparent ▸ hf) (by simp)

/-- Frames stay grounded if a frame that is not captured gets other bindings, with functions that
keep captured frames. -/
theorem rebind (h : s.Grounded) {frame : Frame} (hframe : s.frames[f]? = some frame)
    (hfree : frame.captured = false) {change : Frame → Frame}
    (hevolves : s.Evolves writable ⟨s.frames.modify f change⟩)
    (hrooted : Rooted ⟨s.frames.modify f change⟩)
    (hfunctions : ∀ b ∈ (change frame).bindings, ∀ g, b.2.Keeps g → s.Captured g) :
    Grounded ⟨s.frames.modify f change⟩ := by
  have hcases : ∀ {x : FrameId} {found : Frame}, (s.frames.modify f change)[x]? = some found →
      x = f ∧ found = change frame ∨ s.frames[x]? = some found := by
    intro x found hx
    rw [Array.getElem?_modify] at hx
    split at hx
    · next heq =>
      subst heq
      rw [hframe] at hx
      cases hx
      exact .inl ⟨rfl, rfl⟩
    · exact .inr hx
  have hf : ¬ s.Captured f := by
    rintro ⟨frame', hframe', hcaptured⟩
    rw [hframe] at hframe'
    cases hframe'
    simp [hfree] at hcaptured
  refine ⟨hrooted, fun x found hx b hb g hkeeps => ?_, ?_⟩
  · rcases hcases hx with ⟨-, rfl⟩ | hold
    · exact (hfunctions b hb g hkeeps).evolves hevolves
    · exact (h.functions x found hold b hb g hkeeps).evolves hevolves
  · have hsplit : ∀ x y, Needs ⟨s.frames.modify f change⟩ x y →
        s.Needs x y ∨ ¬ s.Captured x ∧ s.Captured y := by
      rintro x y ⟨found, hx, hneeds⟩
      rcases hcases hx with ⟨rfl, rfl⟩ | hold
      · rcases hneeds with hparent | ⟨b, hb, hkeeps⟩
        · obtain ⟨new, hnew, hsame, -⟩ := hevolves x frame hframe
          rw [hx] at hnew
          cases hnew
          exact .inl ⟨frame, hframe, .inl (hsame ▸ hparent)⟩
        · exact .inr ⟨hf, hfunctions b hb y hkeeps⟩
      · exact .inl ⟨found, hold, hneeds⟩
    refine acyclic_of_new_needs h.acyclic (fun x y hneeds hx => ?_) hsplit
    rcases hsplit x y hneeds with hold | ⟨-, hy⟩
    · exact h.needed_captured hold hx
    · exact hy

/-- Frames stay grounded if a value is bound that keeps captured frames only. -/
theorem define (h : s.Grounded) (f : FrameId) (name : String) {v : Value}
    (hv : ∀ g, v.Keeps g → s.Captured g) : (s.define f name v).2.Grounded := by
  have hinsert : ∀ {frame : Frame}, s.frames[f]? = some frame →
      ∀ b ∈ frame.bindings.insert name v, ∀ g, b.2.Keeps g → s.Captured g := by
    intro frame hframe b hb g hkeeps
    rcases mem_insert hb with heq | hold
    · exact hv g (heq ▸ hkeeps)
    · exact h.functions f frame hframe b hold g hkeeps
  have hevolves := define_evolves s f name v
  have hrooted := h.toRooted.define f name v
  rcases define_cases s f name v with hsame | ⟨frame, hframe, hpush | ⟨hfree, hmodify⟩⟩
  · rw [hsame]
    exact h
  · have hlt : f < s.frames.size := (Array.getElem?_eq_some_iff.1 hframe).1
    obtain ⟨n, hchain⟩ := h.chain f hlt
    rw [hpush]
    exact h.push rfl (fun parent hparent => Nat.lt_trans (hchain.parent_lt hframe hparent) hlt)
      (hinsert hframe)
  · rw [hmodify] at hevolves hrooted ⊢
    exact h.rebind hframe hfree hevolves hrooted (hinsert hframe)

/-- Frames stay grounded if values are bound that keep captured frames only. -/
theorem defineAll (h : s.Grounded) (f : FrameId) {bs : Bindings}
    (hbs : ∀ b ∈ bs, ∀ g, b.2.Keeps g → s.Captured g) : (s.defineAll f bs).2.Grounded := by
  induction bs generalizing s f with
  | nil => exact h
  | cons b bs ih =>
    have hfirst := h.define f b.1 (hbs b List.mem_cons_self)
    refine ih hfirst _ fun b' hb' g hkeeps => ?_
    exact (hbs b' (List.mem_cons_of_mem _ hb') g hkeeps).evolves (define_evolves s f b.1 b.2)

/-- Frames stay grounded if some are captured. -/
theorem capture (h : s.Grounded) (hf : f < s.frames.size) : (s.capture f).Grounded := by
  have hevolves := capture_evolves s f
  have hsame : ∀ {x : FrameId} {found : Frame}, (s.capture f).frames[x]? = some found →
      ∃ old : Frame, s.frames[x]? = some old ∧ found.parent = old.parent ∧
        found.bindings = old.bindings := by
    intro x found hx
    have hlt : x < (s.capture f).frames.size := (Array.getElem?_eq_some_iff.1 hx).1
    rw [capture_size] at hlt
    have hold := Array.getElem?_eq_getElem hlt
    obtain ⟨new, hnew, hparent, -, hbindings⟩ := hevolves x _ hold
    rw [hx] at hnew
    cases hnew
    exact ⟨_, hold, hparent, hbindings (.inl (by simp))⟩
  refine ⟨(h.toRooted.capture hf).1, fun x found hx b hb g hkeeps => ?_, fun x hcycle => ?_⟩
  · obtain ⟨old, hold, -, hbindings⟩ := hsame hx
    exact (h.functions x old hold b (hbindings ▸ hb) g hkeeps).evolves hevolves
  · have hneeds : ∀ y z, (s.capture f).Needs y z → s.Needs y z := by
      rintro y z ⟨found, hy, hneeds⟩
      obtain ⟨old, hold, hparent, hbindings⟩ := hsame hy
      exact ⟨old, hold, by rwa [← hparent, ← hbindings]⟩
    exact h.acyclic x (Relation.TransGen.mono hneeds x x hcycle)

end Grounded

end Scopes

end SnapshotScript
