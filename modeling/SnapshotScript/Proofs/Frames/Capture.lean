import Mathlib.Order.Defs.PartialOrder
import SnapshotScript.Proofs.Frames

/-!
# Captured frames

From each frame a chain leads over the parents up to a frame without one.  To capture a frame is to
mark the frames of its chain, up to one that is marked already.  It suffices to stop there because
with a frame its parent is captured too (`Scopes.Upward`), which every operation keeps.

What is looked up from a frame is found in its chain.  So it stays the same as long as no frame of
the chain is written to, whatever other frames there are.
-/

namespace SnapshotScript

namespace Scopes

variable {s s' : Scopes} {f g : FrameId} {writable : Option FrameId} {n : Nat}

/-! ### Captured frames -/

/-- The frame has been captured. -/
def Captured (s : Scopes) (f : FrameId) : Prop :=
  ∃ frame, s.frames[f]? = some frame ∧ frame.captured = true

/-- With a frame its parent is captured too. -/
def Upward (s : Scopes) : Prop :=
  ∀ (f : FrameId) (frame : Frame) (parent : FrameId), s.frames[f]? = some frame →
    frame.captured = true → frame.parent = some parent → s.Captured parent

/-- A captured frame stays captured. -/
theorem Captured.evolves (h : s.Captured f) (hs : s.Evolves writable s') : s'.Captured f := by
  obtain ⟨frame, hframe, hcaptured⟩ := h
  exact ⟨frame, hs.frozen hframe hcaptured, hcaptured⟩

/-- Where no frame is captured anew, ancestors of captured frames stay captured. -/
theorem Upward.evolves (h : s.Upward) (hs : s.Evolves writable s')
    (hold : ∀ g, s'.Captured g → s.Captured g) : s'.Upward := by
  intro f frame parent hframe hcaptured hparent
  obtain ⟨old, hold', hcaptured'⟩ := hold f ⟨frame, hframe, hcaptured⟩
  have hsame : s'.frames[f]? = some old := hs.frozen hold' hcaptured'
  rw [hframe] at hsame
  cases hsame
  exact (h f frame parent hold' hcaptured' hparent).evolves hs

/-- A new frame that is not captured leaves the captured ones as they are. -/
theorem captured_of_push {frame : Frame} (hnew : frame.captured = false) {g : FrameId}
    (h : (s.push frame).2.Captured g) : s.Captured g := by
  obtain ⟨found, hfound, hcaptured⟩ := h
  rw [push_frames] at hfound
  split at hfound
  · cases hfound
    simp [hnew] at hcaptured
  · exact ⟨found, hfound, hcaptured⟩

/-- A binding goes into a copy of the frame if the frame is captured, and into the frame itself if
it is not. -/
theorem define_cases (s : Scopes) (f : FrameId) (name : String) (v : Value) :
    s.define f name v = (f, s) ∨
      ∃ frame, s.frames[f]? = some frame ∧
        (s.define f name v =
            s.push { frame with bindings := frame.bindings.insert name v, captured := false } ∨
          frame.captured = false ∧
            s.define f name v = (f, ⟨s.frames.modify f fun frame =>
              { frame with bindings := frame.bindings.insert name v }⟩)) := by
  unfold define
  cases hframe : s.frames[f]? with
  | none => exact .inl rfl
  | some frame =>
    refine .inr ⟨frame, rfl, ?_⟩
    cases hcaptured : frame.captured with
    | true => exact .inl (by simp [hcaptured])
    | false => exact .inr ⟨rfl, by simp [hcaptured]⟩

/-- A binding captures no frame. -/
theorem captured_of_define {name : String} {v : Value} {g : FrameId}
    (h : (s.define f name v).2.Captured g) : s.Captured g := by
  rcases define_cases s f name v with hsame | ⟨frame, hframe, hpush | ⟨-, hmodify⟩⟩
  · rwa [hsame] at h
  · rw [hpush] at h
    exact captured_of_push rfl h
  · rw [hmodify] at h
    obtain ⟨found, hfound, hcaptured⟩ := h
    rw [Array.getElem?_modify] at hfound
    split at hfound
    · next heq =>
      subst heq
      rw [hframe] at hfound
      cases hfound
      exact ⟨frame, hframe, hcaptured⟩
    · exact ⟨found, hfound, hcaptured⟩

/-- Bindings capture no frame. -/
theorem captured_of_defineAll {bs : Bindings} {g : FrameId}
    (h : (s.defineAll f bs).2.Captured g) : s.Captured g := by
  induction bs generalizing s f with
  | nil => exact h
  | cons b bs ih => exact captured_of_define (ih h)

/-! ### Frames that are not written to -/

/-- If a frame is written to at all, it is neither this one nor an ancestor of it: this one is
older, or captured. -/
def Spares (s : Scopes) (writable : Option FrameId) (f : FrameId) : Prop :=
  ∀ g, writable = some g → f < g ∨ s.Captured f ∧ s.Upward

namespace Spares

/-- The frame keeps its parent and its bindings. -/
theorem frame {frame : Frame} (h : s.Spares writable f) (hs : s.Evolves writable s')
    (hframe : s.frames[f]? = some frame) :
    ∃ new, s'.frames[f]? = some new ∧ new.parent = frame.parent ∧
      new.bindings = frame.bindings := by
  obtain ⟨new, hnew, hparent, -, hbindings⟩ := hs f frame hframe
  refine ⟨new, hnew, hparent, hbindings ?_⟩
  by_cases hw : writable = some f
  · rcases h f hw with hlt | ⟨⟨frame', hframe', hcaptured⟩, -⟩
    · exact absurd hlt (Nat.lt_irrefl f)
    · rw [hframe] at hframe'
      cases hframe'
      exact .inr hcaptured
  · exact .inl hw

/-- If a frame is spared, then its parent is not written to either. -/
theorem parent {frame : Frame} {parent : FrameId} (h : s.Spares writable f)
    (hframe : s.frames[f]? = some frame) (hchild : frame.parent = some parent)
    (hlt : parent < f) : s.Spares writable parent := by
  intro g hg
  rcases h g hg with hlt' | ⟨⟨frame', hframe', hcaptured⟩, hup⟩
  · exact .inl (Nat.lt_trans hlt hlt')
  · rw [hframe] at hframe'
    cases hframe'
    exact .inr ⟨hup f frame parent hframe hcaptured hchild, hup⟩

end Spares

/-! ### Chains -/

/-- The chain of a frame: the frame itself, its parent, and so on up to a frame without a parent.
These are `n` frames, each of which is younger than the next one. -/
inductive Chain (s : Scopes) : FrameId → Nat → Prop
  | root {f frame} : s.frames[f]? = some frame → frame.parent = none → Chain s f 1
  | child {f frame parent n} : s.frames[f]? = some frame → frame.parent = some parent →
    parent < f → Chain s parent n → Chain s f (n + 1)

namespace Chain

/-- A frame with a chain exists. -/
theorem exists_frame (h : s.Chain f n) : ∃ frame, s.frames[f]? = some frame := by
  cases h with
  | root hframe => exact ⟨_, hframe⟩
  | child hframe => exact ⟨_, hframe⟩

/-- A frame with a chain exists. -/
theorem lt_size (h : s.Chain f n) : f < s.frames.size := by
  obtain ⟨frame, hframe⟩ := h.exists_frame
  exact (Array.getElem?_eq_some_iff.1 hframe).1

/-- A chain consists of different frames. -/
theorem le_succ (h : s.Chain f n) : n ≤ f + 1 := by
  induction h with
  | root => exact Nat.le_add_left 1 _
  | child _ _ hlt _ ih => exact Nat.succ_le_succ (Nat.le_trans ih hlt)

/-- Frames keep their parents, and so their chains. -/
theorem evolves (h : s.Chain f n) (hs : s.Evolves writable s') : s'.Chain f n := by
  induction h with
  | root hframe hroot =>
    obtain ⟨new, hnew, hparent, -⟩ := hs _ _ hframe
    exact .root hnew (hparent.trans hroot)
  | child hframe hchild hlt _ ih =>
    obtain ⟨new, hnew, hparent, -⟩ := hs _ _ hframe
    exact .child hnew (hparent.trans hchild) hlt ih

/-- A frame below another has a chain with one frame more. -/
theorem addChild (h : s.Chain f n) : (s.addChild f).2.Chain (s.addChild f).1 (n + 1) := by
  have hframe : (s.addChild f).2.frames[s.frames.size]? = some ⟨[], some f, false⟩ := by
    simp [Scopes.addChild, push_frames]
  exact .child hframe rfl h.lt_size (h.evolves (push_evolves s _))

/-- The frame that holds a new binding has a chain like that of the frame in which the name was
bound. -/
theorem define (h : s.Chain f n) (name : String) (v : Value) :
    (s.define f name v).2.Chain (s.define f name v).1 n := by
  have hlater : f ≤ (s.define f name v).1 := by
    rcases define_fst s f name v with heq | heq
    · exact Nat.le_of_eq heq.symm
    · exact Nat.le_trans (Nat.le_of_lt h.lt_size) (Nat.le_of_eq heq.symm)
  cases h with
  | root hframe hroot => exact .root (define_frame hframe name v) hroot
  | child hframe hchild hlt hparent =>
    exact .child (define_frame hframe name v) hchild (Nat.lt_of_lt_of_le hlt hlater)
      (hparent.evolves (define_evolves s f name v))

/-- The frame that holds new bindings has a chain like that of the frame in which the names were
bound. -/
theorem defineAll (h : s.Chain f n) (bs : Bindings) :
    (s.defineAll f bs).2.Chain (s.defineAll f bs).1 n := by
  induction bs generalizing s f with
  | nil => exact h
  | cons b bs ih => exact ih (h.define b.1 b.2)

/-- The parent of a frame with a chain is older. -/
theorem parent_lt (h : s.Chain f n) {frame : Frame} {parent : FrameId}
    (hframe : s.frames[f]? = some frame) (hparent : frame.parent = some parent) : parent < f := by
  cases h with
  | root hframe' hroot =>
    rw [hframe] at hframe'
    cases hframe'
    rw [hroot] at hparent
    cases hparent
  | child hframe' hchild hlt =>
    rw [hframe] at hframe'
    cases hframe'
    rw [hchild] at hparent
    cases hparent
    exact hlt

end Chain

/-- In the course of a run frames keep their chains, and captured ones stay captured. -/
instance : Preorder Scopes where
  le s s' := (∀ f n, s.Chain f n → s'.Chain f n) ∧ ∀ f, s.Captured f → s'.Captured f
  le_refl _ := ⟨fun _ _ => id, fun _ => id⟩
  le_trans _ _ _ h h' :=
    ⟨fun f n hf => h'.1 f n (h.1 f n hf), fun f hf => h'.2 f (h.2 f hf)⟩

/-- Each operation on frames is a part of such a course. -/
theorem Evolves.le (hs : s.Evolves writable s') : s ≤ s' :=
  ⟨fun _ _ h => h.evolves hs, fun _ h => h.evolves hs⟩

/-- To open a frame and to bind names in it is a course of the frames. -/
theorem le_addChild_defineAll (s : Scopes) (f : FrameId) (bs : Bindings) :
    s ≤ ((s.addChild f).2.defineAll (s.addChild f).1 bs).2 := by
  have hchild : s ≤ (s.addChild f).2 := (push_evolves s _).le
  exact le_trans hchild (defineAll_evolves _ _ bs).1.le

/-! ### Names that are looked up from a frame -/

namespace Chain

/-- To find a name it suffices to go through the chain. -/
theorem lookupWithin_eq (h : s.Chain f n) {count count' : Nat} (hcount : n ≤ count)
    (hcount' : n ≤ count') (name : String) :
    s.lookupWithin count f name = s.lookupWithin count' f name := by
  induction h generalizing count count' with
  | root hframe hroot =>
    obtain ⟨count, rfl⟩ := Nat.exists_eq_add_one_of_ne_zero (Nat.ne_zero_of_lt hcount)
    obtain ⟨count', rfl⟩ := Nat.exists_eq_add_one_of_ne_zero (Nat.ne_zero_of_lt hcount')
    simp only [lookupWithin, hframe, hroot]
  | child hframe hchild _ _ ih =>
    obtain ⟨count, rfl⟩ := Nat.exists_eq_add_one_of_ne_zero (Nat.ne_zero_of_lt hcount)
    obtain ⟨count', rfl⟩ := Nat.exists_eq_add_one_of_ne_zero (Nat.ne_zero_of_lt hcount')
    simp only [lookupWithin, hframe, hchild,
      ih (Nat.le_of_succ_le_succ hcount) (Nat.le_of_succ_le_succ hcount')]

/-- A name has the value that it has in the frame itself, and else the one that it has for the
parent. -/
theorem lookup_eq (h : s.Chain f n) {frame : Frame} (hframe : s.frames[f]? = some frame)
    (name : String) :
    s.lookup f name =
      (frame.bindings.find? name).or (frame.parent.bind fun parent => s.lookup parent name) := by
  have hsize := h.lt_size
  obtain ⟨count, hcount⟩ := Nat.exists_eq_add_one_of_ne_zero (Nat.ne_zero_of_lt hsize)
  rw [lookup, hcount, lookupWithin, hframe]
  cases hfound : frame.bindings.find? name with
  | some v => simp [hfound]
  | none =>
    cases h with
    | root hframe' hroot =>
      rw [hframe] at hframe'
      cases hframe'
      simp [hfound, hroot]
    | child hframe' hchild hlt hparent =>
      rw [hframe] at hframe'
      cases hframe'
      have hf : f ≤ count := Nat.le_of_lt_succ (Nat.lt_of_lt_of_eq hsize hcount)
      have hle : _ ≤ count := Nat.le_trans hparent.le_succ (Nat.le_trans hlt hf)
      simp only [hfound, hchild, Option.none_or, Option.bind_some, lookup, hcount]
      exact hparent.lookupWithin_eq hle (Nat.le_succ_of_le hle) name

/-- The names of a frame keep their values if neither the frame nor one of its ancestors is written
to. -/
theorem lookup_evolves (h : s.Chain f n) (hs : s.Evolves writable s') (hsafe : s.Spares writable f)
    (name : String) : s'.lookup f name = s.lookup f name := by
  induction h with
  | @root f frame hframe hroot =>
    obtain ⟨new, hnew, hparent, hbindings⟩ := hsafe.frame hs hframe
    rw [(Chain.root hframe hroot).lookup_eq hframe,
      (Chain.root hnew (hparent.trans hroot)).lookup_eq hnew, hbindings, hparent, hroot]
    rfl
  | @child f frame parent n hframe hchild hlt hchain ih =>
    obtain ⟨new, hnew, hparent, hbindings⟩ := hsafe.frame hs hframe
    have hsame := ih (hsafe.parent hframe hchild hlt)
    have hold : s.Chain f (n + 1) := .child hframe hchild hlt hchain
    rw [hold.lookup_eq hframe, (hold.evolves hs).lookup_eq hnew, hbindings, hparent, hchild]
    simp only [Option.bind_some, hsame]

/-- A name keeps its value if it keeps the one that it has in each frame. -/
theorem lookup_congr (h : s.Chain f n) (hs : s.Evolves writable s') (name : String)
    (hsame : ∀ (g : FrameId) (old new : Frame), s.frames[g]? = some old → s'.frames[g]? = some new →
      new.bindings.find? name = old.bindings.find? name) : s'.lookup f name = s.lookup f name := by
  induction h with
  | @root f frame hframe hroot =>
    obtain ⟨new, hnew, hparent, -⟩ := hs f frame hframe
    rw [(Chain.root hframe hroot).lookup_eq hframe,
      (Chain.root hnew (hparent.trans hroot)).lookup_eq hnew, hsame f frame new hframe hnew,
      hparent, hroot]
    rfl
  | @child f frame parent n hframe hchild hlt hchain ih =>
    obtain ⟨new, hnew, hparent, -⟩ := hs f frame hframe
    have hold : s.Chain f (n + 1) := .child hframe hchild hlt hchain
    rw [hold.lookup_eq hframe, (hold.evolves hs).lookup_eq hnew, hsame f frame new hframe hnew,
      hparent, hchild]
    simp only [Option.bind_some, ih]

end Chain

/-! ### Capturing -/

/-- With a frame its parent is captured too, unless the parent is the frame that is marked next. -/
def UpwardBut (s : Scopes) (next : Option FrameId) : Prop :=
  ∀ (g : FrameId) (frame : Frame) (parent : FrameId), s.frames[g]? = some frame →
    frame.captured = true → frame.parent = some parent → next = some parent ∨ s.Captured parent

/-- A frame that has been marked is captured. -/
theorem mark_captured {frame : Frame} (hframe : s.frames[f]? = some frame) :
    (s.mark f).Captured f := by
  refine ⟨{ frame with captured := true }, ?_, rfl⟩
  simp [mark, Array.getElem?_modify, hframe]

/-- If only the frame that is marked had to be captured still, then only its parent has to be
afterwards. -/
theorem UpwardBut.mark {frame : Frame} (h : s.UpwardBut (some f))
    (hframe : s.frames[f]? = some frame) : (s.mark f).UpwardBut frame.parent := by
  intro g other parent hg hcaptured hparent
  rw [Scopes.mark, Array.getElem?_modify] at hg
  split at hg
  · next heq =>
    subst heq
    rw [hframe] at hg
    cases hg
    exact .inl hparent
  · rcases h g other parent hg hcaptured hparent with heq | hold
    · cases heq
      exact .inr (mark_captured hframe)
    · exact .inr (hold.evolves (mark_evolves s f))

/-- To mark a frame and its ancestors leaves none that has to be captured still. -/
theorem captureWithin_upward (h : s.Chain f n) {count : Nat} (hcount : n ≤ count)
    (hup : s.UpwardBut (some f)) :
    (s.captureWithin count f).Upward ∧ (s.captureWithin count f).Captured f := by
  induction count generalizing s f n with
  | zero => cases h <;> cases hcount
  | succ count ih =>
    obtain ⟨frame, hframe⟩ := h.exists_frame
    cases hcaptured : frame.captured with
    | true =>
      have hf : s.Captured f := ⟨frame, hframe, hcaptured⟩
      have hsame : s.captureWithin (count + 1) f = s := by
        simp [captureWithin, hframe, hcaptured]
      rw [hsame]
      refine ⟨fun g other parent hg hc hparent => ?_, hf⟩
      rcases hup g other parent hg hc hparent with heq | hold
      · cases heq
        exact hf
      · exact hold
    | false =>
      have hmarked := hup.mark hframe
      have hf : (s.mark f).Captured f := mark_captured hframe
      cases h with
      | root hroot hnone =>
        rw [hframe] at hroot
        cases hroot
        have hlast : s.captureWithin (count + 1) f = s.mark f := by
          simp [captureWithin, hframe, hcaptured, hnone, mark]
        rw [hnone] at hmarked
        rw [hlast]
        refine ⟨fun g other parent hg hc hparent => ?_, hf⟩
        exact (hmarked g other parent hg hc hparent).resolve_left nofun
      | @child _ _ above _ hchild habove hlt hparent =>
        rw [hframe] at hchild
        cases hchild
        have hstep : s.captureWithin (count + 1) f = (s.mark f).captureWithin count above := by
          simp [captureWithin, hframe, hcaptured, habove, mark]
        rw [habove] at hmarked
        rw [hstep]
        exact ⟨(ih (hparent.evolves (mark_evolves s f)) (Nat.le_of_succ_le_succ hcount) hmarked).1,
          hf.evolves (captureWithin_evolves (s.mark f) count above)⟩

/-- To capture a frame keeps ancestors of captured frames captured. -/
theorem Chain.capture_upward (h : s.Chain f n) (hup : s.Upward) :
    (s.capture f).Upward ∧ (s.capture f).Captured f :=
  captureWithin_upward h (Nat.le_trans h.le_succ h.lt_size)
    fun g frame parent hframe hcaptured hparent =>
      .inr (hup g frame parent hframe hcaptured hparent)

/-- To capture frames adds none. -/
theorem capture_size (s : Scopes) (f : FrameId) :
    (s.capture f).frames.size = s.frames.size :=
  captureWithin_keeps (P := fun s' => s'.frames.size = s.frames.size)
    (fun _ _ hsize => Array.size_modify.trans hsize) rfl _ f

/-! ### Frames with chains -/

/-- Every frame has a chain, and with a frame its parent is captured too. -/
structure Rooted (s : Scopes) : Prop where
  chain : ∀ f < s.frames.size, ∃ n, s.Chain f n
  upward : s.Upward

namespace Rooted

theorem empty : Scopes.empty.Rooted where
  chain _ hf := absurd hf (Nat.not_lt_zero _)
  upward _ _ _ hframe := by cases hframe

/-- What only changes frames that are there keeps their chains. -/
theorem of_size_eq (h : s.Rooted) (hs : s.Evolves writable s')
    (hsize : s'.frames.size = s.frames.size) (hup : s'.Upward) : s'.Rooted where
  chain f hf := by
    obtain ⟨n, hchain⟩ := h.chain f (hsize ▸ hf)
    exact ⟨n, hchain.evolves hs⟩
  upward := hup

/-- Frames stay rooted if one is added that is not captured, below a frame that is there or without
a parent. -/
theorem push (h : s.Rooted) {frame : Frame} (hnew : frame.captured = false)
    (hparent : ∀ parent, frame.parent = some parent → parent < s.frames.size) :
    (s.push frame).2.Rooted where
  chain f hf := by
    have hpush := push_evolves s frame
    rcases Nat.lt_or_ge f s.frames.size with hlt | hge
    · obtain ⟨n, hchain⟩ := h.chain f hlt
      exact ⟨n, hchain.evolves hpush⟩
    · have hsize : (s.push frame).2.frames.size = s.frames.size + 1 := Array.size_push _
      obtain rfl : f = s.frames.size :=
        Nat.le_antisymm (Nat.le_of_lt_succ (Nat.lt_of_lt_of_eq hf hsize)) hge
      have hframe : (s.push frame).2.frames[s.frames.size]? = some frame := by simp [push_frames]
      cases hp : frame.parent with
      | none => exact ⟨1, .root hframe hp⟩
      | some parent =>
        have hlt := hparent parent hp
        obtain ⟨n, hchain⟩ := h.chain parent hlt
        exact ⟨n + 1, .child hframe hp hlt (hchain.evolves hpush)⟩
  upward := h.upward.evolves (push_evolves s frame) fun _ => captured_of_push hnew

theorem addRoot (h : s.Rooted) : s.addRoot.2.Rooted :=
  h.push rfl nofun

theorem addChild (h : s.Rooted) (hf : f < s.frames.size) : (s.addChild f).2.Rooted :=
  h.push rfl fun _ hparent => Option.some.inj hparent ▸ hf

/-- Frames stay rooted if a name is bound: a copy has the parent of the frame that it is a copy of.
-/
theorem define (h : s.Rooted) (f : FrameId) (name : String) (v : Value) :
    (s.define f name v).2.Rooted := by
  rcases define_cases s f name v with hsame | ⟨frame, hframe, hpush | ⟨-, hmodify⟩⟩
  · rw [hsame]
    exact h
  · have hlt : f < s.frames.size := (Array.getElem?_eq_some_iff.1 hframe).1
    obtain ⟨n, hchain⟩ := h.chain f hlt
    rw [hpush]
    exact h.push rfl fun parent hparent => Nat.lt_trans (hchain.parent_lt hframe hparent) hlt
  · refine h.of_size_eq (define_evolves s f name v) ?_
      (h.upward.evolves (define_evolves s f name v) fun _ => captured_of_define)
    rw [hmodify]
    exact Array.size_modify

/-- A frame is captured together with its ancestors, so frames stay rooted. -/
theorem capture (h : s.Rooted) (hf : f < s.frames.size) :
    (s.capture f).Rooted ∧ (s.capture f).Captured f := by
  obtain ⟨n, hchain⟩ := h.chain f hf
  obtain ⟨hup, hcaptured⟩ := hchain.capture_upward h.upward
  exact ⟨h.of_size_eq (capture_evolves s f) (capture_size s f) hup, hcaptured⟩

end Rooted

end Scopes

end SnapshotScript
