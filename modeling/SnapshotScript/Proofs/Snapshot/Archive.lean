import SnapshotScript.Proofs.Frames.Capture
import SnapshotScript.Proofs.Simulation
import SnapshotScript.Proofs.Snapshot.Environment

/-!
# Frames that stand for environments

A frame and its ancestors stand for the environment whose maps have the same bindings.  A frame that
has been captured stands for one environment for ever, because neither it nor an ancestor of it is
written to again; an *archive* notes which.  So a function that refers to a captured frame and a
function that holds the environment noted for it see the same names.
-/

namespace SnapshotScript

/-- The environments that captured frames stand for. -/
abbrev Archive := FrameId → Environment → Prop

/-- Names that are bound to values which correspond. -/
def Bindings.Related {κ κ' : Type} (R : κ → κ' → Prop) (bs : Bindings κ) (bs' : Bindings κ') :
    Prop :=
  ∃ joint : Bindings (Value.Joint R),
    joint.map Value.Joint.left = bs ∧ joint.map Value.Joint.right = bs'

namespace Bindings

variable {κ κ' : Type} {R S : κ → κ' → Prop} {bs : Bindings κ} {bs' : Bindings κ'}

theorem Related.nil : Related R [] [] :=
  ⟨[], rfl, rfl⟩

/-- Where more places correspond, more bindings do. -/
theorem Related.mono (hRS : ∀ k k', R k k' → S k k') (h : Related R bs bs') :
    Related S bs bs' := by
  obtain ⟨joint, rfl, rfl⟩ := h
  exact ⟨joint.map fun p => ⟨p.1, hRS _ _ p.2⟩, map_map _ _ joint, map_map _ _ joint⟩

/-- The places that bindings keep decide what is put in their place. -/
theorem map_congr {g g' : κ → κ'} (h : ∀ b ∈ bs, ∀ k, b.2.Keeps k → g k = g' k) :
    bs.map g = bs.map g' := by
  refine List.map_congr_left fun b hb => ?_
  rw [Value.map_congr (h b hb)]

/-- Bindings correspond to the same bindings in other places, if the places that they keep do. -/
theorem related_map {g : κ → κ'} (h : ∀ b ∈ bs, ∀ k, b.2.Keeps k → R k (g k)) :
    Related R bs (bs.map g) := by
  refine Value.exists_map_of_forall₂ ?_
  rw [Bindings.map, List.forall₂_map_right_iff, List.forall₂_same]
  intro b hb
  obtain ⟨u, hleft, hright⟩ := Value.related_map (h b hb)
  exact ⟨(b.1, u), by rw [hleft], by rw [hright]⟩

/-- A name has corresponding values. -/
theorem Related.find? (h : Related R bs bs') (name : String) :
    Option.Rel (Value.Related R) (bs.find? name) (bs'.find? name) := by
  obtain ⟨joint, rfl, rfl⟩ := h
  rw [find?_map, find?_map]
  cases joint.find? name with
  | none => exact .none
  | some u => exact .some ⟨u, rfl, rfl⟩

/-- A name is bound to corresponding values. -/
theorem Related.insert {v : Value κ} {v' : Value κ'} (h : Related R bs bs') (name : String)
    (hv : Value.Related R v v') : Related R (bs.insert name v) (bs'.insert name v') := by
  obtain ⟨joint, rfl, rfl⟩ := h
  obtain ⟨u, rfl, rfl⟩ := hv
  exact ⟨joint.insert name u, (insert_map _ name u joint).symm, (insert_map _ name u joint).symm⟩

end Bindings

namespace Scopes

variable {s s' : Scopes} {f : FrameId} {ρ ρ' : Archive} {maps : List (Bindings Environment)}
  {writable : Option FrameId}

/-! ### Frames and environments -/

/-- A frame stands for the environment with the given maps: they have the same bindings as the frame
and its ancestors. -/
inductive Stands (ρ : Archive) (s : Scopes) : FrameId → List (Bindings Environment) → Prop
  | root {f frame map} : s.frames[f]? = some frame → frame.parent = none →
    Bindings.Related ρ frame.bindings map → Stands ρ s f [map]
  | child {f frame parent map maps} : s.frames[f]? = some frame → frame.parent = some parent →
    parent < f → Bindings.Related ρ frame.bindings map → Stands ρ s parent maps →
    Stands ρ s f (map :: maps)

namespace Stands

/-- A frame that stands for an environment has a chain with a frame for each map. -/
theorem chain (h : Stands ρ s f maps) : s.Chain f maps.length := by
  induction h with
  | root hframe hroot => exact .root hframe hroot
  | child hframe hchild hlt _ _ ih => exact .child hframe hchild hlt ih

/-- A frame that stands for an environment exists. -/
theorem lt_size (h : Stands ρ s f maps) : f < s.frames.size :=
  h.chain.lt_size

/-- An archive may note more. -/
theorem mono (hρ : ∀ f e, ρ f e → ρ' f e) (h : Stands ρ s f maps) : Stands ρ' s f maps := by
  induction h with
  | root hframe hparent hmap => exact .root hframe hparent (hmap.mono hρ)
  | child hframe hparent hlt hmap _ ih => exact .child hframe hparent hlt (hmap.mono hρ) ih

/-- A frame stands for the same environment as long as neither it nor an ancestor is written to: it
is older than the frame that is written to, or captured. -/
theorem evolves (h : Stands ρ s f maps) (hs : s.Evolves writable s')
    (hsafe : ∀ g, writable = some g → f < g ∨ s.Captured f ∧ s.Upward) : Stands ρ s' f maps := by
  induction h with
  | root hframe hroot hmap =>
    obtain ⟨new, hnew, hparent, hbindings⟩ := Spares.frame hsafe hs hframe
    exact .root hnew (hparent.trans hroot) (by rwa [hbindings])
  | child hframe hchild hlt hmap _ ih =>
    obtain ⟨new, hnew, hparent, hbindings⟩ := Spares.frame hsafe hs hframe
    exact .child hnew (hparent.trans hchild) hlt (by rwa [hbindings])
      (ih (Spares.parent hsafe hframe hchild hlt))

/-- Names have corresponding values. -/
theorem lookupWithin (h : Stands ρ s f maps) {count : Nat} (hcount : f < count) (name : String) :
    Option.Rel (Value.Related ρ) (s.lookupWithin count f name) (Environment.find? name maps) := by
  induction h generalizing count with
  | @root f frame map hframe hroot hmap =>
    obtain ⟨count, rfl⟩ := Nat.exists_eq_add_one_of_ne_zero (Nat.ne_zero_of_lt hcount)
    have hfind := hmap.find? name
    simp only [Scopes.lookupWithin, hframe, hroot, Environment.find?]
    cases hl : frame.bindings.find? name <;> cases hr : map.find? name <;>
      simp only [hl, hr] at hfind ⊢
    all_goals exact hfind
  | @child f frame parent map maps hframe hchild hlt hmap _ ih =>
    obtain ⟨count, rfl⟩ := Nat.exists_eq_add_one_of_ne_zero (Nat.ne_zero_of_lt hcount)
    have hfind := hmap.find? name
    simp only [Scopes.lookupWithin, hframe, hchild, Environment.find?]
    cases hl : frame.bindings.find? name <;> cases hr : map.find? name <;>
      simp only [hl, hr] at hfind ⊢
    · exact ih (Nat.lt_of_lt_of_le hlt (Nat.le_of_lt_succ hcount))
    · cases hfind
    · cases hfind
    · exact hfind

/-- Names have corresponding values. -/
theorem lookup (h : Stands ρ s f maps) (name : String) :
    Option.Rel (Value.Related ρ) (s.lookup f name) (Environment.find? name maps) :=
  h.lookupWithin h.lt_size name

/-- Names have corresponding values in the innermost frame and the innermost map. -/
theorem lookupHere (h : Stands ρ s f maps) (name : String) :
    Option.Rel (Value.Related ρ) (s.lookupHere f name) ((maps.headD []).find? name) := by
  unfold Scopes.lookupHere
  cases h with
  | root hframe _ hmap =>
    rw [hframe]
    exact hmap.find? name
  | child hframe _ _ hmap _ =>
    rw [hframe]
    exact hmap.find? name

/-- An empty frame below another stands for an environment with an empty map inside. -/
theorem addChild (h : Stands ρ s f maps) :
    Stands ρ (s.addChild f).2 (s.addChild f).1 ([] :: maps) := by
  have hframe : (s.addChild f).2.frames[s.frames.size]? = some ⟨[], some f, false⟩ := by
    simp [Scopes.addChild, push_frames]
  exact .child hframe rfl h.lt_size .nil (h.evolves (push_evolves s _) (by simp))

/-- The frame that holds a new binding stands for the environment with that binding. -/
theorem define (h : Stands ρ s f maps) (name : String) {v : Value}
    {v' : Value Environment} (hv : Value.Related ρ v v') :
    Stands ρ (s.define f name v).2 (s.define f name v).1
      ((maps.headD []).insert name v' :: maps.tail) := by
  have hlater : f ≤ (s.define f name v).1 := by
    rcases define_fst s f name v with heq | heq
    · exact Nat.le_of_eq heq.symm
    · exact Nat.le_trans (Nat.le_of_lt h.lt_size) (Nat.le_of_eq heq.symm)
  cases h with
  | root hframe hroot hmap =>
    exact .root (define_frame hframe name v) hroot (hmap.insert name hv)
  | child hframe hchild hlt hmap hparent =>
    refine .child (define_frame hframe name v) hchild (Nat.lt_of_lt_of_le hlt hlater)
      (hmap.insert name hv) (hparent.evolves (define_evolves s f name v) ?_)
    rintro g ⟨⟩
    exact .inl hlt

/-- Several bindings in a frame are those in the innermost map. -/
theorem defineAll {map : Bindings Environment} (h : Stands ρ s f (map :: maps))
    {bs : Bindings} {bs' : Bindings Environment}
    (hbs : List.Forall₂ (fun b b' => b.1 = b'.1 ∧ Value.Related ρ b.2 b'.2) bs bs') :
    Stands ρ (s.defineAll f bs).2 (s.defineAll f bs).1
      (bs'.foldl (fun map b => map.insert b.1 b.2) map :: maps) := by
  induction hbs generalizing s f map with
  | nil => exact h
  | @cons b b' bs bs' hb _ ih =>
    obtain ⟨name, v⟩ := b
    obtain ⟨name', v'⟩ := b'
    obtain ⟨rfl, hv⟩ := hb
    exact ih (h.define name hv)

end Stands

end Scopes

end SnapshotScript
