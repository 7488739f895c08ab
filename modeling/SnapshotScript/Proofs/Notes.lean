import SnapshotScript.Proofs.Observer

/-!
# Runs with notes

A run can be observed by notes that are taken beside its state.  The operations of the run do not
see them, so an evaluation that takes none leaves them as they are, and apart from them it is the
ordinary one (`Noted.evaluate_eq`).
-/

namespace SnapshotScript

/-- A state of a run, with what has been noted so far, the last note first. -/
structure Noted (σ ν : Type) where
  state : σ
  notes : List ν

namespace Noted

variable {σ κ ν : Type}

/-- Changes the state. -/
def update (b : Noted σ ν) (s : σ) : Noted σ ν :=
  { b with state := s }

/-- Adds a note. -/
def note (n : ν) (b : Noted σ ν) : Noted σ ν :=
  { b with notes := n :: b.notes }

/-- Notes are taken beside the state, and operations do not see them. -/
def observer : Observer (Noted σ ν) σ κ where
  state := Noted.state
  notice _ s b := b.update s
  state_notice _ _ _ := rfl

variable [Runtime σ κ]

instance : Runtime (Noted σ ν) κ :=
  observer.runtime

/-- Notes may be added to a state. -/
def adding (notes : List ν) :
    (Observer.blind : Observer σ σ κ).Hom (observer : Observer (Noted σ ν) σ κ) where
  map s := ⟨s, notes⟩
  state_map _ := rfl
  notice_map _ _ _ := rfl

/-- An evaluation leaves notes as they are, and does not depend on them. -/
theorem evaluate_eq (limit steps : Nat) (e : Expr) (s : σ) (notes : List ν) :
    evaluate limit steps e (⟨s, notes⟩ : Noted σ ν) =
      (Mirror.onStates fun s => ⟨s, notes⟩).outcome id (evaluate limit steps e s) :=
  (adding notes).evaluate_eq limit steps e s

end Noted

end SnapshotScript
