import SnapshotScript.Proofs.Programs

/-!
# Links that leave functions in their places

A run that is observed holds the same functions, in the same places, as the run itself.  A link
between the two lets no places correspond but equal ones, and so no values but equal ones.  What
remains to be shown of a value is that it may occur.
-/

namespace SnapshotScript

variable {W σ σ' κ : Type}

/-- Only equal values correspond where only equal places do. -/
theorem Value.related_eq {v v' : Value κ} : v.Related Eq v' ↔ v = v' := by
  constructor
  · rintro ⟨u, rfl, rfl⟩
    have hsame : (Joint.left : Joint (Eq : κ → κ → Prop) → κ) = Joint.right :=
      funext fun p => p.2
    rw [hsame]
  · rintro rfl
    have hsame : v.Related Eq (v.map id) := Value.related_map fun _ _ => rfl
    rwa [Value.map_id] at hsame

/-- Fields correspond to themselves. -/
theorem Cells.related_refl (cells : Cells κ) : Cells.Related Eq cells cells := by
  have hsame : Cells.Related Eq cells (cells.map id) := Cells.related_map fun _ _ _ _ _ _ => rfl
  rwa [Cells.map_id] at hsame

namespace Link

/-- Only equal places correspond. -/
def Stationary (L : Link W σ κ σ' κ) : Prop :=
  ∀ w, L.places w = Eq

namespace Stationary

variable {L : Link W σ κ σ' κ} (hL : L.Stationary) {w : W}

include hL

/-- A value corresponds to itself, if it may occur, and to no other one. -/
theorem values_iff {v v' : Value κ} : L.values w v v' ↔ v = v' ∧ L.sound w v := by
  unfold values
  rw [hL w, Value.related_eq]

/-- What may or may not be found is found in both states, if only values that may occur are. -/
theorem rel_self {found : Option (Value κ)} (hfound : ∀ v, found = some v → L.sound w v) :
    Option.Rel (L.values w) found found := by
  cases found with
  | none => exact .none
  | some v => exact .some (hL.values_iff.2 ⟨rfl, hfound v rfl⟩)

/-- Values that correspond are the same ones, and may occur. -/
theorem eq_of_values {vs vs' : List (Value κ)} (h : List.Forall₂ (L.values w) vs vs') :
    vs = vs' ∧ ∀ v ∈ vs, L.sound w v := by
  have hboth : List.Forall₂ (fun v v' => L.sound w v ∧ v = v') vs vs' :=
    h.imp fun _ _ hv => (hL.values_iff.1 hv).symm
  obtain ⟨hsound, hequal⟩ := (List.forall₂_and_left _ _).1 hboth
  rw [List.forall₂_eq_eq_eq] at hequal
  exact ⟨hequal, hsound⟩

/-- Bindings that correspond are the same ones, and their values may occur. -/
theorem eq_of_bindings {names names' : List (String × Value κ)}
    (h : List.Forall₂ (L.bindings w) names names') :
    names = names' ∧ ∀ b ∈ names, L.sound w b.2 := by
  have hboth : List.Forall₂ (fun b b' => L.sound w b.2 ∧ b = b') names names' := by
    refine h.imp fun b b' hb => ?_
    obtain ⟨hvalue, hsound⟩ := hL.values_iff.1 hb.2
    exact ⟨hsound, Prod.ext hb.1 hvalue⟩
  obtain ⟨hsound, hequal⟩ := (List.forall₂_and_left _ _).1 hboth
  rw [List.forall₂_eq_eq_eq] at hequal
  exact ⟨hequal, hsound⟩

/-- Results that correspond are the same ones. -/
theorem eq_of_results {results results' : List (Except Failure (Value κ))}
    (h : List.Forall₂ (L.Results w) results results') : results = results' := by
  induction h with
  | nil => rfl
  | cons hhead _ ih =>
    cases hhead with
    | ok hv => rw [(hL.values_iff.1 hv).1, ih]
    | error e => rw [ih]

end Stationary

end Link

end SnapshotScript
