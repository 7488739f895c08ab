/-!
# Actions in a mirror

A mirror turns the states and the errors of actions of one kind into those of another kind.  An
action shows as another one if it does not matter whether one looks into the mirror before or after
it: from the mirrored state the other action has the mirrored outcome.  This passes on from the
parts of an action to the whole.
-/

namespace SnapshotScript

/-- How the states and errors of actions look in a mirror. -/
structure Mirror (ε σ ε' σ' : Type) where
  state : σ → σ'
  error : ε → ε'

namespace Mirror

variable {ε σ ε' σ' α α' β β' : Type} {M : Mirror ε σ ε' σ'}

/-- The mirrored outcome.  Results are mirrored by `f`. -/
def outcome (M : Mirror ε σ ε' σ') (f : α → α') :
    EStateM.Result ε σ α → EStateM.Result ε' σ' α'
  | .ok a s => .ok (f a) (M.state s)
  | .error e s => .error (M.error e) (M.state s)

/-- The mirror that changes states only. -/
def onStates (f : σ → σ') : Mirror ε σ ε σ' :=
  ⟨f, id⟩

/-- In the mirror, the action `x` looks like `y`. -/
def Shows (M : Mirror ε σ ε' σ') (f : α → α') (x : EStateM ε σ α) (y : EStateM ε' σ' α') : Prop :=
  ∀ s, y (M.state s) = M.outcome f (x s)

namespace Shows

variable {f : α → α'} {g : β → β'} {x : EStateM ε σ α} {y : EStateM ε' σ' α'}

theorem pure {a : α} {a' : α'} (h : a' = f a) : M.Shows f (Pure.pure a) (Pure.pure a') := by
  intro s
  rw [h]
  rfl

theorem throw {e : ε} {e' : ε'} (h : e' = M.error e) :
    M.Shows f (MonadExcept.throw e) (MonadExcept.throw e') := by
  intro s
  rw [h]
  rfl

/-- What comes from one action after another comes from their images one after another. -/
theorem bind {k : α → EStateM ε σ β} {k' : α' → EStateM ε' σ' β'} (hx : M.Shows f x y)
    (hk : ∀ a, M.Shows g (k a) (k' (f a))) : M.Shows g (x >>= k) (y >>= k') := by
  intro s
  change EStateM.bind y k' (M.state s) = M.outcome g (EStateM.bind x k s)
  unfold EStateM.bind
  rw [hx s]
  cases x s with
  | ok a t => exact hk a t
  | error e t => rfl

theorem seqRight {x' : EStateM ε σ β} {y' : EStateM ε' σ' β'} (hx : M.Shows f x y)
    (hx' : M.Shows g x' y') : M.Shows g (x *> x') (y *> y') := by
  intro s
  change EStateM.seqRight y (fun _ => y') (M.state s) =
    M.outcome g (EStateM.seqRight x (fun _ => x') s)
  unfold EStateM.seqRight
  rw [hx s]
  cases x s with
  | ok a t => exact hx' t
  | error e t => rfl

theorem get :
    M.Shows M.state (MonadState.get : EStateM ε σ σ) (MonadState.get : EStateM ε' σ' σ') :=
  fun _ => rfl

end Shows

/-- A change of the state shows as the change of its image. -/
theorem shows_modify {change : σ → σ} {change' : σ' → σ'}
    (h : ∀ s, change' (M.state s) = M.state (change s)) :
    M.Shows id (modify change : EStateM ε σ PUnit) (modify change') := by
  intro s
  change EStateM.Result.ok _ (change' (M.state s)) = EStateM.Result.ok _ (M.state (change s))
  rw [h s]

/-- A change of the state shows as the change of its image, and its result as the image of the
result. -/
theorem shows_modifyGet {f : α → α'} {change : σ → α × σ} {change' : σ' → α' × σ'}
    (h : ∀ s, change' (M.state s) = (f (change s).1, M.state (change s).2)) :
    M.Shows f (modifyGet change : EStateM ε σ α) (modifyGet change') := by
  intro s
  change EStateM.Result.ok (change' (M.state s)).1 (change' (M.state s)).2 =
    EStateM.Result.ok (f (change s).1) (M.state (change s).2)
  rw [h s]

end Mirror

end SnapshotScript
