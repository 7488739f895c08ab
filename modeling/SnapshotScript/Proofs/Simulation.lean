import Mathlib.Data.List.Forall2
import Mathlib.Order.Defs.PartialOrder
import SnapshotScript.Interpreter
import SnapshotScript.Proofs.Places
import SnapshotScript.Proofs.Results
import SnapshotScript.Tree.Children

/-!
# Runs in step

Two kinds of states may hold what a run needs in different ways, and still every program does the
same with them.  A `Link` tells which states, and which places of functions, correspond to each
other, and `Link.Lawful` asks that each operation of `Runtime` leads from corresponding states to
corresponding ones.  Then expressions have corresponding outcomes.

What corresponds may become more in the course of a run, but never less.  So a link depends on a
*world*, which grows while the runs go on.  A link can also restrict the expressions and the values
that occur, and then shows that no others ever do.

Where a frame is opened, for a loop or for a call, a new world begins: other expressions may be
evaluated there than outside.  When the frame is left, the world of before goes on.
-/

namespace SnapshotScript

/-! ### Values that correspond -/

namespace Value

variable {κ κ' : Type} {R S : κ → κ' → Prop} {v w : Value κ} {v' w' : Value κ'}

/-- The pairs of places that correspond. -/
abbrev Joint (R : κ → κ' → Prop) : Type := {p : κ × κ' // R p.1 p.2}

namespace Joint

/-- The first place of a pair. -/
def left (p : Joint R) : κ := p.1.1

/-- The second place of a pair. -/
def right (p : Joint R) : κ' := p.1.2

end Joint

/-- Two values are the same up to places that correspond: both come from one value with pairs of
places. -/
def Related (R : κ → κ' → Prop) (v : Value κ) (v' : Value κ') : Prop :=
  ∃ u : Value (Joint R), u.map Joint.left = v ∧ u.map Joint.right = v'

namespace Related

/-- Where more places correspond, more values do. -/
theorem mono (hRS : ∀ k k', R k k' → S k k') (h : Related R v v') : Related S v v' := by
  obtain ⟨u, rfl, rfl⟩ := h
  exact ⟨u.map fun p => ⟨p.1, hRS _ _ p.2⟩, Value.map_map _ _ u, Value.map_map _ _ u⟩

theorem truthy (h : Related R v v') : v.truthy = v'.truthy := by
  obtain ⟨u, rfl, rfl⟩ := h
  simp

theorem isNumber (h : Related R v v') : v.isNumber = v'.isNumber := by
  obtain ⟨u, rfl, rfl⟩ := h
  simp

theorem typeName (h : Related R v v') : v.typeName = v'.typeName := by
  obtain ⟨u, rfl, rfl⟩ := h
  simp

theorem compareNumbers? (h : Related R v v') (hw : Related R w w') :
    v.compareNumbers? w = v'.compareNumbers? w' := by
  obtain ⟨u, rfl, rfl⟩ := h
  obtain ⟨t, rfl, rfl⟩ := hw
  simp

theorem stepDirection (h : Related R v v') :
    Operator.stepDirection v = Operator.stepDirection v' := by
  obtain ⟨u, rfl, rfl⟩ := h
  simp

/-- A value that corresponds to a function is the same function in a place that corresponds. -/
theorem function {f : Function κ} (h : Related R (.function f) v') :
    ∃ k, R f.closure k ∧ v' = .function ⟨f.id, f.name, f.parameters, f.body, k⟩ := by
  obtain ⟨u, hu, rfl⟩ := h
  cases u with
  | function g =>
    cases hu
    exact ⟨_, g.closure.2, rfl⟩
  | _ => cases hu

end Related

/-- The value is a function that keeps the place. -/
def Keeps (v : Value κ) (k : κ) : Prop :=
  ∃ f : Function κ, v = .function f ∧ f.closure = k

/-- A value corresponds to the same value in another place, if the places do. -/
theorem related_map {g : κ → κ'} (h : ∀ k, v.Keeps k → R k (g k)) : Related R v (v.map g) := by
  cases v with
  | function f =>
    have hplace : R f.closure (g f.closure) := h f.closure ⟨f, rfl, rfl⟩
    exact ⟨.function ⟨f.id, f.name, f.parameters, f.body, ⟨⟨_, _⟩, hplace⟩⟩, rfl, rfl⟩
  | int n => exact ⟨.int n, rfl, rfl⟩
  | float x => exact ⟨.float x, rfl, rfl⟩
  | str text => exact ⟨.str text, rfl, rfl⟩
  | bool b => exact ⟨.bool b, rfl, rfl⟩
  | null => exact ⟨.null, rfl, rfl⟩
  | structType type => exact ⟨.structType type, rfl, rfl⟩
  | object type cell => exact ⟨.object type cell, rfl, rfl⟩
  | builtin b => exact ⟨.builtin b, rfl, rfl⟩

/-- The place that a value keeps decides what is put in its place. -/
theorem map_congr {g g' : κ → κ'} (h : ∀ k, v.Keeps k → g k = g' k) : v.map g = v.map g' := by
  cases v with
  | function f =>
    have hplace : g f.closure = g' f.closure := h f.closure ⟨f, rfl, rfl⟩
    simp only [Value.map, Function.map, hplace]
  | _ => rfl

/-- Pairs that each come from one element come from the elements of one list. -/
theorem exists_map_of_forall₂ {α β γ : Type} {f : α → β} {g : α → γ} {bs : List β} {cs : List γ}
    (h : List.Forall₂ (fun b c => ∃ a, f a = b ∧ g a = c) bs cs) :
    ∃ as : List α, as.map f = bs ∧ as.map g = cs := by
  induction h with
  | nil => exact ⟨[], rfl, rfl⟩
  | cons hhead _ ih =>
    obtain ⟨a, rfl, rfl⟩ := hhead
    obtain ⟨as, rfl, rfl⟩ := ih
    exact ⟨a :: as, rfl, rfl⟩

end Value

/-- The fields of instances correspond. -/
def Cells.Related {κ κ' : Type} (R : κ → κ' → Prop) (cells : Cells κ) (cells' : Cells κ') : Prop :=
  ∃ joint : Cells (Value.Joint R),
    joint.map Value.Joint.left = cells ∧ joint.map Value.Joint.right = cells'

/-- Where more places correspond, more fields do. -/
theorem Cells.Related.mono {κ κ' : Type} {R S : κ → κ' → Prop} {cells : Cells κ}
    {cells' : Cells κ'} (hRS : ∀ k k', R k k' → S k k') (h : Cells.Related R cells cells') :
    Cells.Related S cells cells' := by
  obtain ⟨joint, rfl, rfl⟩ := h
  exact ⟨joint.map fun p => ⟨p.1, hRS _ _ p.2⟩, Cells.map_map _ _ joint, Cells.map_map _ _ joint⟩

/-- Fields correspond to the same fields in other places, if the places that they keep do. -/
theorem Cells.related_map {κ κ' : Type} {R : κ → κ' → Prop} {cells : Cells κ} {g : κ → κ'}
    (h : ∀ values ∈ cells, ∀ v ∈ values, ∀ k, v.Keeps k → R k (g k)) :
    Cells.Related R cells (cells.map g) := by
  have hvalues : List.Forall₂ (fun values values' => ∃ joint : List (Value (Value.Joint R)),
      joint.map (Value.map Value.Joint.left) = values ∧
        joint.map (Value.map Value.Joint.right) = values')
      cells.toList (cells.toList.map (List.map (Value.map g))) := by
    rw [List.forall₂_map_right_iff, List.forall₂_same]
    intro values hvalues
    refine Value.exists_map_of_forall₂ ?_
    rw [List.forall₂_map_right_iff, List.forall₂_same]
    intro v hv
    exact Value.related_map (h values (Array.mem_toList_iff.1 hvalues) v hv)
  obtain ⟨joint, hleft, hright⟩ := Value.exists_map_of_forall₂ hvalues
  refine ⟨joint.toArray, ?_, ?_⟩
  · rw [Cells.map, List.map_toArray, hleft]
  · rw [Cells.map, List.map_toArray, hright, Cells.map, ← List.map_toArray]

namespace Cells.Related

variable {κ κ' : Type} {R : κ → κ' → Prop} {cells : Cells κ} {cells' : Cells κ'}

/-- There are equally many instances. -/
theorem size_eq (h : Cells.Related R cells cells') : cells.size = cells'.size := by
  obtain ⟨joint, rfl, rfl⟩ := h
  simp [Cells.map]

/-- Fields have corresponding values. -/
theorem read (h : Cells.Related R cells cells') (cell : CellId) (i : Nat) :
    Option.Rel (Value.Related R) (cells.getD cell [])[i]? (cells'.getD cell [])[i]? := by
  obtain ⟨joint, rfl, rfl⟩ := h
  have hread : ∀ {κ : Type} (g : Value.Joint R → κ),
      ((Cells.map g joint).getD cell [])[i]? = (joint.getD cell [])[i]?.map (Value.map g) := by
    intro κ g
    simp only [Cells.map, Array.getD_eq_getD_getElem?, Array.getElem?_map]
    cases joint[cell]? with
    | none => simp
    | some values => simp
  rw [hread, hread]
  cases (joint.getD cell [])[i]? with
  | none => exact .none
  | some u => exact .some ⟨u, rfl, rfl⟩

/-- An instance is made with corresponding values. -/
theorem push (h : Cells.Related R cells cells') {values : List (Value κ)}
    {values' : List (Value κ')} (hvalues : List.Forall₂ (Value.Related R) values values') :
    Cells.Related R (cells.push values) (cells'.push values') := by
  obtain ⟨joint, rfl, rfl⟩ := h
  obtain ⟨us, rfl, rfl⟩ := Value.exists_map_of_forall₂ hvalues
  exact ⟨joint.push us, Array.map_push, Array.map_push⟩

/-- A field is given corresponding values. -/
theorem write (h : Cells.Related R cells cells') (cell : CellId) (i : Nat) {v : Value κ}
    {v' : Value κ'} (hv : Value.Related R v v') :
    Cells.Related R (cells.modify cell fun values => values.set i v)
      (cells'.modify cell fun values => values.set i v') := by
  obtain ⟨joint, rfl, rfl⟩ := h
  obtain ⟨u, rfl, rfl⟩ := hv
  have hwrite : ∀ {κ : Type} (g : Value.Joint R → κ),
      Cells.map g (joint.modify cell fun values => values.set i u) =
        (Cells.map g joint).modify cell fun values => values.set i (u.map g) := by
    intro κ g
    refine Array.ext_getElem? fun c => ?_
    simp only [Cells.map, Array.getElem?_map, Array.getElem?_modify]
    split
    · cases joint[c]? <;> simp [List.map_set]
    · rfl
  exact ⟨_, hwrite _, hwrite _⟩

end Cells.Related

/-! ### Links -/

/-- The expression makes a struct type of this name and with these fields.  A definition without a
name makes one of the name to which it is assigned. -/
inductive Expr.Declares : Expr → String → List Field → Prop
  | struct {name fields position} :
    Declares (.struct name fields position) (name.getD "<anonymous>") fields
  | assign {name fields position position'} :
    Declares (.assign name (.struct none fields position) position') name fields

/-- A correspondence between two kinds of states, in each world of type `W`. -/
structure Link (W σ κ σ' κ' : Type) where
  /-- The expressions that may be evaluated. -/
  code : W → Expr → Prop
  states : W → σ → σ' → Prop
  places : W → κ → κ' → Prop
  /-- The values that may occur. -/
  sound : W → Value κ → Prop

namespace Link

variable {W σ κ σ' κ' α α' β β' : Type}

section

variable (L : Link W σ κ σ' κ') (w : W)

/-- Values that correspond and may occur. -/
def values (v : Value κ) (v' : Value κ') : Prop :=
  v.Related (L.places w) v' ∧ L.sound w v

/-- Arguments that correspond. -/
def arguments (a : Supplied κ) (a' : Supplied κ') : Prop :=
  a.name = a'.name ∧ L.values w a.value a'.value ∧ a.position = a'.position

/-- Named values that correspond. -/
def bindings (b : String × Value κ) (b' : String × Value κ') : Prop :=
  b.1 = b'.1 ∧ L.values w b.2 b'.2

/-- What corresponds in one world does so in the other too. -/
def Carries (w' : W) : Prop :=
  ∀ v v', L.values w v v' → L.values w' v v'

/-- Outcomes that correspond: both are results, values of a `return`, the same fault, or missing,
and the states correspond. -/
inductive Outcomes (Q : α → α' → Prop) :
    EStateM.Result (Unwind κ) σ α → EStateM.Result (Unwind κ') σ' α' → Prop
  | ok {a a' s s'} : Q a a' → L.states w s s' → Outcomes Q (.ok a s) (.ok a' s')
  | returned {v v' s s'} : L.values w v v' → L.states w s s' →
    Outcomes Q (.error (.returned v) s) (.error (.returned v') s')
  | failed {e s s'} : L.states w s s' → Outcomes Q (.error (.failed e) s) (.error (.failed e) s')
  | exhausted {s s'} : L.states w s s' → Outcomes Q (.error .exhausted s) (.error .exhausted s')

variable [Preorder W]

/-- From corresponding states, both actions have corresponding outcomes in a later world. -/
def Simulates (Q : W → α → α' → Prop) (x : Action σ κ α) (y : Action σ' κ' α') : Prop :=
  ∀ s s', L.states w s s' → ∃ w', w ≤ w' ∧ L.Outcomes w' (Q w') (x s) (y s')

end

/-- Arguments that correspond come from arguments with pairs of places. -/
theorem exists_joint_arguments {L : Link W σ κ σ' κ'} {w : W} {as : List (Supplied κ)}
    {as' : List (Supplied κ')}
    (h : List.Forall₂ (L.arguments w) as as') :
    ∃ joint : List (Supplied (Value.Joint (L.places w))),
      joint.map (Supplied.map Value.Joint.left) = as ∧
        joint.map (Supplied.map Value.Joint.right) = as' := by
  refine Value.exists_map_of_forall₂ (h.imp ?_)
  rintro ⟨name, v, position⟩ ⟨name', v', position'⟩ ⟨rfl, ⟨⟨u, hu, hu'⟩, -⟩, rfl⟩
  exact ⟨⟨name, u, position⟩, congrArg (Supplied.mk name · position) hu,
    congrArg (Supplied.mk name · position) hu'⟩

variable [Preorder W] {L : Link W σ κ σ' κ'} {w w' : W} {Q : W → α → α' → Prop}
  {R : W → β → β' → Prop} {x : Action σ κ α} {y : Action σ' κ' α'}

/-! ### Actions -/

namespace Simulates

/-- Results that correspond are in step. -/
theorem pure {a : α} {a' : α'} (h : Q w a a') : L.Simulates w Q (Pure.pure a) (Pure.pure a') :=
  fun _ _ hs => ⟨w, le_refl w, .ok h hs⟩

/-- One action after another is in step, each in the world that the one before has left. -/
theorem bind {f : α → Action σ κ β} {g : α' → Action σ' κ' β'} (hx : L.Simulates w Q x y)
    (hf : ∀ w' a a', w ≤ w' → Q w' a a' → L.Simulates w' R (f a) (g a')) :
    L.Simulates w R (x >>= f) (y >>= g) := by
  intro s s' hs
  obtain ⟨w', hle, hout⟩ := hx s s' hs
  change ∃ w', w ≤ w' ∧ L.Outcomes w' (R w') (EStateM.bind x f s) (EStateM.bind y g s')
  unfold EStateM.bind
  generalize x s = r at hout
  generalize y s' = r' at hout
  cases hout with
  | ok ha ht =>
    obtain ⟨w'', hle', hrest⟩ := hf w' _ _ hle ha _ _ ht
    exact ⟨w'', le_trans hle hle', hrest⟩
  | returned hv ht => exact ⟨w', hle, .returned hv ht⟩
  | failed ht => exact ⟨w', hle, .failed ht⟩
  | exhausted ht => exact ⟨w', hle, .exhausted ht⟩

end Simulates

theorem exhausted_simulates :
    L.Simulates w Q (throw .exhausted : Action σ κ α) (throw .exhausted : Action σ' κ' α') :=
  fun _ _ hs => ⟨w, le_refl w, .exhausted hs⟩

/-- Values that correspond are returned in step. -/
theorem returned_simulates {v : Value κ} {v' : Value κ'} (h : L.values w v v') :
    L.Simulates w Q (throw (.returned v) : Action σ κ α)
      (throw (.returned v') : Action σ' κ' α') :=
  fun _ _ hs => ⟨w, le_refl w, .returned h hs⟩

/-- Changes of the states are in step if the changed states correspond in a later world. -/
theorem modify_simulates {change : σ → σ} {change' : σ' → σ'}
    (h : ∀ s s', L.states w s s' → ∃ w', w ≤ w' ∧ L.states w' (change s) (change' s')) :
    L.Simulates w (fun _ _ _ => True) (modify change : Action σ κ PUnit)
      (modify change' : Action σ' κ' PUnit) := by
  intro s s' hs
  obtain ⟨w', hle, ht⟩ := h s s' hs
  exact ⟨w', hle, .ok trivial ht⟩

/-- Changes of the states are in step if the changed states and the results correspond in a later
world. -/
theorem modifyGet_simulates {change : σ → α × σ} {change' : σ' → α' × σ'}
    (h : ∀ s s', L.states w s s' → ∃ w', w ≤ w' ∧ Q w' (change s).1 (change' s').1 ∧
      L.states w' (change s).2 (change' s').2) :
    L.Simulates w Q (modifyGet change : Action σ κ α) (modifyGet change' : Action σ' κ' α') := by
  intro s s' hs
  obtain ⟨w', hle, ha, ht⟩ := h s s' hs
  exact ⟨w', hle, .ok ha ht⟩

/-! ### Lawful links -/

variable [Runtime σ κ] [Runtime σ' κ']

/-- Every operation leads from corresponding states to corresponding ones. -/
structure Lawful (L : Link W σ κ σ' κ') : Prop where
  code_mono {w w' e} : w ≤ w' → L.code w e → L.code w' e
  code_level {w e c} : L.code w e → c ∈ e.level → L.code w c
  places_mono {w w' k k'} : w ≤ w' → L.places w k k' → L.places w' k k'
  sound_mono {w w' v} : w ≤ w' → L.sound w v → L.sound w' v
  sound_plain {w v} : v.Plain → L.sound w v
  sound_struct {w e name fields} (id : Nat) : L.code w e → e.Declares name fields →
    L.sound w (.structType ⟨id, name, fields⟩)
  calls {w s s'} : L.states w s s' → Runtime.calls s = Runtime.calls s'
  cells {w s s'} : L.states w s s' →
    Cells.Related (L.places w) (Runtime.cells s) (Runtime.cells s')
  lookup {w s s'} (name : String) : L.states w s s' →
    Option.Rel (L.values w) (Runtime.lookup s name) (Runtime.lookup s' name)
  lookupHere {w s s'} (name : String) : L.states w s s' →
    Option.Rel (L.values w) (Runtime.lookupHere s name) (Runtime.lookupHere s' name)
  record {w s s'} (e : Event) : L.states w s s' →
    ∃ w', w ≤ w' ∧ L.states w' (Runtime.record e s) (Runtime.record e s')
  define {w s s' v v'} (name : String) : L.states w s s' → L.values w v v' →
    ∃ w', w ≤ w' ∧ L.states w' (Runtime.define name v s) (Runtime.define name v' s')
  freshId {w s s'} : L.states w s s' → (Runtime.freshId s).1 = (Runtime.freshId s').1 ∧
    ∃ w', w ≤ w' ∧ L.states w' (Runtime.freshId s).2 (Runtime.freshId s').2
  /-- A function is made from an expression that may be evaluated, possibly under another name. -/
  makeFunction {w s s' name parameters body position} (name' : Option String) : L.states w s s' →
    L.code w (.function name parameters body position) → ∃ w', w ≤ w' ∧
    L.values w'
      (.function ⟨(Runtime.freshId s).1, name', parameters, body,
        (Runtime.capture (Runtime.freshId s).2).1⟩)
      (.function ⟨(Runtime.freshId s').1, name', parameters, body,
        (Runtime.capture (Runtime.freshId s').2).1⟩) ∧
    L.states w' (Runtime.capture (Runtime.freshId s).2).2 (Runtime.capture (Runtime.freshId s').2).2
  makeObject {w s s' type values values'} : L.states w s s' → L.sound w (.structType type) →
    type.Fits values → List.Forall₂ (L.values w) values values' → ∃ w', w ≤ w' ∧
    L.values w' (Runtime.makeObject type values s).1 (Runtime.makeObject type values' s').1 ∧
    L.states w' (Runtime.makeObject type values s).2 (Runtime.makeObject type values' s').2
  readField {w s s' type cell field i} : L.states w s s' → L.sound w (.object type cell) →
    type.fieldIndex? field = some i → ∃ w', w ≤ w' ∧
    Option.Rel (L.values w') (Runtime.readField cell i s).1 (Runtime.readField cell i s').1 ∧
    L.states w' (Runtime.readField cell i s).2 (Runtime.readField cell i s').2
  writeField {w s s' type cell i f v v'} : L.states w s s' → L.sound w (.object type cell) →
    type.fields[i]? = some f → v.conform? f.tag = some v → L.values w v v' → ∃ w', w ≤ w' ∧
    L.states w' (Runtime.writeField cell i v s) (Runtime.writeField cell i v' s')
  /-- Frames are entered into a world of their own, in which the expressions may be evaluated for
  which the frame is opened, and left for one that comes after the world before. -/
  frame {w s s' e} : L.states w s s' → L.code w e → ∃ w₁, L.Carries w w₁ ∧
    (∀ c ∈ e.opened, L.code w₁ c) ∧
    L.states w₁ (Runtime.enterFrame s) (Runtime.enterFrame s') ∧
    ∀ w₂, w₁ ≤ w₂ → ∀ t t', L.states w₂ t t' → ∃ w₃, w ≤ w₃ ∧ L.Carries w₂ w₃ ∧
      L.states w₃ (Runtime.leaveFrame (Runtime.place s) t)
        (Runtime.leaveFrame (Runtime.place s') t')
  /-- A call begins in a world in which the body of the function may be evaluated. -/
  call {w s s' f f' names names'} (site : Position) : L.states w s s' →
    L.values w (.function f) (.function f') → List.Forall₂ (L.bindings w) names names' →
    ∃ w₁, L.code w₁ f.body ∧
    L.states w₁ (Runtime.enterCall f names site s) (Runtime.enterCall f' names' site s') ∧
    ∀ w₂, w₁ ≤ w₂ → ∀ t t', L.states w₂ t t' → ∃ w₃, w ≤ w₃ ∧ L.Carries w₂ w₃ ∧
      L.states w₃ (Runtime.leaveCall (Runtime.place s) t)
        (Runtime.leaveCall (Runtime.place s') t')

/-- Values that correspond do so in every later world. -/
theorem Lawful.carries (hL : L.Lawful) (h : w ≤ w') : L.Carries w w' :=
  fun _ _ hv => ⟨hv.1.mono fun _ _ => hL.places_mono h, hL.sound_mono h hv.2⟩

/-- Arguments that correspond do so in every later world. -/
theorem Lawful.arguments_mono (hL : L.Lawful) (h : w ≤ w') {as : List (Supplied κ)}
    {as' : List (Supplied κ')} (has : List.Forall₂ (L.arguments w) as as') :
    List.Forall₂ (L.arguments w') as as' :=
  has.imp fun _ _ ha => ⟨ha.1, hL.carries h _ _ ha.2.1, ha.2.2⟩

/-- Plain data corresponds to itself. -/
theorem Lawful.plain (hL : L.Lawful) {u : Value (Value.Joint (L.places w))} (h : u.Plain) :
    L.values w (u.map Value.Joint.left) (u.map Value.Joint.right) :=
  ⟨⟨u, rfl, rfl⟩, hL.sound_plain (by cases u <;> exact h)⟩

namespace Lawful

variable (hL : L.Lawful)

include hL

/-- Faults are the same, with the same active calls. -/
theorem fail (fault : Fault) (position : Position) :
    L.Simulates w Q (Action.fail fault position) (Action.fail fault position) := by
  intro s s' hs
  refine ⟨w, le_refl w, ?_⟩
  unfold Action.fail
  rw [hL.calls hs]
  exact .failed hs

/-- Results that come from one result, or the same fault, are in step. -/
theorem ofExcept {γ : Type} {f : γ → α} {g : γ → α'} (position : Position)
    (result : Except Fault γ) (h : ∀ c, result = .ok c → Q w (f c) (g c)) :
    L.Simulates w Q (Action.ofExcept position (result.map f))
      (Action.ofExcept position (result.map g)) := by
  cases result with
  | ok c => exact Simulates.pure (h c rfl)
  | error fault => exact hL.fail fault position

theorem lookup_simulates (name : String) :
    L.Simulates w (fun w => Option.Rel (L.values w)) (Action.lookup name) (Action.lookup name) :=
  fun _ _ hs => ⟨w, le_refl w, .ok (hL.lookup name hs) hs⟩

theorem lookupHere_simulates (name : String) :
    L.Simulates w (fun w => Option.Rel (L.values w)) (Action.lookupHere name)
      (Action.lookupHere name) :=
  fun _ _ hs => ⟨w, le_refl w, .ok (hL.lookupHere name hs) hs⟩

theorem depth_simulates :
    L.Simulates w (fun _ n n' => n = n') (Action.depth (σ := σ)) (Action.depth (σ := σ')) :=
  fun _ _ hs => ⟨w, le_refl w, .ok (congrArg Array.size (hL.calls hs)) hs⟩

theorem cells_simulates :
    L.Simulates w (fun w => Cells.Related (L.places w)) Action.cells Action.cells :=
  fun _ _ hs => ⟨w, le_refl w, .ok (hL.cells hs) hs⟩

theorem record_simulates (e : Event) :
    L.Simulates w (fun _ _ _ => True) (Action.record (σ := σ) e) (Action.record (σ := σ') e) :=
  modify_simulates fun _ _ hs => hL.record e hs

theorem print_simulates (text : Option String) :
    L.Simulates w (fun _ _ _ => True) (Action.print (σ := σ) text)
      (Action.print (σ := σ') text) := by
  cases text with
  | none => exact .pure trivial
  | some text => exact hL.record_simulates _

theorem define_simulates (name : String) {v : Value κ} {v' : Value κ'} (hv : L.values w v v') :
    L.Simulates w (fun _ _ _ => True) (Action.define (σ := σ) name v)
      (Action.define (σ := σ') name v') := by
  intro s s' hs
  obtain ⟨w', hle, ht⟩ := hL.define name hs hv
  exact ⟨w', hle, .ok trivial ht⟩

theorem defineNamed_simulates (name : Option String) {v : Value κ} {v' : Value κ'}
    (hv : L.values w v v') :
    L.Simulates w (fun _ _ _ => True) (Action.defineNamed (σ := σ) name v)
      (Action.defineNamed (σ := σ') name v') := by
  cases name with
  | none => exact .pure trivial
  | some name => exact hL.define_simulates name hv

theorem freshId_simulates :
    L.Simulates w (fun _ n n' => n = n') (modifyGet Runtime.freshId : Action σ κ Nat)
      (modifyGet Runtime.freshId : Action σ' κ' Nat) :=
  modifyGet_simulates fun _ _ hs => by
    obtain ⟨hid, w', hle, ht⟩ := hL.freshId hs
    exact ⟨w', hle, hid, ht⟩

theorem makeStruct_simulates {e : Expr} {name : String} {fields : List Field}
    (hcode : L.code w e) (hdeclares : e.Declares name fields) :
    L.Simulates w L.values (Action.makeStruct (σ := σ) name fields)
      (Action.makeStruct (σ := σ') name fields) := by
  refine hL.freshId_simulates.bind fun w' id id' hle hid => .pure ?_
  cases hid
  exact ⟨⟨.structType ⟨id, name, fields⟩, rfl, rfl⟩,
    hL.sound_struct id (hL.code_mono hle hcode) hdeclares⟩

theorem makeFunction_simulates {name : Option String} {parameters : List String} {body : Expr}
    {position : Position} (hcode : L.code w (.function name parameters body position))
    (name' : Option String) :
    L.Simulates w L.values (Action.makeFunction (σ := σ) name' parameters body)
      (Action.makeFunction (σ := σ') name' parameters body) := by
  intro s s' hs
  obtain ⟨w', hle, hf, ht⟩ := hL.makeFunction name' hs hcode
  exact ⟨w', hle, .ok hf ht⟩

theorem makeObject_simulates {type : StructType} {values : List (Value κ)}
    {values' : List (Value κ')} (htype : L.sound w (.structType type)) (hfits : type.Fits values)
    (hvalues : List.Forall₂ (L.values w) values values') :
    L.Simulates w L.values (Action.makeObject (σ := σ) type values)
      (Action.makeObject (σ := σ') type values') := by
  have hentry : Event.logged (.constructed type.name values.length) =
      .logged (.constructed type.name values'.length) := by
    rw [hvalues.length_eq]
  unfold Action.makeObject
  rw [hentry]
  refine (hL.record_simulates _).bind fun w' _ _ hle _ => modifyGet_simulates fun _ _ hs => ?_
  exact hL.makeObject hs (hL.sound_mono hle htype) hfits
    (hvalues.imp fun _ _ => hL.carries hle _ _)

/-- What runs in the frame that is opened for an expression is in step, if it is so for the
expressions that run there. -/
theorem inFrame_simulates {e : Expr} {x : Action σ κ (Value κ)} {y : Action σ' κ' (Value κ')}
    (hcode : L.code w e) (hx : ∀ w', L.Carries w w' → (∀ c ∈ e.opened, L.code w' c) →
      L.Simulates w' L.values x y) :
    L.Simulates w L.values (Action.inFrame x) (Action.inFrame y) := by
  intro s s' hs
  obtain ⟨w₁, hcarry, hopened, hstart, hleave⟩ := hL.frame hs hcode
  obtain ⟨w₂, hle, hout⟩ := hx w₁ hcarry hopened _ _ hstart
  unfold Action.inFrame
  generalize x (Runtime.enterFrame s) = r at hout
  generalize y (Runtime.enterFrame s') = r' at hout
  cases hout with
  | ok hv ht =>
    obtain ⟨w₃, hle', hback, ht'⟩ := hleave w₂ hle _ _ ht
    exact ⟨w₃, hle', .ok (hback _ _ hv) ht'⟩
  | returned hv ht =>
    obtain ⟨w₃, hle', hback, ht'⟩ := hleave w₂ hle _ _ ht
    exact ⟨w₃, hle', .returned (hback _ _ hv) ht'⟩
  | failed ht =>
    obtain ⟨w₃, hle', -, ht'⟩ := hleave w₂ hle _ _ ht
    exact ⟨w₃, hle', .failed ht'⟩
  | exhausted ht =>
    obtain ⟨w₃, hle', -, ht'⟩ := hleave w₂ hle _ _ ht
    exact ⟨w₃, hle', .exhausted ht'⟩

/-- The bodies of functions that correspond are in step.  A `return` gives its value to the call. -/
theorem inCall_simulates {f : Function κ} {f' : Function κ'} {names : Bindings κ}
    {names' : Bindings κ'} (site : Position) {x : Action σ κ (Value κ)}
    {y : Action σ' κ' (Value κ')} (hf : L.values w (.function f) (.function f'))
    (hnames : List.Forall₂ (L.bindings w) names names')
    (hx : ∀ w', L.code w' f.body → L.Simulates w' L.values x y) :
    L.Simulates w L.values (Action.inCall f names site x) (Action.inCall f' names' site y) := by
  intro s s' hs
  obtain ⟨w₁, hbody, hstart, hleave⟩ := hL.call site hs hf hnames
  obtain ⟨w₂, hle, hout⟩ := hx w₁ hbody _ _ hstart
  unfold Action.inCall
  generalize x (Runtime.enterCall f names site s) = r at hout
  generalize y (Runtime.enterCall f' names' site s') = r' at hout
  cases hout with
  | ok hv ht =>
    obtain ⟨w₃, hle', hback, ht'⟩ := hleave w₂ hle _ _ ht
    exact ⟨w₃, hle', .ok (hback _ _ hv) ht'⟩
  | returned hv ht =>
    obtain ⟨w₃, hle', hback, ht'⟩ := hleave w₂ hle _ _ ht
    exact ⟨w₃, hle', .ok (hback _ _ hv) ht'⟩
  | failed ht =>
    obtain ⟨w₃, hle', -, ht'⟩ := hleave w₂ hle _ _ ht
    exact ⟨w₃, hle', .failed ht'⟩
  | exhausted ht =>
    obtain ⟨w₃, hle', -, ht'⟩ := hleave w₂ hle _ _ ht
    exact ⟨w₃, hle', .exhausted ht'⟩

/-! ### Operations on values -/

theorem binary_simulates (operator : BinaryOperator) (position : Position) {v u : Value κ}
    {v' u' : Value κ'} (hv : L.values w v v') (hu : L.values w u u') :
    L.Simulates w L.values
      (Action.ofExcept (σ := σ) position (Operator.binary operator v u))
      (Action.ofExcept (σ := σ') position (Operator.binary operator v' u')) := by
  obtain ⟨⟨t, rfl, rfl⟩, -⟩ := hv
  obtain ⟨⟨r, rfl, rfl⟩, -⟩ := hu
  rw [Operator.binary_map, Operator.binary_map]
  exact hL.ofExcept position _ fun c hc => hL.plain (Operator.binary_plain hc)

theorem unary_simulates (operator : UnaryOperator) (position : Position) {v : Value κ}
    {v' : Value κ'} (hv : L.values w v v') :
    L.Simulates w L.values
      (Action.ofExcept (σ := σ) position (Operator.unary operator v))
      (Action.ofExcept (σ := σ') position (Operator.unary operator v')) := by
  obtain ⟨⟨t, rfl, rfl⟩, -⟩ := hv
  rw [Operator.unary_map, Operator.unary_map]
  exact hL.ofExcept position _ fun c hc => hL.plain (Operator.unary_plain hc)

theorem stepDirection_simulates (position : Position) {v : Value κ} {v' : Value κ'}
    (hv : L.values w v v') :
    L.Simulates w (fun _ d d' => d = d')
      (Action.ofExcept (σ := σ) position (Operator.stepDirection v))
      (Action.ofExcept (σ := σ') position (Operator.stepDirection v')) := by
  rw [hv.1.stepDirection]
  cases Operator.stepDirection v' with
  | ok d => exact .pure rfl
  | error fault => exact hL.fail fault position

end Lawful

end Link

end SnapshotScript
