import SnapshotScript.Proofs.Holdings
import SnapshotScript.Proofs.Lockstep

/-!
# Instances match their declaration

The struct with which an instance was made stays its struct.  So the structs of all instances form a
typing of the machine that only grows.  A machine is *typed* if its instances match their structs
and each value that it holds is sound: a struct has distinct field names, a reference to an
instance mentions the struct of the instance, and the body of a function is well formed.  Every
operation of a run leads from typed machines to typed ones.
-/

namespace SnapshotScript

/-- The names of the fields of every struct definition in the expression are distinct. -/
inductive Expr.WellFormed : Expr → Prop
  | node {e : Expr} :
    (∀ name fields position, e = .struct name fields position →
      (fields.map Field.name).Nodup) →
    (∀ c ∈ e.children, Expr.WellFormed c) → Expr.WellFormed e

/-! ### Typed machines -/

/-- The struct of each instance. -/
structure Typing where
  types : Array StructType

/-- Instances keep their structs. -/
instance : Preorder Typing where
  le t t' := ∀ (cell : CellId) (type : StructType), t.types[cell]? = some type →
    t'.types[cell]? = some type
  le_refl _ _ _ := id
  le_trans _ _ _ h h' cell type ht := h' cell type (h cell type ht)

/-- The value may occur where instances have the given structs. -/
def Value.Sound (t : Typing) : Value → Prop
  | .structType type => (type.fields.map Field.name).Nodup
  | .object type cell => t.types[cell]? = some type
  | .function f => f.body.WellFormed
  | _ => True

/-- A value that may occur may still do so when there are more instances. -/
theorem Value.Sound.mono {t t' : Typing} (h : t ≤ t') {v : Value} (hv : v.Sound t) :
    v.Sound t' := by
  cases v with
  | object type cell => exact h cell type hv
  | _ => exact hv

/-- Instances match their structs, and all values that are held may occur. -/
structure Machine.Typed (t : Typing) (m : Machine) : Prop where
  size : m.cells.size = t.types.size
  instances : ∀ (cell : CellId) (values : List Value), m.cells[cell]? = some values →
    ∃ type, t.types[cell]? = some type ∧ (type.fields.map Field.name).Nodup ∧ type.Fits values
  held : ∀ v, m.Holds v → v.Sound t

namespace Machine.Typed

variable {t : Typing} {m m' : Machine}

/-- In a typed machine instances match their declaration. -/
theorem matches_moment (h : m.Typed t) : Moment.Matches ⟨m, t.types⟩ :=
  ⟨h.instances, fun _ _ => h.held _⟩

/-- One of the elements on the right may be replaced by another that fits the one on the left. -/
theorem forall₂_set {α β : Type} {R : α → β → Prop} {as : List α} {bs : List β}
    (h : List.Forall₂ R as bs) {i : Nat} {a : α} {b : β} (ha : as[i]? = some a) (hb : R a b) :
    List.Forall₂ R as (bs.set i b) := by
  induction h generalizing i with
  | nil => cases ha
  | cons hhead htail ih =>
    cases i with
    | zero =>
      cases ha
      exact .cons hb htail
    | succ i => exact .cons hhead (ih ha)

/-- To change frames keeps a machine typed if only values are added that may occur. -/
theorem of_held (h : m.Typed t) (hcells : m'.cells = m.cells)
    (hheld : m'.HoldsOnly (Value.Sound t)) : m'.Typed t where
  size := hcells ▸ h.size
  instances := hcells ▸ h.instances
  held := hheld

/-- Whether a machine is typed is told by its frames and fields. -/
theorem of_eq (h : m.Typed t) (hscopes : m'.scopes = m.scopes) (hcells : m'.cells = m.cells) :
    m'.Typed t :=
  h.of_held hcells (.of_eq h.held hscopes hcells)

/-- To bind a value that may occur keeps a machine typed. -/
theorem define (h : m.Typed t) (name : String) {v : Value} (hv : v.Sound t) :
    (m.define name v).Typed t :=
  h.of_held rfl (.define h.held name hv)

theorem capture (h : m.Typed t) : m.capture.2.Typed t :=
  h.of_held rfl (.capture h.held)

theorem enterFrame (h : m.Typed t) : m.enterFrame.Typed t :=
  h.of_held rfl (.enterFrame h.held)

/-- A call with values that may occur keeps a machine typed. -/
theorem enterCall (h : m.Typed t) (f : Function) (site : Position) {names : Bindings}
    (hnames : ∀ b ∈ names, b.2.Sound t) : (m.enterCall f names site).Typed t :=
  h.of_held rfl (.enterCall h.held f site hnames)

/-- A new instance is typed by its struct, if its values fit the fields and may occur. -/
theorem makeObject (h : m.Typed t) {type : StructType} {values : List Value}
    (hnames : (type.fields.map Field.name).Nodup) (hfits : type.Fits values)
    (hvalues : ∀ v ∈ values, v.Sound t) :
    t ≤ ⟨t.types.push type⟩ ∧ (m.makeObject type values).1.Sound ⟨t.types.push type⟩ ∧
      (m.makeObject type values).2.Typed ⟨t.types.push type⟩ := by
  have hle : t ≤ ⟨t.types.push type⟩ := by
    intro cell other hother
    have hlt : cell < t.types.size := (Array.getElem?_eq_some_iff.1 hother).1
    rw [Array.getElem?_push, if_neg (Nat.ne_of_lt hlt), hother]
  have hnew : (t.types.push type)[m.cells.size]? = some type := by
    rw [h.size, Array.getElem?_push, if_pos rfl]
  have honly : (m.makeObject type values).2.HoldsOnly (Value.Sound t) :=
    .makeObject h.held type hvalues
  refine ⟨hle, hnew, ?_, fun cell held hheld => ?_, honly.mono fun _ hv => hv.mono hle⟩
  · simp [Machine.makeObject, h.size]
  · change (m.cells.push values)[cell]? = some held at hheld
    rw [Array.getElem?_push] at hheld
    split at hheld
    · next heq =>
      cases hheld
      exact ⟨type, heq ▸ hnew, hnames, hfits⟩
    · obtain ⟨other, hother, hmatches⟩ := h.instances cell held hheld
      exact ⟨other, hle cell other hother, hmatches⟩

/-- An access to a declared field is one to a field that the instance has. -/
theorem inRange (h : m.Typed t) {type : StructType} {cell : CellId}
    (hcell : t.types[cell]? = some type) {i : Nat} (hi : i < type.fields.length) :
    Access.InRange ⟨⟨m, t.types⟩, cell, i⟩ := by
  have hlt : cell < m.cells.size := h.size ▸ (Array.getElem?_eq_some_iff.1 hcell).1
  have hvalues := Array.getElem?_eq_getElem hlt
  obtain ⟨type', htype', -, hfits⟩ := h.instances cell _ hvalues
  rw [hcell] at htype'
  cases htype'
  exact ⟨type, _, hcell, hvalues, hi, hfits.length_eq ▸ hi⟩

/-- To write a value that conforms to the field keeps a machine typed. -/
theorem writeField (h : m.Typed t) {type : StructType} {cell : CellId}
    (hcell : t.types[cell]? = some type) {i : Nat} {f : Field} (hf : type.fields[i]? = some f)
    {v : Value} (hconform : v.conform? f.tag = some v) (hv : v.Sound t) :
    (m.writeField cell i v).Typed t := by
  refine ⟨?_, fun c held hheld => ?_, HoldsOnly.writeField h.held cell i hv⟩
  · simpa [Machine.writeField] using h.size
  · obtain ⟨values, hvalues, hheld⟩ := cells_of_writeField hheld
    obtain ⟨type', htype', hnames, hfits⟩ := h.instances c values hvalues
    refine ⟨type', htype', hnames, ?_⟩
    rcases hheld with rfl | ⟨rfl, rfl⟩
    · exact hfits
    · rw [hcell] at htype'
      cases htype'
      exact forall₂_set hfits hf hconform

end Machine.Typed

end SnapshotScript
