import Mathlib.Data.List.Perm.Basic
import Mathlib.Data.List.Perm.Lattice
import Mathlib.Data.Option.Basic
import SnapshotScript.Evaluation
import SnapshotScript.Machine
import SnapshotScript.Proofs.Results

/-!
# Arguments with names

Arguments with names are put into the places of their fields one after another, and an unknown or
repeated name is found on the way, a missing one afterwards.  Which arguments the places hold is
told by the names alone.  So the outcome depends on the order of the declaration, and not on the
order in which the arguments are given.
-/

namespace SnapshotScript

/-- The argument is meant for the field. -/
def Supplied.NamedAfter {κ : Type} (f : Field) (a : Supplied κ) : Prop :=
  a.name = some f.name

/-- The argument as it is given without its name. -/
def Supplied.unnamed {κ : Type} (a : Supplied κ) : Supplied κ :=
  { a with name := none }

/-- The kind of the fault with which a part of a run has ended. -/
def Action.faultKind? {σ κ α : Type} : EStateM.Result (Unwind κ) σ α → Option Fault.Kind
  | .error (.failed e) _ => some e.fault.kind
  | _ => none

/-- What is done in two steps fails in one of them. -/
theorem error_or_of_bind {ε α β : Type} {x : Except ε α} {f : α → Except ε β} {e : ε}
    (h : x >>= f = .error e) : x = .error e ∨ ∃ a, x = .ok a ∧ f a = .error e := by
  cases x with
  | error e' =>
    cases h
    exact .inl rfl
  | ok a => exact .inr ⟨a, rfl, h⟩

namespace StructType

variable {κ : Type} {t : StructType} {done arguments sorted : List (Supplied κ)}
  {position : Position}

/-- The names of the arguments are those of the fields in some order. -/
def NamesFields (t : StructType) (arguments : List (Supplied κ)) : Prop :=
  (arguments.map Supplied.name).Perm (t.fields.map fun f => some f.name)

/-- `a` is the argument for `f`, the first of the fields to which their arguments do not
conform. -/
inductive FirstMisfit (f : Field) (a : Supplied κ) : List Field → List (Supplied κ) → Prop
  | here {fields : List Field} {arguments : List (Supplied κ)} :
    a.value.conform? f.tag = none → FirstMisfit f a (f :: fields) (a :: arguments)
  | later {g : Field} {b : Supplied κ} {v : Value κ} {fields : List Field}
    {arguments : List (Supplied κ)} : b.value.conform? g.tag = some v →
    FirstMisfit f a fields arguments → FirstMisfit f a (g :: fields) (b :: arguments)

/-! ### The places of the fields -/

/-- The argument with the name of a field. -/
def argumentFor (arguments : List (Supplied κ)) (f : Field) : Option (Supplied κ) :=
  arguments.find? fun a => a.name == some f.name

/-- The places of the fields when they hold the given arguments. -/
def seated (t : StructType) (arguments : List (Supplied κ)) : Slots κ :=
  t.fields.map (argumentFor arguments)

theorem mem_of_argumentFor {f : Field} {a : Supplied κ} (h : argumentFor arguments f = some a) :
    a ∈ arguments ∧ a.NamedAfter f :=
  ⟨List.mem_of_find?_eq_some h, by simpa [Supplied.NamedAfter] using List.find?_some h⟩

theorem argumentFor_eq_none_iff {f : Field} :
    argumentFor arguments f = none ↔ some f.name ∉ arguments.map Supplied.name := by
  simp [argumentFor]

/-- Among arguments with distinct names, each is the one for its field. -/
theorem argumentFor_eq_some {f : Field} {a : Supplied κ}
    (hnodup : (arguments.map Supplied.name).Nodup) (ha : a ∈ arguments) (hname : a.NamedAfter f) :
    argumentFor arguments f = some a := by
  cases h : argumentFor arguments f with
  | none =>
    exact absurd (List.mem_map.2 ⟨a, ha, hname⟩) (argumentFor_eq_none_iff.1 h)
  | some b =>
    obtain ⟨hb, hname'⟩ := mem_of_argumentFor h
    rw [List.inj_on_of_nodup_map hnodup hb ha (hname'.trans hname.symm)]

/-- With distinct names, a field is found by its name. -/
theorem fieldIndex?_of_getElem? (hfields : (t.fields.map Field.name).Nodup) {i : Nat} {f : Field}
    (hf : t.fields[i]? = some f) : t.fieldIndex? f.name = some i := by
  obtain ⟨hi, rfl⟩ := List.getElem?_eq_some_iff.1 hf
  refine List.findIdx?_eq_some_iff_getElem.2 ⟨hi, by simp, fun j hj => ?_⟩
  have hne := List.pairwise_iff_getElem.1 (List.pairwise_map.1 hfields) j i
    (Nat.lt_trans hj hi) hi hj
  simpa using hne

/-- A name is unknown if no field has it. -/
theorem fieldIndex?_eq_none_iff {name : String} :
    t.fieldIndex? name = none ↔ name ∉ t.fields.map Field.name := by
  simp [fieldIndex?, List.findIdx?_eq_none_iff]

/-- An argument takes the place of its field. -/
theorem set_seated (hfields : (t.fields.map Field.name).Nodup) {i : Nat} {f : Field}
    {a : Supplied κ} (hf : t.fields[i]? = some f) (ha : a.NamedAfter f)
    (hfree : argumentFor done f = none) :
    (t.seated done).set i (some a) = t.seated (done ++ [a]) := by
  refine List.ext_getElem? fun j => ?_
  rw [seated, seated, List.getElem?_set, List.getElem?_map, List.getElem?_map]
  by_cases hij : i = j
  · subst hij
    have hlt := (List.getElem?_eq_some_iff.1 hf).1
    have hseat : argumentFor (done ++ [a]) f = some a := by
      rw [argumentFor, List.find?_append, show done.find? _ = none from hfree]
      simpa [Supplied.NamedAfter] using ha
    rw [if_pos rfl, List.length_map, if_pos hlt, hf, Option.map_some, hseat]
  · rw [if_neg hij]
    cases hg : t.fields[j]? with
    | none => rfl
    | some g =>
      have hne : a.name ≠ some g.name := by
        intro heq
        have hname : f.name = g.name := Option.some.inj (ha.symm.trans heq)
        have hindex := fieldIndex?_of_getElem? hfields hf
        rw [hname, fieldIndex?_of_getElem? hfields hg] at hindex
        exact hij (Option.some.inj hindex).symm
      simp [argumentFor, List.find?_append, hne]

/-- The places can be filled if each argument names a field, and no two the same one. -/
theorem fillSlots_eq_ok_iff (hfields : (t.fields.map Field.name).Nodup)
    (hnamed : ∀ a ∈ arguments, a.name.isSome) {slots : Slots κ} :
    t.fillSlots arguments (t.seated done) = .ok slots ↔
      (∀ a ∈ arguments, a.name ∈ t.fields.map fun f => some f.name) ∧
        (arguments.map Supplied.name).Nodup ∧
        (done.map Supplied.name).Disjoint (arguments.map Supplied.name) ∧
        slots = t.seated (done ++ arguments) := by
  induction arguments generalizing done with
  | nil => simp [fillSlots, eq_comm]
  | cons a arguments ih =>
    obtain ⟨name, hname⟩ := Option.isSome_iff_exists.1 (hnamed a List.mem_cons_self)
    simp only [fillSlots, hname, Option.getD_some]
    cases hindex : t.fieldIndex? name with
    | none =>
      have hunknown := fieldIndex?_eq_none_iff.1 hindex
      refine iff_of_false (by simp) fun h => hunknown ?_
      simpa [hname] using h.1 a List.mem_cons_self
    | some i =>
      obtain ⟨hi, hf, -⟩ := List.findIdx?_eq_some_iff_getElem.1 hindex
      have hf : t.fields[i].name = name := by simpa using hf
      have hget : t.fields[i]? = some t.fields[i] := List.getElem?_eq_getElem hi
      have ha : a.NamedAfter t.fields[i] := hname.trans (congrArg some hf.symm)
      have hseat : (t.seated done).getD i none = argumentFor done t.fields[i] := by
        simp [seated, List.getD, hget]
      simp only [hseat]
      cases hfree : argumentFor done t.fields[i] with
      | some b =>
        obtain ⟨hb, hname'⟩ := mem_of_argumentFor hfree
        refine iff_of_false (by simp) fun h => ?_
        obtain ⟨-, -, hdisjoint, -⟩ := h
        exact hdisjoint (List.mem_map_of_mem hb) (hname'.trans ha.symm ▸ List.mem_cons_self)
      | none =>
        have hdone : a.name ∉ done.map Supplied.name :=
          ha.symm ▸ argumentFor_eq_none_iff.1 hfree
        have hdeclared : a.name ∈ t.fields.map fun f => some f.name :=
          ha.symm ▸ List.mem_map_of_mem (List.getElem_mem hi)
        rw [set_seated hfields hget ha hfree]
        simp only [Option.isSome_none, Bool.false_eq_true, if_false,
          ih fun b hb => hnamed b (List.mem_cons_of_mem _ hb), List.forall_mem_cons, List.map_cons,
          List.nodup_cons, List.map_append, List.map_nil, List.disjoint_append_left,
          List.singleton_disjoint, List.disjoint_cons_right, List.append_assoc, List.cons_append,
          List.nil_append, hdeclared, true_and]
        tauto

/-- Only names are at fault when the places are filled. -/
theorem kind_of_fillSlots {slots : Slots κ} {misfit : Misfit}
    (h : t.fillSlots arguments slots = .error misfit) : misfit.1.kind = .name := by
  induction arguments generalizing slots with
  | nil => cases h
  | cons a arguments ih =>
    simp only [fillSlots] at h
    split at h
    · cases h
      rfl
    · split at h
      · cases h
        rfl
      · exact ih h

/-- The arguments can be taken out if there is one in each place. -/
theorem emptySlots_eq_ok_iff {fields : List Field} {place : Field → Option (Supplied κ)} :
    t.emptySlots position fields (fields.map place) = .ok arguments ↔
      fields.map place = arguments.map some := by
  induction fields generalizing arguments with
  | nil => cases arguments <;> simp [emptySlots]
  | cons f fields ih =>
    simp only [List.map_cons, emptySlots]
    cases hplace : place f with
    | none => cases arguments <;> simp
    | some a =>
      cases arguments with
      | nil =>
        refine iff_of_false (fun h => ?_) nofun
        obtain ⟨rest, -, h⟩ := exists_ok_of_bind h
        cases h
      | cons b arguments =>
        rw [List.map_cons, List.cons.injEq, ← ih]
        refine ⟨fun h => ?_, fun ⟨heq, h⟩ => ?_⟩
        · obtain ⟨rest, hrest, h⟩ := exists_ok_of_bind h
          cases h
          exact ⟨rfl, hrest⟩
        · cases heq
          change (t.emptySlots position fields (fields.map place) >>= _) = _
          rw [h]
          rfl

/-- Only names are at fault when the arguments are taken out. -/
theorem kind_of_emptySlots {fields : List Field} {slots : Slots κ} {misfit : Misfit}
    (h : t.emptySlots position fields slots = .error misfit) : misfit.1.kind = .name := by
  induction fields generalizing slots with
  | nil => cases h
  | cons f fields ih =>
    rcases slots with _ | ⟨_ | a, slots⟩
    · cases h
    · cases h
      rfl
    · rcases error_or_of_bind h with hrest | ⟨rest, -, h⟩
      · exact ih hrest
      · cases h

/-! ### The order of the declaration -/

/-- Arguments that stand in the order of the fields have their names. -/
theorem map_name_of_forall₂ {fields : List Field}
    (h : List.Forall₂ Supplied.NamedAfter fields sorted) :
    sorted.map Supplied.name = fields.map fun f => some f.name := by
  induction h with
  | nil => rfl
  | cons hname _ ih => rw [List.map_cons, List.map_cons, ih, hname]

/-- Arguments that stand in the order of the fields are those with their names. -/
theorem map_argumentFor_of_forall₂ {fields : List Field}
    (hnodup : (arguments.map Supplied.name).Nodup) (hmem : ∀ a ∈ sorted, a ∈ arguments)
    (h : List.Forall₂ Supplied.NamedAfter fields sorted) :
    fields.map (argumentFor arguments) = sorted.map some := by
  induction h with
  | nil => rfl
  | cons hname _ ih =>
    obtain ⟨hhead, htail⟩ := List.forall_mem_cons.1 hmem
    rw [List.map_cons, List.map_cons, argumentFor_eq_some hnodup hhead hname, ih htail]

/-- The arguments in the places stand in the order of the fields. -/
theorem forall₂_of_map_argumentFor {fields : List Field}
    (h : fields.map (argumentFor arguments) = sorted.map some) :
    List.Forall₂ Supplied.NamedAfter fields sorted := by
  rw [← List.forall₂_eq_eq_eq, List.forall₂_map_left_iff, List.forall₂_map_right_iff] at h
  exact h.imp fun f a ha => (mem_of_argumentFor ha).2

/-- Distinct fields ask for distinct names. -/
theorem nodup_fieldNames (hfields : (t.fields.map Field.name).Nodup) :
    (t.fields.map fun f => some f.name).Nodup := by
  have hsome := hfields.map (Option.some_injective String)
  rwa [List.map_map] at hsome

/-- The arguments in the places are all arguments, if each names a field, and no two the same
one. -/
theorem perm_of_map_argumentFor (hfields : (t.fields.map Field.name).Nodup)
    (hdeclared : ∀ a ∈ arguments, a.name ∈ t.fields.map fun f => some f.name)
    (hnodup : (arguments.map Supplied.name).Nodup)
    (h : t.fields.map (argumentFor arguments) = sorted.map some) : sorted.Perm arguments := by
  have hsorted : (sorted.map Supplied.name).Nodup :=
    map_name_of_forall₂ (forall₂_of_map_argumentFor h) ▸ nodup_fieldNames hfields
  refine (List.perm_ext_iff_of_nodup hsorted.of_map hnodup.of_map).2 fun a => ⟨fun ha => ?_,
    fun ha => ?_⟩
  · obtain ⟨f, -, hf⟩ := List.mem_map.1 (h ▸ List.mem_map_of_mem ha)
    exact (mem_of_argumentFor hf).1
  · obtain ⟨f, hf, hname⟩ := List.mem_map.1 (hdeclared a ha)
    have hseat := argumentFor_eq_some hnodup ha hname.symm
    obtain ⟨b, hb, heq⟩ := List.mem_map.1 (h ▸ List.mem_map.2 ⟨f, hf, hseat⟩)
    exact Option.some.inj heq ▸ hb

/-- Arguments with names are put into the places of their fields, and then taken out. -/
theorem arrange_of_named (hne : arguments ≠ []) (hnamed : ∀ a ∈ arguments, a.name.isSome) :
    t.arrange arguments position =
      (t.fillSlots arguments (t.seated [])).bind (t.emptySlots position t.fields) := by
  simp only [arrange, List.countP_eq_length.2 hnamed]
  rw [if_neg (by simpa using hne)]
  exact if_pos trivial

/-- Arguments with names are brought into the order of the fields, if there is one for each field
and no other. -/
theorem arrange_eq_ok_iff (position : Position) (hfields : (t.fields.map Field.name).Nodup)
    (hne : arguments ≠ []) (hnamed : ∀ a ∈ arguments, a.name.isSome) :
    t.arrange arguments position = .ok sorted ↔
      sorted.Perm arguments ∧ List.Forall₂ Supplied.NamedAfter t.fields sorted := by
  have hfill (slots : Slots κ) : t.fillSlots arguments (t.seated []) = .ok slots ↔ _ :=
    fillSlots_eq_ok_iff hfields hnamed
  rw [arrange_of_named hne hnamed]
  constructor
  · intro h
    obtain ⟨slots, hslots, hempty⟩ := exists_ok_of_bind h
    obtain ⟨hdeclared, hnodup, -, rfl⟩ := (hfill slots).1 hslots
    have hseated := emptySlots_eq_ok_iff.1 hempty
    exact ⟨perm_of_map_argumentFor hfields hdeclared hnodup hseated,
      forall₂_of_map_argumentFor hseated⟩
  · rintro ⟨hperm, hsorted⟩
    have hnames : (arguments.map Supplied.name).Perm (t.fields.map fun f => some f.name) := by
      rw [← map_name_of_forall₂ hsorted]
      exact hperm.symm.map _
    have hnodup := hnames.nodup_iff.2 (nodup_fieldNames hfields)
    have hslots : t.fillSlots arguments (t.seated []) = .ok (t.seated arguments) :=
      (hfill _).2 ⟨fun a ha => hnames.subset (List.mem_map_of_mem ha), hnodup, by simp, rfl⟩
    rw [hslots]
    exact emptySlots_eq_ok_iff.2
      (map_argumentFor_of_forall₂ hnodup (fun a ha => hperm.subset ha) hsorted)

/-- Only names are at fault when arguments with names are brought into the order of the fields. -/
theorem kind_of_arrange (hne : arguments ≠ []) (hnamed : ∀ a ∈ arguments, a.name.isSome)
    {misfit : Misfit} (h : t.arrange arguments position = .error misfit) :
    misfit.1.kind = .name := by
  rw [arrange_of_named hne hnamed] at h
  rcases error_or_of_bind h with hfill | ⟨slots, -, hempty⟩
  · exact kind_of_fillSlots hfill
  · exact kind_of_emptySlots hempty

/-- Arguments whose names are those of the fields can be brought into the order of the fields. -/
theorem namesFields_iff_exists : t.NamesFields arguments ↔ ∃ sorted : List (Supplied κ),
    sorted.Perm arguments ∧ List.Forall₂ Supplied.NamedAfter t.fields sorted := by
  constructor
  · intro h
    have hself : List.Forall₂ (fun name a => Supplied.name a = name)
        (arguments.map Supplied.name) arguments :=
      List.forall₂_map_left_iff.2 (List.forall₂_same.2 fun _ _ => rfl)
    obtain ⟨sorted, hsorted, hperm⟩ := List.perm_comp_forall₂ h.symm hself
    exact ⟨sorted, hperm, List.forall₂_map_left_iff (f := fun f : Field => some f.name).1 hsorted⟩
  · rintro ⟨sorted, hperm, hsorted⟩
    rw [NamesFields, ← map_name_of_forall₂ hsorted]
    exact hperm.symm.map _

/-! ### The values of the fields -/

/-- Either some argument does not conform to its field, and the first such is at fault, or all
do. -/
theorem conformAll_cases {fields : List Field}
    (hlength : fields.length = arguments.length) :
    (∃ f a, FirstMisfit f a fields arguments ∧ t.conformAll fields arguments =
        .error (.fieldType t.name f a.value.typeName, a.position)) ∨
      ∃ values, List.zipWith (fun f a => a.value.conform? f.tag) fields arguments =
          values.map some ∧ t.conformAll fields arguments = .ok values := by
  induction fields generalizing arguments with
  | nil => exact .inr ⟨[], rfl, rfl⟩
  | cons f fields ih =>
    obtain ⟨a, arguments, rfl⟩ := List.exists_cons_of_length_eq_add_one hlength.symm
    cases hv : a.value.conform? f.tag with
    | none =>
      refine .inl ⟨f, a, .here hv, ?_⟩
      simp [conformAll, conformField, hv]
    | some v =>
      have hall : t.conformAll (f :: fields) (a :: arguments) =
          (t.conformAll fields arguments).map (v :: ·) := by
        simp only [conformAll, conformField, hv]
        rfl
      rcases ih (by simpa using hlength) with ⟨g, b, hfirst, herror⟩ | ⟨values, hvalues, hok⟩
      · exact .inl ⟨g, b, .later hv hfirst, by rw [hall, herror]; rfl⟩
      · refine .inr ⟨v :: values, ?_, by rw [hall, hok]; rfl⟩
        rw [List.zipWith_cons_cons, hv, hvalues, List.map_cons]

/-- An argument that does not conform to its field is one of those given, for a field of the
struct. -/
theorem FirstMisfit.mem_zip {f : Field} {a : Supplied κ} {fields : List Field}
    (h : FirstMisfit f a fields arguments) :
    (f, a) ∈ fields.zip arguments ∧ a.value.conform? f.tag = none := by
  induction h with
  | here hnone => exact ⟨List.mem_cons_self, hnone⟩
  | later _ _ ih => exact ⟨List.mem_cons_of_mem _ ih.1, ih.2⟩

/-- The names of arguments do not matter when their values are put into fields. -/
theorem conformAll_unnamed (fields : List Field) (arguments : List (Supplied κ)) :
    t.conformAll fields (arguments.map Supplied.unnamed) = t.conformAll fields arguments := by
  induction fields generalizing arguments with
  | nil => rfl
  | cons f fields ih =>
    cases arguments with
    | nil => rfl
    | cons a arguments => simp only [List.map_cons, conformAll, ih, Supplied.unnamed]

/-- Arguments for the fields are used in the order of the declaration. -/
theorem construct_of_sorted (position : Position) (hfields : (t.fields.map Field.name).Nodup)
    (hne : arguments ≠ []) (hnamed : ∀ a ∈ arguments, a.name.isSome) (hperm : sorted.Perm arguments)
    (hsorted : List.Forall₂ Supplied.NamedAfter t.fields sorted) :
    t.construct arguments position = t.conformAll t.fields sorted := by
  have harrange := (arrange_eq_ok_iff position hfields hne hnamed).2 ⟨hperm, hsorted⟩
  rw [construct, harrange]
  rfl

/-- Arguments without names are used in the order in which they are given. -/
theorem construct_unnamed (position : Position) (hlength : sorted.length = t.fields.length) :
    t.construct (sorted.map Supplied.unnamed) position = t.conformAll t.fields sorted := by
  have harrange : t.arrange (sorted.map Supplied.unnamed) position =
      .ok (sorted.map Supplied.unnamed) := by
    simp [arrange, hlength, List.countP_map, Function.comp_def, Supplied.unnamed]
  rw [construct, harrange]
  exact conformAll_unnamed t.fields sorted

/-- With any other names than those of the fields the names are at fault. -/
theorem construct_of_not_namesFields (position : Position)
    (hfields : (t.fields.map Field.name).Nodup) (hne : arguments ≠ [])
    (hnamed : ∀ a ∈ arguments, a.name.isSome) (h : ¬t.NamesFields arguments) :
    ∃ misfit, t.construct arguments position = .error misfit ∧ misfit.1.kind = .name := by
  cases harrange : t.arrange arguments position with
  | ok sorted =>
    have hsorted := (arrange_eq_ok_iff position hfields hne hnamed).1 harrange
    exact absurd (namesFields_iff_exists.2 ⟨sorted, hsorted⟩) h
  | error misfit =>
    refine ⟨misfit, ?_, kind_of_arrange hne hnamed harrange⟩
    rw [construct, harrange]
    rfl

end StructType

/-! ### New instances -/

open Evaluation

section Construct

variable {type : StructType} {arguments sorted : List Supplied} {position : Position} {m : Machine}

/-- What comes of arguments in the order of the fields: the first field to which its argument does
not conform is at fault, at the place of the argument; if there is none, an instance is made, which
holds the values as they conform. -/
inductive Settled (type : StructType) (sorted : List Supplied) (m : Machine) :
    EStateM.Result Unwind Machine Value → Prop
  | misfit {f : Field} {a : Supplied} : StructType.FirstMisfit f a type.fields sorted →
    Settled type sorted m (.error
      (.failed ⟨.fieldType type.name f a.value.typeName, a.position, m.calls.toList⟩) m)
  | made {values : List Value} :
    List.zipWith (fun f a => a.value.conform? f.tag) type.fields sorted = values.map some →
    Settled type sorted m (.ok (.object type m.cells.size) { m with
      cells := m.cells.push values
      journal := m.journal.push (.logged (.constructed type.name values.length)) })

/-- A type is at fault if some argument does not conform to its field. -/
theorem Settled.faultKind?_eq_type_iff {made : EStateM.Result Unwind Machine Value}
    (h : Settled type sorted m made) : Action.faultKind? made = some .type ↔
      ∃ p ∈ type.fields.zip sorted, p.2.value.conform? p.1.tag = none := by
  cases h with
  | misfit hfirst => exact iff_of_true rfl ⟨_, hfirst.mem_zip⟩
  | made hvalues =>
    refine iff_of_false nofun fun ⟨p, hp, hnone⟩ => ?_
    have hmem : p.2.value.conform? p.1.tag ∈
        List.zipWith (fun f a => a.value.conform? f.tag) type.fields sorted := by
      rw [← List.map_uncurry_zip_eq_zipWith]
      exact List.mem_map_of_mem (f := Function.uncurry _) hp
    simp [hvalues, hnone] at hmem

/-- Names are not at fault when the arguments stand in the order of the fields. -/
theorem Settled.faultKind?_ne_name {made : EStateM.Result Unwind Machine Value}
    (h : Settled type sorted m made) : Action.faultKind? made ≠ some .name := by
  cases h <;> simp [Action.faultKind?, Fault.kind]

/-- Values that are found for the fields settle what comes of the arguments. -/
theorem settled_of_construct (hlength : type.fields.length = sorted.length)
    (h : type.construct arguments position = type.conformAll type.fields sorted) :
    Settled type sorted m (construct type arguments position m) := by
  rcases StructType.conformAll_cases (t := type) hlength with ⟨f, a, hfirst, herror⟩ |
    ⟨values, hvalues, hok⟩
  · rw [construct, h, herror]
    exact .misfit hfirst
  · rw [construct, h, hok]
    exact .made hvalues

/-- With any other names than those of the fields the names are at fault. -/
theorem faultKind?_of_not_namesFields (hfields : (type.fields.map Field.name).Nodup)
    (hne : arguments ≠ []) (hnamed : ∀ a ∈ arguments, a.name.isSome)
    (h : ¬type.NamesFields arguments) :
    Action.faultKind? (construct type arguments position m) = some .name := by
  obtain ⟨⟨fault, place⟩, hmisfit, hkind⟩ :=
    StructType.construct_of_not_namesFields position hfields hne hnamed h
  simpa [construct, hmisfit, Action.fail, Action.faultKind?] using hkind

end Construct

/-- To make an instance from arguments with names finds fault with the names if they are not those
of the fields in some order.  Otherwise it is the same as with the arguments in the order of the
declaration and without names, and only types may be at fault.  So the order in which the arguments
are given changes nothing of the outcome if their names are those of the fields, and not the kind of
the fault in any case. -/
theorem named_arguments_in_any_order (type : StructType)
    (hfields : (type.fields.map Field.name).Nodup) (arguments : List Supplied)
    (hne : arguments ≠ []) (hnamed : ∀ a ∈ arguments, a.name.isSome) (position : Position)
    (m : Machine) :
    let made := construct type arguments position m
    (Action.faultKind? made = some .name ↔ ¬type.NamesFields arguments) ∧
    (type.NamesFields arguments → ∃ sorted : List Supplied, sorted.Perm arguments ∧
      List.Forall₂ Supplied.NamedAfter type.fields sorted ∧
      made = construct type (sorted.map Supplied.unnamed) position m ∧
      (Action.faultKind? made = some .type ↔
        ∃ p ∈ type.fields.zip sorted, p.2.value.conform? p.1.tag = none) ∧
      Settled type sorted m made) ∧
    ∀ arguments' : List Supplied, arguments'.Perm arguments →
      let made' := construct type arguments' position m
      Action.faultKind? made' = Action.faultKind? made ∧
        (type.NamesFields arguments → made' = made) := by
  intro made
  have hordered {sorted : List Supplied} (hperm : sorted.Perm arguments)
      (hsorted : List.Forall₂ Supplied.NamedAfter type.fields sorted) :=
    StructType.construct_of_sorted position hfields hne hnamed hperm hsorted
  refine ⟨⟨fun hkind hnames => ?_, faultKind?_of_not_namesFields hfields hne hnamed⟩,
    fun hnames => ?_, fun arguments' hperm' => ?_⟩
  · obtain ⟨sorted, hperm, hsorted⟩ := StructType.namesFields_iff_exists.1 hnames
    have hsettled := settled_of_construct (m := m) hsorted.length_eq (hordered hperm hsorted)
    exact hsettled.faultKind?_ne_name hkind
  · obtain ⟨sorted, hperm, hsorted⟩ := StructType.namesFields_iff_exists.1 hnames
    have hsettled := settled_of_construct (m := m) hsorted.length_eq (hordered hperm hsorted)
    have hunnamed := StructType.construct_unnamed position hsorted.length_eq.symm
    refine ⟨sorted, hperm, hsorted, ?_, hsettled.faultKind?_eq_type_iff, hsettled⟩
    simp only [made, construct, hordered hperm hsorted, hunnamed]
  · have hne' : arguments' ≠ [] := fun h => hne (List.nil_perm.1 (h ▸ hperm'))
    have hnamed' : ∀ a ∈ arguments', a.name.isSome := fun a ha => hnamed a (hperm'.subset ha)
    have hnames' : type.NamesFields arguments' ↔ type.NamesFields arguments :=
      ⟨(hperm'.symm.map _).trans, (hperm'.map _).trans⟩
    have heq (hnames : type.NamesFields arguments) :
        construct type arguments' position m = made := by
      obtain ⟨sorted, hperm, hsorted⟩ := StructType.namesFields_iff_exists.1 hnames
      have hordered' := StructType.construct_of_sorted position hfields hne' hnamed'
        (hperm.trans hperm'.symm) hsorted
      simp only [made, construct, hordered hperm hsorted, hordered']
    refine ⟨?_, heq⟩
    by_cases hnames : type.NamesFields arguments
    · rw [heq hnames]
    · rw [faultKind?_of_not_namesFields hfields hne hnamed hnames,
        faultKind?_of_not_namesFields hfields hne' hnamed' (hnames'.not.2 hnames)]

/-- A text for the field `x: int`, given behind an integer for the field `y: float`. -/
theorem swapped_names_of_a_point :
    let point : StructType := ⟨0, "Point", [⟨"x", .int⟩, ⟨"y", .float⟩]⟩
    let arguments : List Supplied :=
      [⟨some "y", .int 2, ⟨1, 10⟩⟩, ⟨some "x", .str "a", ⟨1, 16⟩⟩]
    let fault : Unwind := .failed ⟨.fieldType "Point" ⟨"x", .int⟩ "str", ⟨1, 16⟩, []⟩
    (point.fields.map Field.name).Nodup ∧ arguments ≠ [] ∧ (∀ a ∈ arguments, a.name.isSome) ∧
      point.NamesFields arguments ∧
      construct point arguments ⟨1, 1⟩ Machine.initial = .error fault Machine.initial ∧
      construct point arguments.reverse ⟨1, 1⟩ Machine.initial = .error fault Machine.initial := by
  intro point arguments fault
  have hnames : point.NamesFields arguments := .swap _ _ _
  have h := named_arguments_in_any_order point (by decide) arguments nofun (by simp [arguments])
    ⟨1, 1⟩ .initial
  have hreverse := (h.2.2 arguments.reverse arguments.reverse_perm).2 hnames
  exact ⟨by decide, nofun, by simp [arguments], hnames, rfl, hreverse.trans rfl⟩

end SnapshotScript
