import Mathlib.Data.List.Forall2
import SnapshotScript.Builtin
import SnapshotScript.Construction
import SnapshotScript.Operator

/-!
# What values operations give

Operators and builtin functions give plain data only.  A new instance has one value for each field
of its struct, which conforms to the field and is one of the arguments or plain data.
-/

namespace SnapshotScript

variable {κ : Type}

/-- What is done in two steps succeeds only if both do. -/
theorem exists_ok_of_bind {ε α β : Type} {x : Except ε α} {f : α → Except ε β} {b : β}
    (h : x >>= f = .ok b) : ∃ a, x = .ok a ∧ f a = .ok b := by
  cases x with
  | error e => cases h
  | ok a => exact ⟨a, rfl, h⟩

/-- The error that has come in place of a value, if there is one. -/
def errorOf? {ε α : Type} : Except ε α → Option ε
  | .ok _ => none
  | .error e => some e

/-- What has an error has no value. -/
theorem eq_error_of_errorOf? {ε α : Type} {x : Except ε α} {e : ε} (h : errorOf? x = some e) :
    x = .error e := by
  cases x with
  | ok a => cases h
  | error e' =>
    cases h
    rfl

namespace Value

/-- Plain data and builtin functions: what is neither made by the program nor refers to it. -/
def Plain : Value κ → Prop
  | .structType _ | .object .. | .function _ => False
  | _ => True

/-- What a field holds conforms to its tag without another change. -/
theorem conform?_conform? {tag : TypeTag} {v w : Value κ} (h : v.conform? tag = some w) :
    w.conform? tag = some w := by
  unfold conform? at h
  split at h
  all_goals first
    | (cases h; rfl)
    | (split at h
       · next hname =>
         cases h
         simp [conform?, hname]
       · cases h)
    | cases h

/-- A field holds the value that is put into it, or plain data made from it. -/
theorem eq_or_plain_of_conform? {tag : TypeTag} {v w : Value κ} (h : v.conform? tag = some w) :
    w = v ∨ w.Plain := by
  unfold conform? at h
  split at h
  all_goals first
    | (cases h; exact .inr trivial)
    | (cases h; exact .inl rfl)
    | (split at h
       · cases h
         exact .inl rfl
       · cases h)
    | cases h

end Value

theorem Literal.toValue_plain (l : Literal) : (l.toValue : Value κ).Plain := by
  cases l <;> trivial

/-! ### Operators -/

namespace Operator

theorem intOr_plain (n? : Option Int64) (x : Float) : (intOr n? x : Value κ).Plain := by
  cases n? <;> trivial

variable {v w r : Value κ}

/-- Operators on numbers give plain data, if their results do. -/
theorem onNumbers_plain {operator : BinaryOperator} {combine : NumericPair → Except Fault (Value κ)}
    (hcombine : ∀ pair r, combine pair = .ok r → r.Plain)
    (h : onNumbers operator v w combine = .ok r) : r.Plain := by
  unfold onNumbers at h
  split at h
  · exact hcombine _ _ h
  · cases h

/-- Operators that give a result for any two numbers give plain data, if these results are. -/
theorem onNumbers_total_plain {operator : BinaryOperator} {f : NumericPair → Value κ}
    (h : onNumbers operator v w (fun pair => .ok (f pair)) = .ok r)
    (hints : ∀ m n, (f (.ints m n)).Plain) (hfloats : ∀ x y, (f (.floats x y)).Plain) :
    r.Plain := by
  refine onNumbers_plain (fun pair r hr => ?_) h
  cases hr
  cases pair with
  | ints m n => exact hints m n
  | floats x y => exact hfloats x y

theorem quotient_plain {pair : NumericPair} (h : quotient pair = .ok r) : r.Plain := by
  unfold quotient at h
  split at h
  · split at h
    · cases h
    · split at h
      · cases h
        exact intOr_plain _ _
      · cases h
        trivial
  · split at h
    · cases h
    · cases h
      trivial

theorem repetition_plain {text : String} {count : Int64} (h : repetition text count = .ok r) :
    r.Plain := by
  unfold repetition at h
  split at h
  · cases h
  · split at h
    · cases h
      trivial
    · cases h

/-- Binary operators give plain data. -/
theorem binary_plain {operator : BinaryOperator} (h : binary operator v w = .ok r) : r.Plain := by
  cases operator with
  | add =>
    simp only [binary] at h
    split at h
    · cases h
      trivial
    · exact onNumbers_total_plain h (fun _ _ => intOr_plain _ _) fun _ _ => trivial
  | multiply =>
    simp only [binary] at h
    split at h
    · exact repetition_plain h
    · exact repetition_plain h
    · exact onNumbers_total_plain h (fun _ _ => intOr_plain _ _) fun _ _ => trivial
  | divide => exact onNumbers_plain (fun pair r hr => quotient_plain hr) h
  | subtract | power =>
    exact onNumbers_total_plain h (fun _ _ => intOr_plain _ _) fun _ _ => trivial
  | and | or =>
    cases h
    trivial
  | equal | notEqual | less | greater | lessEqual | greaterEqual =>
    obtain ⟨decision, -, h⟩ := exists_ok_of_bind h
    cases h
    trivial

/-- Unary operators give plain data. -/
theorem unary_plain {operator : UnaryOperator} (h : unary operator v = .ok r) : r.Plain := by
  unfold unary at h
  split at h
  · cases h
    trivial
  · cases h
    trivial
  · cases h
    exact intOr_plain _ _
  · cases h
    trivial
  · cases h

end Operator

/-! ### Builtin functions -/

namespace Builtin

variable {v r : Value κ}

theorem truncate_plain {x : Float} (h : truncate x = .ok r) : r.Plain := by
  unfold truncate at h
  split at h
  · cases h
    trivial
  · cases h

theorem toFloat_plain (h : toFloat v = .ok r) : r.Plain := by
  unfold toFloat at h
  split at h
  · cases h
    trivial
  · cases h
    trivial
  · cases h
    trivial
  · split at h
    · cases h
      trivial
    · cases h
  · cases h

theorem toInt_plain (h : toInt v = .ok r) : r.Plain := by
  unfold toInt at h
  split at h
  · cases h
    trivial
  · exact truncate_plain h
  · cases h
    trivial
  · simp only at h
    split at h
    · cases h
      trivial
    · split at h
      · exact truncate_plain h
      · cases h
  · cases h

/-- Builtin functions give plain data. -/
theorem apply_plain {cells : Cells κ} {b : Builtin} {vs : List (Value κ)}
    {result : Value κ × Option String} (h : b.apply cells vs = .ok result) : result.1.Plain := by
  unfold apply at h
  split at h
  · cases h
    trivial
  · obtain ⟨r, hr, h⟩ := exists_ok_of_bind h
    cases h
    exact toFloat_plain hr
  · obtain ⟨r, hr, h⟩ := exists_ok_of_bind h
    cases h
    exact toInt_plain hr
  · cases h
    trivial
  · cases h
    trivial
  · cases h
    trivial

/-- Calls of builtin functions give plain data. -/
theorem run_plain {cells : Cells κ} {b : Builtin} {vs : List (Value κ)}
    {result : Value κ × Option String} (h : b.run cells vs = .ok result) : result.1.Plain := by
  unfold run at h
  split at h
  · split at h
    · exact apply_plain h
    · cases h
  · exact apply_plain h

end Builtin

/-! ### New instances -/

namespace StructType

variable {t : StructType} {arguments : List (Supplied κ)} {position : Position}

/-- The values are those of the fields of an instance: one for each field, which conforms to it. -/
def Fits (t : StructType) (values : List (Value κ)) : Prop :=
  List.Forall₂ (fun f v => v.conform? f.tag = some v) t.fields values

/-- A field that has taken a value is what `conform?` gives. -/
theorem conform?_of_conformField {f : Field} {v w : Value κ} (h : t.conformField f v = .ok w) :
    v.conform? f.tag = some w := by
  unfold conformField at h
  split at h
  · next hw =>
    cases h
    exact hw
  · cases h

theorem fillSlots_length {slots slots' : Slots κ} (h : t.fillSlots arguments slots = .ok slots') :
    slots'.length = slots.length := by
  induction arguments generalizing slots with
  | nil =>
    cases h
    rfl
  | cons a arguments ih =>
    simp only [fillSlots] at h
    split at h
    · cases h
    · split at h
      · cases h
      · exact (ih h).trans List.length_set

/-- The places hold what they held before, and arguments. -/
theorem mem_of_mem_fillSlots {slots slots' : Slots κ} (h : t.fillSlots arguments slots = .ok slots')
    {a : Supplied κ} (ha : some a ∈ slots') : some a ∈ slots ∨ a ∈ arguments := by
  induction arguments generalizing slots with
  | nil =>
    cases h
    exact .inl ha
  | cons b arguments ih =>
    simp only [fillSlots] at h
    split at h
    · cases h
    · split at h
      · cases h
      · rcases ih h with hset | hrest
        · rcases List.mem_or_eq_of_mem_set hset with hold | heq
          · exact .inl hold
          · cases heq
            exact .inr List.mem_cons_self
        · exact .inr (List.mem_cons_of_mem _ hrest)

theorem emptySlots_spec {fields : List Field} {slots : Slots κ} {arranged : List (Supplied κ)}
    (hlength : slots.length = fields.length)
    (h : t.emptySlots position fields slots = .ok arranged) :
    arranged.length = fields.length ∧ ∀ a ∈ arranged, some a ∈ slots := by
  induction fields generalizing slots arranged with
  | nil =>
    cases h
    exact ⟨rfl, by simp⟩
  | cons f fields ih =>
    rcases slots with _ | ⟨_ | a, slots⟩
    · cases hlength
    · cases h
    · obtain ⟨rest, hrest, h⟩ := exists_ok_of_bind h
      cases h
      obtain ⟨hlen, hmem⟩ := ih (by simpa using hlength) hrest
      refine ⟨by simp [hlen], fun b hb => ?_⟩
      rcases List.mem_cons.1 hb with rfl | hb
      · exact List.mem_cons_self
      · exact List.mem_cons_of_mem _ (hmem b hb)

/-- Each field has one of the arguments. -/
theorem arrange_spec {arranged : List (Supplied κ)}
    (h : t.arrange arguments position = .ok arranged) :
    arranged.length = t.fields.length ∧ ∀ a ∈ arranged, a ∈ arguments := by
  simp only [arrange] at h
  split at h
  · split at h
    · cases h
      exact ⟨‹_›, fun a ha => ha⟩
    · cases h
  · split at h
    · obtain ⟨slots, hfill, h⟩ := exists_ok_of_bind h
      have hslots : slots.length = t.fields.length := by simpa using fillSlots_length hfill
      obtain ⟨hlength, hmem⟩ := emptySlots_spec hslots h
      refine ⟨hlength, fun a ha => ?_⟩
      rcases mem_of_mem_fillSlots hfill (hmem a ha) with hnone | ha
      · simp at hnone
      · exact ha
    · cases h

theorem conformAll_spec {fields : List Field} {values : List (Value κ)}
    (hlength : arguments.length = fields.length) (h : t.conformAll fields arguments = .ok values) :
    List.Forall₂ (fun f v => v.conform? f.tag = some v) fields values ∧
      ∀ v ∈ values, v.Plain ∨ ∃ a ∈ arguments, v = a.value := by
  induction fields generalizing arguments values with
  | nil =>
    cases h
    exact ⟨.nil, by simp⟩
  | cons f fields ih =>
    rcases arguments with _ | ⟨a, arguments⟩
    · cases hlength
    · simp only [conformAll] at h
      cases hfield : t.conformField f a.value with
      | error fault => simp [hfield] at h
      | ok v =>
        simp only [hfield] at h
        obtain ⟨rest, hrest, h⟩ := exists_ok_of_bind h
        cases h
        have hconform := conform?_of_conformField hfield
        obtain ⟨hfits, hmem⟩ := ih (by simpa using hlength) hrest
        refine ⟨.cons (Value.conform?_conform? hconform) hfits, fun w hw => ?_⟩
        rcases List.mem_cons.1 hw with rfl | hw
        · rcases Value.eq_or_plain_of_conform? hconform with heq | hplain
          · exact .inr ⟨a, List.mem_cons_self, heq⟩
          · exact .inl hplain
        · rcases hmem w hw with hplain | ⟨b, hb, heq⟩
          · exact .inl hplain
          · exact .inr ⟨b, List.mem_cons_of_mem _ hb, heq⟩

/-- A new instance has a value for each field, which conforms to it, and which is one of the
arguments or plain data. -/
theorem construct_spec {values : List (Value κ)} (h : t.construct arguments position = .ok values) :
    t.Fits values ∧ ∀ v ∈ values, v.Plain ∨ ∃ a ∈ arguments, v = a.value := by
  obtain ⟨arranged, harrange, h⟩ := exists_ok_of_bind h
  obtain ⟨hlength, hmem⟩ := arrange_spec harrange
  obtain ⟨hfits, hvalues⟩ := conformAll_spec hlength h
  refine ⟨hfits, fun v hv => ?_⟩
  rcases hvalues v hv with hplain | ⟨a, ha, heq⟩
  · exact .inl hplain
  · exact .inr ⟨a, hmem a ha, heq⟩

end StructType

end SnapshotScript
