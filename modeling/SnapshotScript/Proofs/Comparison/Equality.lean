import SnapshotScript.Proofs.Comparison.Ordering
import SnapshotScript.Proofs.Names

/-!
# Equality across kinds

Values of the same kind can be compared by `==` and `!=`, and so can two numbers, and everything
with `null`.  What is of different kinds is told apart by the names of the types.  But a program may
give a struct the name `int`, `float`, `str` or `bool`, and then an instance of it passes for one of
these and is not refused.  The other names of types are reserved words, so no program can give
them to a struct.
-/

namespace SnapshotScript

variable {κ : Type}

namespace Value

/-! ### Kinds -/

/-- The kinds of values.  Instances of structs with the same name are of one kind. -/
inductive Kind where
  | null | number | text | truth | struct | function
  | object (name : String)
deriving DecidableEq, Repr

/-- The kind of a value. -/
def kind : Value κ → Kind
  | .null => .null
  | .int _ | .float _ => .number
  | .str _ => .text
  | .bool _ => .truth
  | .structType _ => .struct
  | .function _ | .builtin _ => .function
  | .object type _ => .object type.name

/-- The first value is an instance that passes for the second one, as its struct has the name of the
type of numbers, texts or truth values. -/
inductive Imitates : Value κ → Value κ → Prop
  | int {type cell n} : type.name = "int" → Imitates (.object type cell) (.int n)
  | float {type cell x} : type.name = "float" → Imitates (.object type cell) (.float x)
  | str {type cell text} : type.name = "str" → Imitates (.object type cell) (.str text)
  | bool {type cell b} : type.name = "bool" → Imitates (.object type cell) (.bool b)

/-- The comparisons by `==` and `!=` of `v` with `w` tell whether they are equal. -/
structure Equality (v w : Value κ) (b : Bool) : Prop where
  equal : Operator.Gives .equal v w (.bool b)
  notEqual : Operator.Gives .notEqual v w (.bool !b)

variable {v w : Value κ}

/-- Values of one kind have types with one name, if they are not numbers. -/
theorem typeName_eq_of_kind_eq (hnumbers : ¬(v.isNumber = true ∧ w.isNumber = true))
    (h : v.kind = w.kind) : v.typeName = w.typeName := by
  cases v <;> cases w <;> first
    | rfl
    | exact (hnumbers ⟨rfl, rfl⟩).elim
    | exact Kind.object.inj h
    | cases h

/-- A value of the kind of instances of a struct is such an instance. -/
theorem exists_object_of_kind_eq {name : String} (h : v.kind = .object name) :
    ∃ type cell, v = .object type cell ∧ type.name = name := by
  cases v with
  | object type cell => exact ⟨type, cell, rfl, Kind.object.inj h⟩
  | _ => cases h

/-- A value of the kind of texts is a text. -/
theorem exists_str_of_kind_eq (h : v.kind = .text) : ∃ text, v = .str text := by
  cases v with
  | str text => exact ⟨text, rfl⟩
  | _ => cases h

/-- A value of the kind of truth values is one. -/
theorem exists_bool_of_kind_eq (h : v.kind = .truth) : ∃ b, v = .bool b := by
  cases v with
  | bool b => exact ⟨b, rfl⟩
  | _ => cases h

/-- The type of what an instance imitates has the name of its struct. -/
theorem Imitates.typeName_eq (h : v.Imitates w) : v.typeName = w.typeName := by
  cases h <;> assumption

/-- An instance is not the same as what it imitates. -/
theorem Imitates.same_eq (h : v.Imitates w) : v.same w = false ∧ w.same v = false := by
  cases h <;> exact ⟨rfl, rfl⟩

/-- Neither an instance nor what it imitates is `null`, and they are not both numbers. -/
theorem Imitates.ne_null (h : v.Imitates w) :
    v ≠ .null ∧ w ≠ .null ∧ ¬(v.isNumber = true ∧ w.isNumber = true) := by
  cases h <;> simp [isNumber]

/-- What is the same is so in both directions, except perhaps for numbers. -/
theorem same_comm (hnumbers : ¬(v.isNumber = true ∧ w.isNumber = true)) :
    v.same w = w.same v := by
  cases v <;> cases w <;> first
    | rfl
    | exact (hnumbers ⟨rfl, rfl⟩).elim
    | exact BEq.comm

end Value

/-! ### Names of types -/

/-- An instance has a struct with the name of another type only if the other value is of the same
kind or imitated by the instance: all other names of types are reserved. -/
theorem Value.typeName_object_eq {type : StructType} {cell : CellId} {w : Value}
    (hname : SnapshotScript.Unreserved type.name) (h : type.name = w.typeName) :
    (Value.object type cell : Value).kind = w.kind ∨ (Value.object type cell).Imitates w := by
  cases w with
  | int n => exact .inr (.int h)
  | float x => exact .inr (.float h)
  | str text => exact .inr (.str h)
  | bool b => exact .inr (.bool h)
  | object type' cell' => exact .inl (congrArg Kind.object h)
  | null => exact absurd h (hname .null)
  | structType type' => exact absurd h (hname .struct)
  | function | builtin => exact absurd h (hname .fun)

/-- The names of the types tell values of different kinds apart, unless one imitates the other. -/
theorem Value.kind_eq_of_typeName_eq {v w : Value} (hv : v.Unreserved) (hw : w.Unreserved)
    (h : v.typeName = w.typeName) : v.kind = w.kind ∨ v.Imitates w ∨ w.Imitates v := by
  cases v with
  | object type cell => exact (typeName_object_eq hv h).imp id .inl
  | _ =>
    cases w with
    | object type cell => exact (typeName_object_eq hw h.symm).imp Eq.symm .inr
    | _ => first | exact .inl rfl | exact absurd h (by simp [typeName])

/-! ### What the operators find -/

namespace Operator

variable {v w : Value κ}

/-- What is not `null` and not a number is compared by content or identity if the names of the types
are the same. -/
theorem areEqual_of_not_numbers (hv : v ≠ .null) (hw : w ≠ .null)
    (hnumbers : ¬(v.isNumber = true ∧ w.isNumber = true)) : areEqual v w =
      if v.typeName = w.typeName then .ok (v.same w)
      else .error (.incomparable v.typeName w.typeName) := by
  rw [areEqual_of_ne_null hv hw, if_neg (by simpa using hnumbers)]

/-- Values whose types have the same name are compared by content or identity. -/
theorem equality_of_typeName_eq (hv : v ≠ .null) (hw : w ≠ .null)
    (hnumbers : ¬(v.isNumber = true ∧ w.isNumber = true)) (h : v.typeName = w.typeName) :
    v.Equality w (v.same w) := by
  have hequal := areEqual_of_not_numbers hv hw hnumbers
  rw [if_pos h] at hequal
  exact ⟨gives_of_binary (by decide) (by rw [binary, hequal]; rfl),
    gives_of_binary (by decide) (by rw [binary, hequal]; rfl)⟩

/-- Values whose types have different names are refused. -/
theorem refuses_of_typeName_ne (hv : v ≠ .null) (hw : w ≠ .null)
    (hnumbers : ¬(v.isNumber = true ∧ w.isNumber = true)) (h : v.typeName ≠ w.typeName) :
    Refuses .equal v w .type ∧ Refuses .notEqual v w .type := by
  have hequal := areEqual_of_not_numbers hv hw hnumbers
  rw [if_neg h] at hequal
  have hrefuses : ∀ operator, operator ∉ [.and, .or] →
      binary operator v w = .error (.incomparable v.typeName w.typeName) →
        Refuses operator v w .type := fun _ hoperator => refuses_of_binary hoperator
  exact ⟨hrefuses .equal (by decide) (by rw [binary, hequal]; rfl),
    hrefuses .notEqual (by decide) (by rw [binary, hequal]; rfl)⟩

/-- An instance compares as different with what it imitates. -/
theorem equality_of_imitates (h : v.Imitates w) : v.Equality w false ∧ w.Equality v false := by
  obtain ⟨hv, hw, hnumbers⟩ := h.ne_null
  obtain ⟨hsame, hsame'⟩ := h.same_eq
  have hforth := equality_of_typeName_eq hv hw hnumbers h.typeName_eq
  have hback := equality_of_typeName_eq hw hv (hnumbers ∘ And.symm) h.typeName_eq.symm
  rw [hsame] at hforth
  rw [hsame'] at hback
  exact ⟨hforth, hback⟩

end Operator

/-- Programs run one after another, and all values of their expressions are noted, which does not
change the runs.  Any two of the values, neither of them `null` and not both numbers, are compared
by `==` and `!=` if they are of one kind, with opposite results, which do not depend on the order of
the operands.  Otherwise both comparisons are refused, except for an instance with what it imitates:
these are different. -/
theorem equality_of_values (depth steps : Nat) (sources : List String) :
    let programs := sources.filterMap fun source => (parseSource source).toOption
    let noted := (Interpreter.noting depth steps sources).machine
    noted.state = ((Interpreter.mk Machine.initial depth steps).runAll programs).machine ∧
      ∀ v ∈ noted.notes, ∀ w ∈ noted.notes, v ≠ .null → w ≠ .null →
        ¬(v.isNumber = true ∧ w.isNumber = true) →
        (v.kind = w.kind → ∃ b, v.Equality w b ∧ w.Equality v b) ∧
        (v.Imitates w ∨ w.Imitates v → v.Equality w false) ∧
        (v.kind ≠ w.kind → ¬(v.Imitates w ∨ w.Imitates v) →
          Operator.Refuses .equal v w .type ∧ Operator.Refuses .notEqual v w .type) := by
  intro programs
  have hprograms : ∀ program ∈ programs, program.Unreserved := by
    intro program hmem
    obtain ⟨source, -, hsource⟩ := Interpreter.exists_source_of_mem hmem
    exact unreserved_of_parseSource hsource
  have hheld : ∀ v, Machine.initial.Holds v → v.Unreserved := by
    intro v hv
    obtain ⟨builtin, rfl⟩ := Machine.exists_builtin_of_initial_holds hv
    trivial
  obtain ⟨hstate, hnotes⟩ := Interpreter.runAllNoting_passes
    (j := ⟨Machine.initial, depth, steps⟩) unreserved_passes hheld hprograms
  refine ⟨hstate, fun v hv w hw hnull hnull' hnumbers => ⟨fun hkind => ?_, fun h => ?_,
    fun hkind himitates => ?_⟩⟩
  · have hname := Value.typeName_eq_of_kind_eq hnumbers hkind
    have hback :=
      Operator.equality_of_typeName_eq hnull' hnull (hnumbers ∘ And.symm) hname.symm
    rw [← Value.same_comm hnumbers] at hback
    exact ⟨_, Operator.equality_of_typeName_eq hnull hnull' hnumbers hname, hback⟩
  · rcases h with h | h
    · exact (Operator.equality_of_imitates h).1
    · exact (Operator.equality_of_imitates h).2
  · refine Operator.refuses_of_typeName_ne hnull hnull' hnumbers fun hname => ?_
    exact (Value.kind_eq_of_typeName_eq (hnotes v hv) (hnotes w hw) hname).elim hkind himitates

/-- An instance of a struct `str` is different from a text, two texts may be compared, and a text
with a truth value may not. -/
theorem equality_of_imitating_instance :
    let notes := (Interpreter.noting 1000 9 ["struct str(a)  str(1)", "'x' == true"]).machine.notes
    ∃ v ∈ notes, ∃ w ∈ notes, ∃ u ∈ notes, (v ≠ .null ∧ w ≠ .null ∧ u ≠ .null) ∧
      (v.isNumber = false ∧ w.isNumber = false) ∧ v.Imitates w ∧ v.Equality w false ∧
      (∃ b, w.Equality w b) ∧ w.kind ≠ u.kind ∧ ¬(w.Imitates u ∨ u.Imitates w) ∧
      Operator.Refuses .equal w u .type ∧ Operator.Refuses .notEqual w u .type := by
  intro notes
  have hkinds : notes.map Value.kind =
      [.truth, .text, .object "str", .object "str", .number, .struct, .struct] := by
    decide +kernel
  have hfound : ∀ k ∈ notes.map Value.kind, ∃ v ∈ notes, v.kind = k :=
    fun _ => List.mem_map.1
  rw [hkinds] at hfound
  obtain ⟨v, hv, hkind⟩ := hfound (.object "str") (by decide)
  obtain ⟨w, hw, hkind'⟩ := hfound .text (by decide)
  obtain ⟨u, hu, hkind''⟩ := hfound .truth (by decide)
  obtain ⟨type, cell, rfl, hname⟩ := Value.exists_object_of_kind_eq hkind
  obtain ⟨text, rfl⟩ := Value.exists_str_of_kind_eq hkind'
  obtain ⟨b, rfl⟩ := Value.exists_bool_of_kind_eq hkind''
  have hpairs := (equality_of_values 1000 9 ["struct str(a)  str(1)", "'x' == true"]).2
  have himitates : (Value.object type cell : Value).Imitates (.str text) := .str hname
  have hnot : ¬((Value.str text : Value).Imitates (.bool b) ∨
      (Value.bool b : Value).Imitates (.str text)) := by
    rintro (h | h) <;> cases h
  obtain ⟨-, hdifferent, -⟩ := hpairs _ hv _ hw nofun nofun nofun
  obtain ⟨hequality, -, -⟩ := hpairs _ hw _ hw nofun nofun nofun
  obtain ⟨-, -, hrefused⟩ := hpairs _ hw _ hu nofun nofun nofun
  obtain ⟨c, hc, -⟩ := hequality rfl
  exact ⟨_, hv, _, hw, _, hu, ⟨nofun, nofun, nofun⟩, ⟨rfl, rfl⟩, himitates,
    hdifferent (.inl himitates), ⟨c, hc⟩, nofun, hnot, hrefused nofun hnot⟩

/-- A program can make an instance that passes for a text.  They are of different kinds, and yet
their comparison by `==` gives a result. -/
theorem instance_equal_to_text :
    let notes := (Interpreter.noting 1000 9 ["struct str(a) str(1) == 'x'"]).machine.notes
    ∃ v ∈ notes, ∃ w ∈ notes, v ≠ .null ∧ w ≠ .null ∧ ¬(v.isNumber = true ∧ w.isNumber = true) ∧
      v.kind ≠ w.kind ∧ Operator.Gives .equal v w (.bool false) := by
  intro notes
  have hkinds : notes.map Value.kind =
      [.truth, .truth, .text, .object "str", .number, .struct, .struct] := by
    decide +kernel
  have hfound : ∀ k ∈ notes.map Value.kind, ∃ v ∈ notes, v.kind = k :=
    fun _ => List.mem_map.1
  rw [hkinds] at hfound
  obtain ⟨v, hv, hkind⟩ := hfound (.object "str") (by decide)
  obtain ⟨w, hw, hkind'⟩ := hfound .text (by decide)
  obtain ⟨type, cell, rfl, hname⟩ := Value.exists_object_of_kind_eq hkind
  obtain ⟨text, rfl⟩ := Value.exists_str_of_kind_eq hkind'
  exact ⟨_, hv, _, hw, nofun, nofun, nofun, nofun,
    (Operator.equality_of_imitates (.str hname)).1.equal⟩

end SnapshotScript
