import Mathlib.Data.List.Zip
import SnapshotScript.Value.Display

/-!
# What is shown of a value

Instances hold each other through their fields, in circles, too, so a heap of instances may unfold
to an infinite tree.  What is shown of a value is a finite part of this tree.  `Shown` tells it by
rules, with the depth at which a value stands: instances are written out field by field as long as
they stand at one of the first eight depths, and only the name of their type is written below.

So what lies deeper makes no difference.  `AgreeBelow` compares two values on all paths of less than
a number of steps, each of which leads from an instance to the value of one of its fields, and
values that agree on the paths of less than nine steps have the same text (`display_levels`).
-/

namespace SnapshotScript

namespace Value

variable {κ κ' : Type}

/-! ### The rules -/

/-- The text of a value that is neither a text nor an instance. -/
def plainText? : Value κ → Option String
  | .int n => some (toString n.toInt)
  | .float x => some (floatText x)
  | .bool b => some (if b then "true" else "false")
  | .null => some "null"
  | .structType type => some ("<struct " ++ type.name ++ ">")
  | .function f =>
    match f.name with
    | some name => some ("<fun " ++ name ++ ">")
    | none => some "<fun>"
  | .builtin b => some ("<builtin " ++ b.name ++ ">")
  | .str _ | .object _ _ => none

/-- The values of the fields of an instance with the names of the fields, in the order of the
declaration.  Other values have none. -/
def fieldsOf (cells : Cells κ) : Value κ → List (String × Value κ)
  | .object type cell => type.fields.zipWith (fun f v => (f.name, v)) (cells.getD cell [])
  | _ => []

mutual

/-- The text is what is shown of the value at the given depth. -/
inductive Shown (cells : Cells κ) : Nat → Value κ → String → Prop
  | plain {depth v text} : v.plainText? = some text → Shown cells depth v text
  | str {text} : Shown cells 0 (.str text) text
  /-- A text in an instance stands between quotes. -/
  | innerStr {depth text} : Shown cells (depth + 1) (.str text) ("'" ++ text ++ "'")
  /-- An instance that does not stand too deep is written with all its fields. -/
  | object {depth type cell texts} : depth < 8 →
    ShownFields cells (depth + 1) (fieldsOf cells (.object type cell)) texts →
    Shown cells depth (.object type cell) (type.name ++ "(" ++ commaList texts ++ ")")
  /-- Nothing is asked about the fields of an instance that stands deeper. -/
  | deepObject {type cell} : Shown cells 8 (.object type cell) (type.name ++ "(...)")

/-- The texts are what is shown of fields at the given depth, each with its name. -/
inductive ShownFields (cells : Cells κ) : Nat → List (String × Value κ) → List String → Prop
  | nil {depth} : ShownFields cells depth [] []
  | cons {depth name v text fields texts} : Shown cells depth v text →
    ShownFields cells depth fields texts →
    ShownFields cells depth ((name, v) :: fields) ((name ++ ": " ++ text) :: texts)

end

/-! ### The text that is shown -/

variable {cells : Cells κ} {cells' : Cells κ'} {depth levels : Nat}

/-- A value is plain, a text or an instance. -/
theorem plain_or_str_or_object (v : Value κ) :
    (∃ text, v.plainText? = some text) ∨ (∃ text, v = .str text) ∨
      ∃ type cell, v = .object type cell := by
  cases v with
  | str text => exact .inr (.inl ⟨text, rfl⟩)
  | object type cell => exact .inr (.inr ⟨type, cell, rfl⟩)
  | function f => cases hname : f.name <;> simp [plainText?, hname]
  | _ => exact .inl ⟨_, rfl⟩

/-- A plain value has the same text everywhere. -/
theorem displayWithin_plain {v : Value κ} {text : String} (h : v.plainText? = some text)
    (cells : Cells κ) (levels : Nat) : v.displayWithin cells levels = text := by
  cases v with
  | str _ => cases h
  | object _ _ => cases h
  | function f => cases hname : f.name <;> simp_all [plainText?, displayWithin]
  | _ =>
    cases h
    simp only [displayWithin]

/-- The text of an instance of which a level is written out. -/
theorem displayWithin_object (cells : Cells κ) (levels : Nat) (type : StructType) (cell : CellId) :
    (object type cell : Value κ).displayWithin cells (levels + 1) =
      type.name ++ "(" ++ commaList ((fieldsOf cells (.object type cell)).map fun field =>
        field.1 ++ ": " ++ field.2.displayWithin cells levels) ++ ")" := by
  rw [displayWithin, fieldsOf, List.map_zipWith]

/-- What is shown of a plain value is its text. -/
theorem shown_plain_iff {v : Value κ} {text : String} (h : v.plainText? = some text)
    (text' : String) : Shown cells depth v text' ↔ text' = text := by
  constructor
  · intro hshown
    cases hshown with
    | plain h' => exact Option.some.inj (h'.symm.trans h)
    | _ => cases h
  · rintro rfl
    exact .plain h

/-- What is shown of fields is told by what is shown of their values. -/
theorem shownFields_iff {write : Value κ → String}
    (h : ∀ v text, Shown cells depth v text ↔ text = write v)
    (fields : List (String × Value κ)) (texts : List String) :
    ShownFields cells depth fields texts ↔
      texts = fields.map fun field => field.1 ++ ": " ++ write field.2 := by
  induction fields generalizing texts with
  | nil =>
    constructor
    · rintro ⟨⟩
      rfl
    · rintro rfl
      exact .nil
  | cons field fields ih =>
    constructor
    · rintro (_ | ⟨hv, hfields⟩)
      rw [(h _ _).1 hv, (ih _).1 hfields]
      rfl
    · rintro rfl
      exact .cons ((h _ _).2 rfl) ((ih _).2 rfl)

/-- What is shown of an instance is told by what is shown of the values of its fields. -/
theorem shown_object_iff (hdepth : depth < 8)
    (h : ∀ v text, Shown cells (depth + 1) v text ↔ text = v.displayWithin cells levels)
    (type : StructType) (cell : CellId) (text : String) :
    Shown cells depth (.object type cell) text ↔
      text = (object type cell : Value κ).displayWithin cells (levels + 1) := by
  rw [displayWithin_object]
  constructor
  · intro hshown
    cases hshown with
    | plain hplain => cases hplain
    | object _ hfields => rw [(shownFields_iff h _ _).1 hfields]
    | deepObject => exact absurd hdepth (Nat.lt_irrefl 8)
  · rintro rfl
    exact .object hdepth ((shownFields_iff h _ _).2 rfl)

/-- What is shown of an instance at the greatest depth is the name of its type. -/
theorem shown_deepObject_iff (type : StructType) (cell : CellId) (text : String) :
    Shown cells 8 (.object type cell) text ↔ text = type.name ++ "(...)" := by
  constructor
  · intro hshown
    cases hshown with
    | plain hplain => cases hplain
    | object hlt _ => exact absurd hlt (Nat.lt_irrefl 8)
    | deepObject => rfl
  · rintro rfl
    exact .deepObject

/-- What is shown of a text in an instance has quotes. -/
theorem shown_innerStr_iff (content text : String) :
    Shown cells (depth + 1) (.str content) text ↔ text = "'" ++ content ++ "'" := by
  constructor
  · intro hshown
    cases hshown with
    | plain hplain => cases hplain
    | innerStr => rfl
  · rintro rfl
    exact .innerStr

/-- What is shown of a value within an instance is its text with the levels that are left. -/
theorem shown_succ_iff (hdepth : depth + 1 + levels = 8) (v : Value κ) (text : String) :
    Shown cells (depth + 1) v text ↔ text = v.displayWithin cells levels := by
  induction levels generalizing depth v text with
  | zero =>
    obtain rfl : depth = 7 := by omega
    rcases v.plain_or_str_or_object with ⟨plain, hplain⟩ | ⟨content, rfl⟩ | ⟨type, cell, rfl⟩
    · rw [shown_plain_iff hplain, displayWithin_plain hplain]
    · exact shown_innerStr_iff content text
    · exact shown_deepObject_iff type cell text
  | succ levels ih =>
    rcases v.plain_or_str_or_object with ⟨plain, hplain⟩ | ⟨content, rfl⟩ | ⟨type, cell, rfl⟩
    · rw [shown_plain_iff hplain, displayWithin_plain hplain]
    · exact shown_innerStr_iff content text
    · exact shown_object_iff (by omega) (ih (by omega)) type cell text

/-- What is shown of a value by itself is its text as it is printed. -/
theorem shown_zero_iff (v : Value κ) (text : String) :
    Shown cells 0 v text ↔ text = v.display cells := by
  rcases v.plain_or_str_or_object with ⟨plain, hplain⟩ | ⟨content, rfl⟩ | ⟨type, cell, rfl⟩
  · have hdisplay : v.display cells = v.displayWithin cells displayLevels := by
      cases v with
      | str _ => cases hplain
      | _ => rfl
    rw [hdisplay, shown_plain_iff hplain, displayWithin_plain hplain]
  · constructor
    · intro hshown
      cases hshown with
      | plain hplain => cases hplain
      | str => rfl
    · rintro rfl
      exact .str
  · exact shown_object_iff (by decide) (shown_succ_iff rfl) type cell text

/-! ### Agreement -/

/-- What a value is by itself: all that does not tell one value from another of the same content,
and no values of fields. -/
inductive Face where
  | int (n : Int64)
  | float (x : Float)
  | str (text : String)
  | bool (b : Bool)
  | null
  | structType (name : String)
  | object (name : String)
  | function (name : Option String)
  | builtin (b : Builtin)

/-- What the value is by itself. -/
def face : Value κ → Face
  | .int n => .int n
  | .float x => .float x
  | .str text => .str text
  | .bool b => .bool b
  | .null => .null
  | .structType type => .structType type.name
  | .object type _ => .object type.name
  | .function f => .function f.name
  | .builtin b => .builtin b

/-- What is found at the end of a path that begins at a value and at each step goes on to the field
with the given number: the name of the last field, and what its value is by itself.  At the
beginning of a path the name is `name`. -/
def found? (cells : Cells κ) (name : Option String) :
    List Nat → Value κ → Option (Option String × Face)
  | [], v => some (name, v.face)
  | n :: path, v =>
    match (fieldsOf cells v)[n]? with
    | some (name, v) => found? cells (some name) path v
    | none => none

/-- The same is found in both heaps at the end of all paths of less than so many steps. -/
def AgreeBelow (steps : Nat) (cells : Cells κ) (v : Value κ) (cells' : Cells κ') (w : Value κ') :
    Prop :=
  ∀ path : List Nat, path.length < steps → found? cells none path v = found? cells' none path w

variable {v : Value κ} {w : Value κ'}

/-- Values that agree are the same by themselves. -/
theorem AgreeBelow.face_eq (h : AgreeBelow (levels + 1) cells v cells' w) : v.face = w.face := by
  have hfound := h [] (Nat.succ_pos levels)
  simpa [found?] using hfound

/-- Values that agree have fields of the same names whose values agree. -/
theorem AgreeBelow.fields (h : AgreeBelow (levels + 2) cells v cells' w) (n : Nat) :
    (fieldsOf cells v)[n]? = none ∧ (fieldsOf cells' w)[n]? = none ∨
      ∃ name v' w', (fieldsOf cells v)[n]? = some (name, v') ∧
        (fieldsOf cells' w)[n]? = some (name, w') ∧ AgreeBelow (levels + 1) cells v' cells' w' := by
  have hfield := h [n] (by simp)
  have hpath : ∀ path : List Nat, path.length < levels + 1 →
      found? cells none (n :: path) v = found? cells' none (n :: path) w := by
    intro path hlength
    exact h (n :: path) (by simpa using hlength)
  simp only [found?] at hfield hpath
  cases hv : (fieldsOf cells v)[n]? with
  | none =>
    cases hw : (fieldsOf cells' w)[n]? with
    | none => exact .inl ⟨rfl, rfl⟩
    | some field' => simp [hv, hw] at hfield
  | some field =>
    cases hw : (fieldsOf cells' w)[n]? with
    | none => simp [hv, hw] at hfield
    | some field' =>
      obtain ⟨name, v'⟩ := field
      obtain ⟨name', w'⟩ := field'
      rw [hv, hw] at hfield hpath
      obtain ⟨rfl, hface⟩ : name = name' ∧ v'.face = w'.face := by simpa using hfield
      refine .inr ⟨name, v', w', rfl, rfl, fun path hlength => ?_⟩
      cases path with
      | nil => simp [found?, hface]
      | cons m path => exact hpath (m :: path) hlength

/-- Values that are the same by themselves are plain with the same text, the same text, or instances
of types of the same name. -/
theorem cases_of_face_eq (h : v.face = w.face) :
    (∃ text, v.plainText? = some text ∧ w.plainText? = some text) ∨
      (∃ text, v = .str text ∧ w = .str text) ∨
      ∃ type cell type' cell', v = .object type cell ∧ w = .object type' cell' ∧
        type.name = type'.name := by
  rcases v.plain_or_str_or_object with ⟨text, hplain⟩ | ⟨text, rfl⟩ | ⟨type, cell, rfl⟩
  · have hsame : v.plainText? = w.plainText? := by
      cases v <;> cases w <;> simp_all [face, plainText?]
    exact .inl ⟨text, hplain, hsame.symm.trans hplain⟩
  · cases w <;> simp_all [face]
  · cases w <;> simp_all [face]

/-- Values that agree as far as they are written out have the same text. -/
theorem AgreeBelow.displayWithin_eq (h : AgreeBelow (levels + 1) cells v cells' w) :
    v.displayWithin cells levels = w.displayWithin cells' levels := by
  induction levels generalizing v w with
  | zero =>
    rcases cases_of_face_eq h.face_eq with
      ⟨text, hv, hw⟩ | ⟨text, rfl, rfl⟩ | ⟨type, cell, type', cell', rfl, rfl, hname⟩
    · rw [displayWithin_plain hv, displayWithin_plain hw]
    · simp only [displayWithin]
    · simp only [displayWithin, hname]
  | succ levels ih =>
    rcases cases_of_face_eq h.face_eq with
      ⟨text, hv, hw⟩ | ⟨text, rfl, rfl⟩ | ⟨type, cell, type', cell', rfl, rfl, hname⟩
    · rw [displayWithin_plain hv, displayWithin_plain hw]
    · simp only [displayWithin]
    · have hfields : (fieldsOf cells (.object type cell)).map (fun field =>
          field.1 ++ ": " ++ field.2.displayWithin cells levels) =
          (fieldsOf cells' (.object type' cell')).map fun field =>
            field.1 ++ ": " ++ field.2.displayWithin cells' levels := by
        refine List.ext_getElem? fun n => ?_
        rw [List.getElem?_map, List.getElem?_map]
        rcases h.fields n with ⟨hv, hw⟩ | ⟨name, v', w', hv, hw, hagree⟩
        · rw [hv, hw]
          rfl
        · rw [hv, hw, Option.map_some, Option.map_some, ih hagree]
      rw [displayWithin_object, displayWithin_object, hname, hfields]

/-- Values that agree have the same text as they are printed. -/
theorem AgreeBelow.display_eq (h : AgreeBelow 9 cells v cells' w) :
    v.display cells = w.display cells' := by
  have hwithin : v.displayWithin cells displayLevels = w.displayWithin cells' displayLevels :=
    h.displayWithin_eq
  have hface := h.face_eq
  cases v <;> cases w <;> simp_all [face, display, inspect]

end Value

open Value in
/-- What is printed of a value follows from finitely many rules, in every heap: instances are
written out field by field at the first eight depths, and below only the name of their type is.
Values that agree on all that is reached by less than nine steps from instances to their fields are
printed in the same way, whatever the heaps. -/
theorem display_levels {κ : Type} (cells : Cells κ) (v : Value κ) :
    (∀ text, Shown cells 0 v text ↔ text = v.display cells) ∧
      ∀ (κ' : Type) (cells' : Cells κ') (w : Value κ'), AgreeBelow 9 cells v cells' w →
        v.display cells = w.display cells' :=
  ⟨shown_zero_iff v, fun _ _ _ h => h.display_eq⟩

open Value in
/-- An instance that holds itself is printed like one of two that hold each other. -/
theorem display_levels_circle :
    let type : StructType := ⟨0, "A", [⟨"b", .any⟩]⟩
    let type' : StructType := ⟨1, "A", [⟨"b", .any⟩]⟩
    let cells : Cells := #[[.object type 0]]
    let cells' : Cells := #[[.object type' 1], [.object type 0]]
    AgreeBelow 9 cells (.object type 0) cells' (.object type 0) ∧
      (object type 0 : Value).display cells = (object type 0 : Value).display cells' ∧
      (object type 0 : Value).display cells =
        "A(b: A(b: A(b: A(b: A(b: A(b: A(b: A(b: A(...)))))))))" := by
  intro type type' cells cells'
  have hfound : ∀ (path : List Nat) (name : Option String),
      found? cells name path (.object type 0) = found? cells' name path (.object type 0) ∧
      found? cells name path (.object type 0) = found? cells' name path (.object type' 1) := by
    intro path
    induction path with
    | nil => exact fun name => ⟨rfl, rfl⟩
    | cons n path ih =>
      intro name
      cases n with
      | zero => exact ⟨(ih (some "b")).2, (ih (some "b")).1⟩
      | succ n => exact ⟨rfl, rfl⟩
  have hagree : AgreeBelow 9 cells (.object type 0) cells' (.object type 0) :=
    fun path _ => (hfound path none).1
  exact ⟨hagree, (display_levels cells _).2 _ _ _ hagree, by decide⟩

end SnapshotScript
