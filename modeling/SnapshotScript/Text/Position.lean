/-!
# Positions in a text

A position is a line and a column, both counted from one.  Columns count characters, and only a
line feed starts a new line.
-/

namespace SnapshotScript

/-- A place in a text, between two characters. -/
structure Position where
  /-- The line, counted from one. -/
  line : Nat
  /-- The column, counted in characters from one. -/
  column : Nat
deriving DecidableEq, Repr, Inhabited

namespace Position

/-- The position before the first character of a text. -/
def start : Position := ⟨1, 1⟩

/-- The position after the character `c` that stands at `p`. -/
def advance (p : Position) (c : Char) : Position :=
  if c = '\n' then ⟨p.line + 1, 1⟩ else ⟨p.line, p.column + 1⟩

/-- The position after all characters of `cs`, which begin at `p`. -/
def advanceAll (p : Position) (cs : List Char) : Position :=
  cs.foldl advance p

/-- The written form of a position. -/
def text (p : Position) : String :=
  s!"[line {p.line} column {p.column}]"

/-! ### Moving over a text -/

@[simp] theorem advanceAll_nil (p : Position) : p.advanceAll [] = p := rfl

@[simp] theorem advanceAll_cons (p : Position) (c : Char) (cs : List Char) :
    p.advanceAll (c :: cs) = (p.advance c).advanceAll cs := rfl

theorem advanceAll_append (p : Position) (cs ds : List Char) :
    p.advanceAll (cs ++ ds) = (p.advanceAll cs).advanceAll ds :=
  List.foldl_append

end Position

end SnapshotScript
