import SnapshotScript.Value

/-!
# Frames of names

Names are bound in frames.  A frame has at most one parent, which is older than itself, and a name
that is not bound in a frame is looked for in its parent.

A function refers to the frame in which it was defined and has to see the values that the names had
then.  So the frame and all its ancestors are *captured*: they are never written to again.  The next
binding in a captured frame goes into a copy of it with the same parent, and the copy takes its
place from then on.
-/

namespace SnapshotScript

/-- Names with their values, each name once. -/
abbrev Bindings (κ : Type := FrameId) := List (String × Value κ)

namespace Bindings

variable {κ : Type}

/-- The value of a name. -/
def find? (name : String) : Bindings κ → Option (Value κ)
  | [] => none
  | (other, v) :: rest => if other = name then some v else find? name rest

/-- Binds a name, in place of its earlier binding if there is one. -/
def insert (name : String) (v : Value κ) : Bindings κ → Bindings κ
  | [] => [(name, v)]
  | (other, w) :: rest =>
    if other = name then (name, v) :: rest else (other, w) :: insert name v rest

/-- A name that has been bound has the value that it was bound to, and no other name changes. -/
theorem find?_insert (name other : String) (v : Value κ) (bs : Bindings κ) :
    find? other (insert name v bs) = if name = other then some v else find? other bs := by
  induction bs with
  | nil => simp [insert, find?]
  | cons b bs ih =>
    obtain ⟨n, w⟩ := b
    by_cases h : n = name
    · subst h
      by_cases h' : n = other <;> simp [insert, find?, h']
    · by_cases h' : n = other
      · subst h'
        simp [insert, find?, h, Ne.symm h]
      · simp [insert, find?, h, h', ih]

end Bindings

/-- A frame of names. -/
structure Frame where
  bindings : Bindings
  parent : Option FrameId
  captured : Bool

/-- All frames, numbered in the order in which they were made. -/
structure Scopes where
  frames : Array Frame

namespace Scopes

/-- No frames. -/
def empty : Scopes := ⟨#[]⟩

/-- Adds a frame. -/
def push (s : Scopes) (frame : Frame) : FrameId × Scopes :=
  (s.frames.size, ⟨s.frames.push frame⟩)

/-- Adds an empty frame without a parent. -/
def addRoot (s : Scopes) : FrameId × Scopes :=
  s.push ⟨[], none, false⟩

/-- Adds an empty frame below another. -/
def addChild (s : Scopes) (parent : FrameId) : FrameId × Scopes :=
  s.push ⟨[], some parent, false⟩

/-- The value of a name in a frame, without its ancestors. -/
def lookupHere (s : Scopes) (f : FrameId) (name : String) : Option Value :=
  match s.frames[f]? with
  | some frame => frame.bindings.find? name
  | none => none

/-- The value of a name in the first `count` frames from `f` upwards. -/
def lookupWithin (s : Scopes) : Nat → FrameId → String → Option Value
  | 0, _, _ => none
  | count + 1, f, name =>
    match s.frames[f]? with
    | none => none
    | some frame =>
      match frame.bindings.find? name with
      | some v => some v
      | none =>
        match frame.parent with
        | some parent => s.lookupWithin count parent name
        | none => none

/-- The value of a name in a frame or the nearest of its ancestors that binds it. -/
def lookup (s : Scopes) (f : FrameId) (name : String) : Option Value :=
  s.lookupWithin s.frames.size f name

/-- Binds a name and gives the frame that holds the binding: the frame itself, or a copy if it has
been captured. -/
def define (s : Scopes) (f : FrameId) (name : String) (v : Value) : FrameId × Scopes :=
  match s.frames[f]? with
  | none => (f, s)
  | some frame =>
    if frame.captured then
      s.push { frame with bindings := frame.bindings.insert name v, captured := false }
    else
      (f, ⟨s.frames.modify f fun frame => { frame with bindings := frame.bindings.insert name v }⟩)

/-- Binds names one after the other. -/
def defineAll (s : Scopes) (f : FrameId) : Bindings → FrameId × Scopes
  | [] => (f, s)
  | (name, v) :: rest =>
    let (f, s) := s.define f name v
    s.defineAll f rest

/-- Marks the first `count` frames from `f` upwards, up to one that is marked already. -/
def captureWithin (s : Scopes) : Nat → FrameId → Scopes
  | 0, _ => s
  | count + 1, f =>
    match s.frames[f]? with
    | none => s
    | some frame =>
      if frame.captured then s
      else
        let s : Scopes := ⟨s.frames.modify f fun frame => { frame with captured := true }⟩
        match frame.parent with
        | some parent => s.captureWithin count parent
        | none => s

/-- Marks a frame and its ancestors, so that they are never written to again. -/
def capture (s : Scopes) (f : FrameId) : Scopes :=
  s.captureWithin s.frames.size f

/-- Adds a frame without a parent in which the functions are bound that are there from the
beginning. -/
def addGlobals (s : Scopes) : FrameId × Scopes :=
  let (f, s) := s.addRoot
  s.defineAll f (Builtin.all.map fun b => (b.name, .builtin b))

end Scopes

end SnapshotScript
