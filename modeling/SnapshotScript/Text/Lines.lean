/-!
# Lines of a text

A line feed ends a line, together with a carriage return right before it.  Text after the last
line feed is one more line, and a carriage return at its end belongs to it.
-/

namespace SnapshotScript

/-- What is left of a text after its first `n` line feeds. -/
def dropLines : Nat → List Char → List Char
  | 0, cs => cs
  | n + 1, cs => dropLines n (cs.dropWhile (· ≠ '\n')).tail

/-- Takes a carriage return off the end of a line. -/
def dropReturn (cs : List Char) : List Char :=
  if cs.getLast? = some '\r' then cs.dropLast else cs

/-- The line with the given number, counted from zero, without its line ending.  There is none
after the last line, and the empty text has no lines. -/
def line? (number : Nat) (text : List Char) : Option (List Char) :=
  match dropLines number text with
  | [] => none
  | rest =>
    let line := rest.takeWhile (· ≠ '\n')
    some (if line.length < rest.length then dropReturn line else line)

/-! ### Records of bytes -/

/-- The byte of a line feed. -/
def lineFeed : UInt8 := 10

/-- The byte of a carriage return. -/
def carriageReturn : UInt8 := 13

/-- The lines of a stream of bytes, by the same rule as for a text.  `line` holds the bytes of the
unfinished line and `lines` the finished lines, both in reverse. -/
def byteLinesFrom (line : List UInt8) (lines : List (List UInt8)) :
    List UInt8 → List (List UInt8)
  | [] => (if line.isEmpty then lines else line.reverse :: lines).reverse
  | b :: bs =>
    if b = lineFeed then
      let ended := if line.head? = some carriageReturn then line.tail else line
      byteLinesFrom [] (ended.reverse :: lines) bs
    else
      byteLinesFrom (b :: line) lines bs

/-- The lines of a stream of bytes. -/
def byteLines (bytes : List UInt8) : List (List UInt8) :=
  byteLinesFrom [] [] bytes

/-- The text that the bytes encode as UTF-8, if they encode one. -/
def decodeText? (bytes : List UInt8) : Option String :=
  String.fromUTF8? bytes.toByteArray

/-- The reason why bytes that encode no text cannot be read. -/
def invalidText : String := "stream did not contain valid UTF-8"

end SnapshotScript
