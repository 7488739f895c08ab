import SnapshotScript.Number.Decimal

/-!
# Numerals

The written forms of numbers that a program can read and write.  An integer numeral is an optional
sign and digits.  A numeral of a floating-point number is an optional sign and either a name of
infinity or of no number, in any case, or digits with an optional point among them and an optional
exponent.  An exponent that has reached `exponentCap` does not grow any more.

A floating-point number is written so that it reads as one: whole numbers below `10 ^ 15` have one
place after the point, larger numbers and those below `10 ^ (-7)` have an exponent, and all others
the fewest digits from which they can be read back.
-/

namespace SnapshotScript

/-! ### Reading -/

/-- Takes a sign off a numeral; the first component tells whether it is a minus. -/
def splitSign : List Char → Bool × List Char
  | '-' :: cs => (true, cs)
  | '+' :: cs => (false, cs)
  | cs => (false, cs)

/-- The number that a nonempty list of digits denotes. -/
def readDigits? (cs : List Char) : Option Nat :=
  if cs ≠ [] ∧ cs.all isDigit then some (decimalValue cs) else none

/-- Reads an integer numeral of any size. -/
def readInteger? (cs : List Char) : Option Int :=
  let (negative, digits) := splitSign cs
  (readDigits? digits).map fun n => if negative then -(n : Int) else n

/-- Where the size of an exponent stops growing. -/
def exponentCap : Nat := Nat.pow 2 16

/-- The size of an exponent with the given digits.  Once those read denote a number that is not
below `exponentCap`, the others have no effect. -/
def exponentSize (digits : List Char) : Nat :=
  digits.foldl (fun n c => if n < exponentCap then 10 * n + digitValue c else n) 0

/-- Reads the exponent of a numeral: nothing, or a letter, an optional sign and digits. -/
def readExponent? : List Char → Option Int
  | [] => some 0
  | c :: cs =>
    if c = 'e' ∨ c = 'E' then
      let (negative, digits) := splitSign cs
      if digits ≠ [] ∧ digits.all isDigit then
        some (if negative then -(exponentSize digits : Int) else exponentSize digits)
      else none
    else none

/-- Reads digits, an optional point with more digits, and an optional exponent.  There has to be a
digit before or after the point. -/
def readDecimal? (cs : List Char) : Option Decimal :=
  let whole := cs.takeWhile isDigit
  let (fraction, rest) :=
    match cs.dropWhile isDigit with
    | '.' :: more => (more.takeWhile isDigit, more.dropWhile isDigit)
    | more => ([], more)
  if whole ++ fraction = [] then none
  else (readExponent? rest).map fun exponent =>
    ⟨decimalValue (whole ++ fraction), exponent - fraction.length⟩

/-- Reads the numeral of a floating-point number.  A decimal is rounded to the nearest one. -/
def readFloat? (cs : List Char) : Option Float :=
  let (negative, rest) := splitSign cs
  let name := rest.map Char.toLower
  if name = "inf".toList ∨ name = "infinity".toList then
    some (Binary64.infinite negative).toFloat
  else if name = "nan".toList then some Binary64.nan.toFloat
  else (readDecimal? rest).map fun d => Binary64.withSign negative d.toField

/-! ### Writing -/

/-- A minus for negative numbers. -/
def signText (negative : Bool) : String :=
  if negative then "-" else ""

/-- The least whole number that is written with an exponent. -/
def exponentFrom : Nat := Nat.pow 10 15

/-- The least positive number that is written without an exponent. -/
def positionalFrom : Float := 1e-7

/-- The digits of a finite number without its sign. -/
def finiteText (field : Nat) : String :=
  let units := Binary64.magnitude field
  if units % Binary64.unitsPerOne = 0 ∧ units < exponentFrom * Binary64.unitsPerOne then
    toString (units / Binary64.unitsPerOne) ++ ".0"
  else if exponentFrom * Binary64.unitsPerOne ≤ units
      ∨ Binary64.withSign false field < positionalFrom then
    String.ofList (Decimal.shortest field).scientific
  else
    String.ofList (Decimal.shortest field).positional

/-- The written form of a floating-point number. -/
def floatText (x : Float) : String :=
  match Binary64.ofFloat x with
  | .nan => "NaN"
  | .infinite negative => signText negative ++ "inf"
  | .finite negative field => signText negative ++ finiteText field

/-- The written form of a floating-point number without an exponent, however many digits it
takes. -/
def plainFloatText (x : Float) : String :=
  match Binary64.ofFloat x with
  | .nan => "NaN"
  | .infinite negative => signText negative ++ "inf"
  | .finite negative field =>
    signText negative ++ String.ofList (Decimal.shortest field).positional

end SnapshotScript
