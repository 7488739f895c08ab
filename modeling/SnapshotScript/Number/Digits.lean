/-!
# Decimal digits

Natural numbers as lists of decimal digits, in both directions.
-/

namespace SnapshotScript

/-- The ASCII digits. -/
def isDigit (c : Char) : Bool :=
  c.isDigit

/-- The number that a digit denotes. -/
def digitValue (c : Char) : Nat :=
  c.toNat - '0'.toNat

/-- The digits of a number in the given base, the lowest one first, joined two by two to digits in
the square of the base.  `joined` holds those joined so far in reverse. -/
def joinPairs (base : Nat) (joined : List Nat) : List Nat → List Nat
  | low :: high :: rest => joinPairs base ((low + base * high) :: joined) rest
  | rest => joined.reverse ++ rest

/-- The number with the given digits in the given base, the lowest one first.  They are joined two
by two, at most `rounds` times, so that long numbers are multiplied by others of their length. -/
def ofDigits : Nat → Nat → List Nat → Nat
  | 0, base, digits => digits.foldr (fun d n => d + base * n) 0
  | rounds + 1, base, digits =>
    match digits with
    | [] => 0
    | [d] => d
    | digits => ofDigits rounds (base * base) (joinPairs base [] digits)

/-- The number that a list of decimal digits denotes. -/
def decimalValue (digits : List Char) : Nat :=
  ofDigits digits.length 10 (digits.reverse.map digitValue)

/-- The decimal digits of a number, without leading zeros; those of zero are a single zero. -/
def decimalDigits (n : Nat) : List Char :=
  Nat.toDigits 10 n

/-- How many decimal digits a number has; zero has none. -/
def digitCount (n : Nat) : Nat :=
  if n = 0 then 0 else digitCount (n / 10) + 1
termination_by n

/-- A run of zeros. -/
def zeros (count : Nat) : List Char :=
  List.replicate count '0'

/-! ### The value of digits -/

theorem joinPairs_eq (base : Nat) (joined digits : List Nat) :
    joinPairs base joined digits = joined.reverse ++ joinPairs base [] digits := by
  match digits with
  | [] => simp [joinPairs]
  | [d] => simp [joinPairs]
  | low :: high :: rest =>
    simp only [joinPairs]
    rw [joinPairs_eq base ((low + base * high) :: joined) rest,
      joinPairs_eq base [low + base * high] rest]
    simp

/-- Joining digits two by two does not change the number. -/
theorem foldr_joinPairs (base : Nat) (digits : List Nat) :
    (joinPairs base [] digits).foldr (fun d n => d + base * base * n) 0 =
      digits.foldr (fun d n => d + base * n) 0 := by
  match digits with
  | [] => rfl
  | [d] => simp [joinPairs]
  | low :: high :: rest =>
    have ih := foldr_joinPairs base rest
    simp only [joinPairs, List.foldr_cons]
    rw [joinPairs_eq]
    simp only [List.reverse_cons, List.reverse_nil, List.nil_append, List.singleton_append,
      List.foldr_cons, ih]
    rw [Nat.mul_add, Nat.mul_assoc, Nat.add_assoc]

/-- The digits count by their places. -/
theorem ofDigits_eq (rounds base : Nat) (digits : List Nat) :
    ofDigits rounds base digits = digits.foldr (fun d n => d + base * n) 0 := by
  induction rounds generalizing base digits with
  | zero => rfl
  | succ rounds ih =>
    match digits with
    | [] => rfl
    | [d] => simp [ofDigits]
    | low :: high :: rest =>
      simp only [ofDigits]
      rw [ih, foldr_joinPairs]

@[simp] theorem decimalValue_nil : decimalValue [] = 0 := rfl

/-- A digit at the end counts once, and the digits before it ten times. -/
theorem decimalValue_concat (cs : List Char) (c : Char) :
    decimalValue (cs ++ [c]) = 10 * decimalValue cs + digitValue c := by
  simp [decimalValue, ofDigits_eq, Nat.add_comm]

/-! ### The digits of a number -/

theorem decimalDigits_ne_nil (n : Nat) : decimalDigits n ≠ [] :=
  Nat.toDigits_ne_nil

theorem isDigit_of_mem_decimalDigits {n : Nat} {c : Char} (h : c ∈ decimalDigits n) :
    isDigit c = true :=
  Nat.isDigit_of_mem_toDigits (by decide) (by decide) h

/-- The digits of a number denote it. -/
theorem decimalValue_decimalDigits (n : Nat) : decimalValue (decimalDigits n) = n := by
  have hdigit : ∀ d, d < 10 → digitValue d.digitChar = d := by decide
  induction n using Nat.strongRecOn with
  | ind n ih =>
    rw [decimalDigits, Nat.toDigits_eq_if (by decide)]
    split
    · next hlt => exact (decimalValue_concat [] _).trans (by rw [hdigit n hlt]; simp)
    · next hle =>
      have hshorter := ih (n / 10) (by omega)
      rw [decimalDigits] at hshorter
      rw [decimalValue_concat, hshorter, hdigit (n % 10) (by omega)]
      omega

end SnapshotScript
