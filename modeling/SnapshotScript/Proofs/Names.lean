import SnapshotScript.Proofs.Failure.Places
import SnapshotScript.Proofs.Occurrence

/-!
# Names are no reserved words

Where a program gives a name to something, the name is an identifier of its text, and no identifier
is a reserved word.  The struct types of a run have their names from its programs, so no reserved
word is the name of a struct type (`unreserved_passes`).
-/

namespace SnapshotScript

/-- The name is no reserved word. -/
def Unreserved (name : String) : Prop :=
  ∀ k : Keyword, name ≠ k.word

/-! ### Programs -/

namespace Lexical

/-- Identifiers are no reserved words. -/
theorem Lexeme.unreserved {lexeme content : List Char} (h : Lexeme .identifier lexeme content) :
    Unreserved (String.ofList content) := by
  cases h with
  | identifier _ _ hword => exact fun k heq => hword k (by rw [← heq, String.toList_ofList])
  | symbol hmem => exact absurd hmem (by decide)

/-- No identifier of a text is a reserved word. -/
theorem Tokenizes.unreserved {before text : List Char} {result : Except LexError (List Token)}
    (h : Tokenizes before text result) :
    ∀ tokens, result = .ok tokens → ∀ t ∈ tokens, t.kind = .identifier → Unreserved t.text := by
  intro tokens htokens t ht hkind
  have hread : t.kind ≠ .endOfInput := by
    rw [hkind]
    decide
  obtain ⟨read, k, lexeme, content, rest, -, haccepted, rfl⟩ :=
    h.exists_accepted tokens htokens t ht hread
  obtain rfl : k = .identifier := hkind
  exact haccepted.isLexeme.unreserved

end Lexical

/-- No name that is bound anywhere in the expression is a reserved word. -/
abbrev Expr.Unreserved (e : Expr) : Prop :=
  e.Everywhere fun n => ∀ name ∈ n.bound, SnapshotScript.Unreserved name

/-- Programs that are read from texts bind no reserved words. -/
theorem unreserved_of_parseSource {source : String} {program : Expr}
    (h : parseSource source = .ok program) : program.Unreserved := by
  obtain ⟨tokens, htokens, hparse⟩ := parseSource_eq_ok_iff.1 h
  obtain ⟨items, hitems, rfl⟩ := derived_of_parseTokens hparse
  have htexts := (Lexical.tokenizes_of_tokenize htokens).unreserved tokens rfl
  have hread : ∀ t ∈ tokens.takeWhile (·.kind ≠ .endOfInput), t.kind = .identifier →
      Unreserved t.text := fun t ht => htexts t ((List.takeWhile_prefix _).subset ht)
  refine .node nofun fun item hitem => ?_
  refine (hitems.drawn hread item hitem).mono fun n hn name hname => ?_
  obtain ⟨t, ht, hkind, rfl⟩ := hn.names name hname
  exact ht hkind

/-! ### Values -/

/-- The name of the struct is no reserved word, nor is any name that the body of a function
binds. -/
def Value.Unreserved : Value → Prop
  | .structType type | .object type _ => SnapshotScript.Unreserved type.name
  | .function f => f.body.Unreserved
  | _ => True

/-- An expression that binds no reserved word gives none to a struct. -/
theorem Expr.Declares.unreserved {e : Expr} {name : String} {fields : List Field}
    (h : e.Declares name fields) (he : e.Unreserved) : SnapshotScript.Unreserved name := by
  have hbound := he.root
  cases h with
  | @struct name =>
    cases name with
    | none => exact fun k => by cases k <;> decide
    | some name => exact hbound name List.mem_cons_self
  | assign => exact hbound name List.mem_cons_self

/-- Of code that binds no reserved words only values come that have none as names. -/
theorem unreserved_passes : Passes Expr.Unreserved Value.Unreserved where
  inner he hc := by
    cases he with
    | node _ hchildren => exact hchildren _ hc
  plain {v} hv := by cases v <;> first | exact hv.elim | trivial
  struct _ he h := h.unreserved he
  object _ h := h
  function := Iff.rfl

end SnapshotScript
