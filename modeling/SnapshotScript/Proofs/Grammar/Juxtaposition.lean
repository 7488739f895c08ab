import SnapshotScript.Proofs.Printing.Phrases

/-!
# Programs in a row

A phrase at the end of the input does not become longer if further items follow: no token with which
an item begins goes on with a phrase, with one exception.  A `return` at the very end has no value,
and would take what follows as its value.

So where no `return` is the last token, the items of one program and then those of another one are
the items of all their tokens in a row (`Program.append`).
-/

namespace SnapshotScript

namespace Grammar

open Printing

variable {ts rest zs : List Token}

/-- Further items may follow the tokens `ts`: the tokens `zs` begin with one with which an item
begins, and no `return` stands before it. -/
structure Precedes (ts zs : List Token) : Prop where
  next_mem : next zs ∈ itemBeginnings
  last_ne : ∀ t ∈ ts.getLast?, t.kind ≠ .keyword .return

/-- What is left behind some of the tokens has the same end. -/
theorem Precedes.behind (h : Precedes ts zs) (hrest : Behind rest ts) : Precedes rest zs := by
  refine ⟨h.next_mem, fun t ht => h.last_ne t ?_⟩
  obtain ⟨before, rfl⟩ := hrest.suffix
  rw [List.getLast?_append, Option.mem_def.1 ht]
  rfl

/-- What is left behind the first token has the same end. -/
theorem Precedes.tail {t : Token} (h : Precedes (t :: ts) zs) : Precedes ts zs :=
  h.behind .head

section

variable (hzs : next zs ∈ itemBeginnings)

include hzs

/-! ### The next token -/

/-- The tokens with which items begin are not next if they follow. -/
theorem next_append_ne {k : Token.Kind} (hk : k ∉ itemBeginnings) (h : next rest ≠ k) :
    next (rest ++ zs) ≠ k := by
  cases rest with
  | nil =>
    rintro rfl
    exact hk hzs
  | cons t rest => exact h

/-- No operator is next if items follow. -/
theorem not_infix_append {N : Nonterminal} (h : ∀ o, ¬ Infix N (next rest) o)
    (o : BinaryOperator) : ¬ Infix N (next (rest ++ zs)) o := by
  cases rest with
  | nil =>
    intro ho
    rw [List.nil_append] at ho
    generalize next zs = k at hzs ho
    cases ho <;> exact absurd hzs (by decide)
  | cons t rest => exact h o

/-! ### Parts of phrases before items -/

theorem Members.followed {fields : List Token} (h : Members ts fields rest) :
    Members (ts ++ zs) fields (rest ++ zs) := by
  induction h with
  | done hnext => exact .done (next_append_ne hzs (by decide) hnext)
  | more hdot hfield _ ih => exact .more hdot hfield ih

end

theorem DefinedName.followed {name : Option String} (h : DefinedName ts name rest) :
    DefinedName (ts ++ zs) name (rest ++ zs) := by
  cases h with
  | absent => exact .absent
  | present hname => exact .present hname

theorem Parameter.followed {name : String} (h : Parameter ts name rest) :
    Parameter (ts ++ zs) name (rest ++ zs) := by
  cases h with
  | name hname => exact .name hname

theorem Tag.followed {tag : TypeTag} (h : Tag ts tag rest) : Tag (ts ++ zs) tag (rest ++ zs) := by
  cases h with
  | function hword => exact .function hword
  | null hword => exact .null hword
  | name hname => exact .name hname

theorem FieldDeclaration.followed {f : Field} (h : FieldDeclaration ts f rest) :
    FieldDeclaration (ts ++ zs) f (rest ++ zs) := by
  cases h with
  | untyped hname => exact .untyped hname
  | typed hname hcolon htag => exact .typed hname hcolon htag.followed

/-- A list in parentheses is the same before anything, if its items do not depend on what follows
them. -/
theorem Parenthesized.followed {α : Type} {Item : List Token → α → List Token → Prop} {as : List α}
    (hitem : ∀ {ts a rest}, Item ts a rest → Item (ts ++ zs) a (rest ++ zs))
    (h : Parenthesized Item ts as rest) : Parenthesized Item (ts ++ zs) as (rest ++ zs) := by
  cases h with
  | none hclose => exact .none hclose
  | some h =>
    refine .some ?_
    induction h with
    | last h hclose => exact .last (hitem h) hclose
    | more h hcomma _ ih => exact .more (hitem h) hcomma ih

/-! ### Phrases before items -/

mutual

/-- A phrase is the same with items behind it. -/
theorem Derives.followed {N : Nonterminal} {ts : List Token} {e : Expr} {rest : List Token} :
    Derives N ts e rest → Precedes ts zs → Derives N (ts ++ zs) e (rest ++ zs)
  | .assign hset hname hsign h, hts => .assign hset hname hsign (h.followed hts.tail.tail.tail)
  | .memberSet hset hname hpath hsign h, hts =>
    .memberSet hset hname (hpath.followed hts.next_mem) hsign
      (h.followed (hts.behind (hpath.behind Behind.head.cons)).tail)
  | .logical h h₁, hts => .logical (h.followed hts) (h₁.followed (hts.behind h.behind))
  | .not hword h, hts => .not hword (h.followed hts.tail)
  | .compare h ho h₁, hts => .compare (h.followed hts) ho (h₁.followed (hts.behind h.behind).tail)
  | .uncompared h hnext, hts => .uncompared (h.followed hts) (not_infix_append hts.next_mem hnext)
  | .sum h h₁, hts => .sum (h.followed hts) (h₁.followed (hts.behind h.behind))
  | .product h h₁, hts => .product (h.followed hts) (h₁.followed (hts.behind h.behind))
  | .signed hsign h, hts => .signed hsign (h.followed hts.tail)
  | .unsigned h, hts => .unsigned (h.followed hts)
  | .raised h hsign h₁, hts =>
    .raised (h.followed hts) hsign (h₁.followed (hts.behind h.behind).tail)
  | .unraised h hnext, hts =>
    .unraised (h.followed hts) (next_append_ne hts.next_mem (by decide) hnext)
  | .called h hbefore hparen harguments hafter, hts =>
    .called (h.followed hts) (hbefore.followed hts.next_mem) hparen
      (argumentsFollowed harguments (hts.behind (hbefore.behind h.behind)).tail)
      (hafter.followed hts.next_mem)
  | .uncalled h hfields hnext, hts =>
    .uncalled (h.followed hts) (hfields.followed hts.next_mem)
      (next_append_ne hts.next_mem (by decide) hnext)
  | .atom h, hts => .atom (h.followed rfl hts)

theorem Chain.followed {N : Nonterminal} {left : Expr} {ts : List Token} {e : Expr}
    {rest : List Token} :
    Chain N left ts e rest → Precedes ts zs → Chain N left (ts ++ zs) e (rest ++ zs)
  | .done hnext, hts => .done (not_infix_append hts.next_mem hnext)
  | .more ho h h₁, hts => .more ho (h.followed hts.tail) (h₁.followed (hts.tail.behind h.behind))

theorem DerivesArgument.followed {ts : List Token} {a : Argument Expr} {rest : List Token} :
    DerivesArgument ts a rest → Precedes ts zs → DerivesArgument (ts ++ zs) a (rest ++ zs)
  | .named hname hcolon h, hts => .named hname hcolon (h.followed hts.tail.tail)
  | .unnamed h, hts => .unnamed (h.followed hts)

theorem argumentsFollowed {ts : List Token} {arguments : List (Argument Expr)}
    {rest : List Token} : Parenthesized DerivesArgument ts arguments rest → Precedes ts zs →
      Parenthesized DerivesArgument (ts ++ zs) arguments (rest ++ zs)
  | .none hclose, _ => .none hclose
  | .some h, hts => .some (rowFollowed h hts)

theorem rowFollowed {ts : List Token} {arguments : List (Argument Expr)} {rest : List Token} :
    Row DerivesArgument ts arguments rest → Precedes ts zs →
      Row DerivesArgument (ts ++ zs) arguments (rest ++ zs)
  | .last h hclose, hts => .last (h.followed hts) hclose
  | .more h hcomma h₁, hts =>
    .more (h.followed hts) hcomma (rowFollowed h₁ (hts.behind h.behind).tail)

theorem Atom.followed {k : Token.Kind} {t : Token} {ts : List Token} {e : Expr}
    {rest : List Token} :
    Atom k t ts e rest → k = t.kind → Precedes (t :: ts) zs → Atom k t (ts ++ zs) e (rest ++ zs)
  | .constant h, _, _ => .constant h
  | .name, _, _ => .name
  | .group h hclose, _, hts => .group (h.followed hts.tail) hclose
  | .block h hclose hlength, _, hts => .block (h.followed hts.tail) hclose hlength
  | .choice h hword h₁ h₂, _, hts =>
    have hts₁ := (hts.tail.behind h.behind).tail
    .choice (h.followed hts.tail) hword (h₁.followed hts₁) (h₂.followed (hts₁.behind h₁.behind))
  | .forLoop hname hsign h hmark h₁ hword h₂, _, hts =>
    have hts₁ := (hts.tail.tail.tail.behind h.behind).tail
    .forLoop hname hsign (h.followed hts.tail.tail.tail) hmark (h₁.followed hts₁) hword
      (h₂.followed (hts₁.behind h₁.behind).tail)
  | .forLoopStep hname hsign h hmark h₁ hstep h₂ hword h₃, _, hts =>
    have hts₁ := (hts.tail.tail.tail.behind h.behind).tail
    have hts₂ := (hts₁.behind h₁.behind).tail
    .forLoopStep hname hsign (h.followed hts.tail.tail.tail) hmark (h₁.followed hts₁) hstep
      (h₂.followed hts₂) hword (h₃.followed (hts₂.behind h₂.behind).tail)
  | .whileLoop h hword h₁, _, hts =>
    .whileLoop (h.followed hts.tail) hword (h₁.followed (hts.tail.behind h.behind).tail)
  | .function hname hparen hparameters hdistinct harrow h, _, hts =>
    have hts₁ := (hts.behind (hname.behind .head)).tail
    .function hname.followed hparen (hparameters.followed Parameter.followed) hdistinct harrow
      (h.followed (hts₁.behind (hparameters.behind Parameter.behind)).tail)
  | .struct hname hparen hfields hdistinct, _, _ =>
    .struct hname.followed hparen (hfields.followed FieldDeclaration.followed) hdistinct
  | .returning h, _, hts => .returning (h.followed hts.tail)
  | @Atom.returningNothing t rest hnext, hk, hts => by
    refine .returningNothing ?_
    cases rest with
    | nil => exact absurd hk.symm (hts.last_ne t rfl)
    | cons _ _ => exact hnext

theorem Items.followed {ts : List Token} {items : List Expr} {rest : List Token} :
    Items ts items rest → Precedes ts zs → Items (ts ++ zs) items (rest ++ zs)
  | .done, _ => .done
  | .more h h₁, hts => .more (h.followed hts) (h₁.followed (hts.behind h.behind))

theorem Branches.followed {ts : List Token} {branches : List (Branch Expr)}
    {otherwise : Option Expr} {rest : List Token} : Branches ts branches otherwise rest →
      Precedes ts zs → Branches (ts ++ zs) branches otherwise (rest ++ zs)
  | .done heli hel, hts =>
    .done (next_append_ne hts.next_mem (by decide) heli)
      (next_append_ne hts.next_mem (by decide) hel)
  | .otherwise hword h, hts => .otherwise hword (h.followed hts.tail)
  | .noCondition hword hword' h, hts => .noCondition hword hword' (h.followed hts.tail.tail)
  | .emptyCondition hword h hword' h₁, hts =>
    .emptyCondition hword (h.followed hts.tail) hword'
      (h₁.followed (hts.tail.behind h.behind).tail)
  | .more hword h hcondition hword' h₁ h₂, hts =>
    have hts₁ := (hts.tail.behind h.behind).tail
    .more hword (h.followed hts.tail) hcondition hword' (h₁.followed hts₁)
      (h₂.followed (hts₁.behind h₁.behind))

end

/-! ### Programs -/

/-- Items and more items behind them are items. -/
theorem Items.trans {ts mid rest : List Token} {items items' : List Expr} :
    Items ts items mid → Items mid items' rest → Items ts (items ++ items') rest
  | .done, h' => h'
  | .more h h₁, h' => .more h (h₁.trans h')

/-- The tokens before the end of the input begin with the same token. -/
theorem next_takeWhile (ts : List Token) :
    next (ts.takeWhile (·.kind ≠ .endOfInput)) = next ts := by
  cases ts with
  | nil => rfl
  | cons t ts =>
    by_cases hkind : t.kind = .endOfInput
    · rw [List.takeWhile_cons_of_neg (by simp [hkind])]
      exact hkind.symm
    · rw [List.takeWhile_cons_of_pos (by simp [hkind])]
      rfl

/-- Two programs in a row are a program with the items of both.  The end of the first one gives way
to the tokens of the second one. -/
theorem Program.append {read ts : List Token} {last : Token} {items items' : List Expr}
    {p p' : Position} (h : Program (read ++ [last]) (.block items p))
    (h' : Program ts (.block items' p')) (hread : ∀ t ∈ read, t.kind ≠ .endOfInput)
    (hlast : last.kind = .endOfInput) (hprecedes : Precedes read ts) :
    ∃ q, Program (read ++ ts) (.block (items ++ items') q) := by
  obtain ⟨_, hitems, ⟨⟩⟩ := h
  obtain ⟨_, hitems', ⟨⟩⟩ := h'
  have htake : ∀ zs : List Token, (read ++ zs).takeWhile (·.kind ≠ .endOfInput) =
      read ++ zs.takeWhile (·.kind ≠ .endOfInput) := fun zs =>
    List.takeWhile_append_of_pos fun t ht => decide_eq_true (hread t ht)
  have hfirst : Precedes read (ts.takeWhile (·.kind ≠ .endOfInput)) :=
    ⟨(next_takeWhile ts).symm ▸ hprecedes.next_mem, hprecedes.last_ne⟩
  rw [htake, List.takeWhile_cons_of_neg (by simp [hlast]), List.append_nil] at hitems
  refine ⟨_, items ++ items', ?_, rfl⟩
  rw [htake]
  exact (hitems.followed hfirst).trans hitems'

end Grammar

end SnapshotScript
