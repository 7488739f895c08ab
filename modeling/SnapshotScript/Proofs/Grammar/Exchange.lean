import SnapshotScript.Proofs.Grammar.Beginnings

/-!
# What stands behind a phrase

Whether a phrase ends at a place depends on the kind of the token that is next there, and on nothing
behind it.  So the tokens behind a phrase may be exchanged for others that begin with a token of the
same kind, or with one that ends every phrase (`Derives.exchange`).
-/

namespace SnapshotScript

namespace Grammar

variable {rest rest' mid mid' ts ts' : List Token}

/-- A phrase that ends before the tokens `rest` also ends before `rest'`. -/
def Replaces (rest' rest : List Token) : Prop :=
  next rest' = next rest ∨ next rest' ∈ closers

/-- The tokens `ts'` are the tokens `ts` with `rest'` at the end in place of `rest`. -/
inductive Exchange (rest rest' : List Token) : List Token → List Token → Prop
  | here : Exchange rest rest' rest rest'
  | cons {t ts ts'} : Exchange rest rest' ts ts' → Exchange rest rest' (t :: ts) (t :: ts')

namespace Exchange

/-- An exchange within an exchange is an exchange. -/
theorem trans (h : Exchange mid mid' ts ts') (hmid : Exchange rest rest' mid mid') :
    Exchange rest rest' ts ts' := by
  induction h with
  | here => exact hmid
  | cons _ ih => exact .cons ih

/-- In an exchange the tokens in front stay. -/
theorem exists_append (h : Exchange rest rest' ts ts') :
    ∃ front, ts = front ++ rest ∧ ts' = front ++ rest' := by
  induction h with
  | here => exact ⟨[], rfl, rfl⟩
  | cons _ ih =>
    obtain ⟨front, rfl, rfl⟩ := ih
    exact ⟨_ :: front, rfl, rfl⟩

end Exchange

namespace Replaces

/-- What begins with the same token may replace it. -/
theorem cons {t : Token} : Replaces (t :: rest') (t :: rest) :=
  .inl rfl

/-- What is replaced may be replaced with more tokens in front. -/
theorem exchange (h : Replaces rest' rest) (hmid : Exchange rest rest' mid mid') :
    Replaces mid' mid := by
  cases hmid with
  | here => exact h
  | cons => exact .cons

/-- A token that does not end phrases is still not next behind a replacement. -/
theorem next_ne (h : Replaces rest' rest) {k : Token.Kind} (hk : k ∉ closers)
    (hnext : next rest ≠ k) : next rest' ≠ k := by
  rintro rfl
  rcases h with h | h
  · exact hnext h.symm
  · exact hk h

/-- Where no operator is next, none is next behind a replacement. -/
theorem not_infix (h : Replaces rest' rest) {N : Nonterminal}
    (hnext : ∀ o, ¬ Infix N (next rest) o) (o : BinaryOperator) : ¬ Infix N (next rest') o := by
  rcases h with h | h
  · rw [h]
    exact hnext o
  · exact not_infix_of_mem h N o

/-- No expression begins behind a replacement. -/
theorem not_mem_beginnings (h : Replaces rest' rest)
    (hnext : next rest ∉ Nonterminal.expression.beginnings) :
    next rest' ∉ Nonterminal.expression.beginnings := by
  have hclosers : ∀ k ∈ closers, k ∉ Nonterminal.expression.beginnings := by decide
  rcases h with h | h
  · rwa [h]
  · exact hclosers _ h

end Replaces

/-! ### Parts of phrases -/

theorem Members.exchange {fields : List Token} (h : Members ts fields rest)
    (hrest : Replaces rest' rest) :
    ∃ ts', Exchange rest rest' ts ts' ∧ Members ts' fields rest' := by
  induction h with
  | done hnext => exact ⟨_, .here, .done (hrest.next_ne (by decide) hnext)⟩
  | more hdot hfield _ ih =>
    obtain ⟨mid', hmid, h⟩ := ih hrest
    exact ⟨_, hmid.cons.cons, .more hdot hfield h⟩

theorem DefinedName.exchange {name : Option String} (h : DefinedName ts name rest)
    (rest' : List Token) : ∃ ts', Exchange rest rest' ts ts' ∧ DefinedName ts' name rest' := by
  cases h with
  | absent => exact ⟨_, .here, .absent⟩
  | present hname => exact ⟨_, .cons .here, .present hname⟩

theorem Parameter.exchange {name : String} (h : Parameter ts name rest) (rest' : List Token) :
    ∃ ts', Exchange rest rest' ts ts' ∧ Parameter ts' name rest' := by
  cases h with
  | name hname => exact ⟨_, .cons .here, .name hname⟩

theorem Tag.exchange {tag : TypeTag} (h : Tag ts tag rest) (rest' : List Token) :
    ∃ ts', Exchange rest rest' ts ts' ∧ Tag ts' tag rest' := by
  cases h with
  | function hword => exact ⟨_, .cons .here, .function hword⟩
  | null hword => exact ⟨_, .cons .here, .null hword⟩
  | name hname => exact ⟨_, .cons .here, .name hname⟩

theorem FieldDeclaration.exchange {f : Field} (h : FieldDeclaration ts f rest)
    (rest' : List Token) : ∃ ts', Exchange rest rest' ts ts' ∧ FieldDeclaration ts' f rest' := by
  cases h with
  | untyped hname => exact ⟨_, .cons .here, .untyped hname⟩
  | typed hname hcolon htag =>
    obtain ⟨ts', hts, htag⟩ := htag.exchange rest'
    exact ⟨_, hts.cons.cons, .typed hname hcolon htag⟩

section

variable {α : Type} {Item : List Token → α → List Token → Prop} {as : List α}
  (hitem : ∀ {ts a t rest rest'}, Item ts a (t :: rest) →
    ∃ ts', Exchange (t :: rest) (t :: rest') ts ts' ∧ Item ts' a (t :: rest'))

include hitem

/-- What stands behind a row may be exchanged, as each item ends before a token of the row. -/
theorem Row.exchange (h : Row Item ts as rest) (rest' : List Token) :
    ∃ ts', Exchange rest rest' ts ts' ∧ Row Item ts' as rest' := by
  induction h with
  | last h hclose =>
    obtain ⟨ts', hts, h⟩ := hitem h
    exact ⟨ts', hts.trans (.cons .here), .last h hclose⟩
  | more h hcomma _ ih =>
    obtain ⟨mid', hmid, hrow⟩ := ih
    obtain ⟨ts', hts, h⟩ := hitem h
    exact ⟨ts', hts.trans hmid.cons, .more h hcomma hrow⟩

theorem Parenthesized.exchange (h : Parenthesized Item ts as rest) (rest' : List Token) :
    ∃ ts', Exchange rest rest' ts ts' ∧ Parenthesized Item ts' as rest' := by
  cases h with
  | none hclose => exact ⟨_, .cons .here, .none hclose⟩
  | some h =>
    obtain ⟨ts', hts, h⟩ := h.exchange @hitem rest'
    exact ⟨ts', hts, .some h⟩

end

/-! ### Phrases -/

mutual

/-- What stands behind a phrase may be exchanged. -/
theorem Derives.exchange {N : Nonterminal} {ts : List Token} {e : Expr} {rest rest' : List Token} :
    Derives N ts e rest → Replaces rest' rest →
      ∃ ts', Exchange rest rest' ts ts' ∧ Derives N ts' e rest'
  | .assign hset hname hsign h, hrest =>
    let ⟨_, hts, h⟩ := h.exchange hrest
    ⟨_, hts.cons.cons.cons, .assign hset hname hsign h⟩
  | .memberSet hset hname hpath hsign h, hrest =>
    let ⟨_, hmid, h⟩ := h.exchange hrest
    let ⟨_, hts, hpath⟩ := hpath.exchange .cons
    ⟨_, (hts.trans hmid.cons).cons.cons, .memberSet hset hname hpath hsign h⟩
  | .logical h h₁, hrest =>
    let ⟨_, hmid, h₁⟩ := h₁.exchange hrest
    let ⟨_, hts, h⟩ := h.exchange (hrest.exchange hmid)
    ⟨_, hts.trans hmid, .logical h h₁⟩
  | .not hword h, hrest =>
    let ⟨_, hts, h⟩ := h.exchange hrest
    ⟨_, hts.cons, .not hword h⟩
  | .compare h ho h₁, hrest =>
    let ⟨_, hmid, h₁⟩ := h₁.exchange hrest
    let ⟨_, hts, h⟩ := h.exchange .cons
    ⟨_, hts.trans hmid.cons, .compare h ho h₁⟩
  | .uncompared h hnext, hrest =>
    let ⟨_, hts, h⟩ := h.exchange hrest
    ⟨_, hts, .uncompared h (hrest.not_infix hnext)⟩
  | .sum h h₁, hrest =>
    let ⟨_, hmid, h₁⟩ := h₁.exchange hrest
    let ⟨_, hts, h⟩ := h.exchange (hrest.exchange hmid)
    ⟨_, hts.trans hmid, .sum h h₁⟩
  | .product h h₁, hrest =>
    let ⟨_, hmid, h₁⟩ := h₁.exchange hrest
    let ⟨_, hts, h⟩ := h.exchange (hrest.exchange hmid)
    ⟨_, hts.trans hmid, .product h h₁⟩
  | .signed hsign h, hrest =>
    let ⟨_, hts, h⟩ := h.exchange hrest
    ⟨_, hts.cons, .signed hsign h⟩
  | .unsigned h, hrest =>
    let ⟨_, hts, h⟩ := h.exchange hrest
    ⟨_, hts, .unsigned h⟩
  | .raised h hsign h₁, hrest =>
    let ⟨_, hmid, h₁⟩ := h₁.exchange hrest
    let ⟨_, hts, h⟩ := h.exchange .cons
    ⟨_, hts.trans hmid.cons, .raised h hsign h₁⟩
  | .unraised h hnext, hrest =>
    let ⟨_, hts, h⟩ := h.exchange hrest
    ⟨_, hts, .unraised h (hrest.next_ne (by decide) hnext)⟩
  | .called h hbefore hparen harguments hafter, hrest =>
    let ⟨mid₂, hmid₂, hafter⟩ := hafter.exchange hrest
    let ⟨_, hmid₁, harguments⟩ := argumentsExchange mid₂ harguments
    let ⟨_, hmid, hbefore⟩ := hbefore.exchange .cons
    let ⟨_, hts, h⟩ := h.exchange (Replaces.cons.exchange hmid)
    ⟨_, hts.trans (hmid.trans (hmid₁.trans hmid₂).cons), .called h hbefore hparen harguments hafter⟩
  | .uncalled h hfields hnext, hrest =>
    let ⟨_, hmid, hfields⟩ := hfields.exchange hrest
    let ⟨_, hts, h⟩ := h.exchange (hrest.exchange hmid)
    ⟨_, hts.trans hmid, .uncalled h hfields (hrest.next_ne (by decide) hnext)⟩
  | .atom h, hrest =>
    let ⟨_, hts, h⟩ := h.exchange hrest
    ⟨_, hts.cons, .atom h⟩

theorem Chain.exchange {N : Nonterminal} {left : Expr} {ts : List Token} {e : Expr}
    {rest rest' : List Token} : Chain N left ts e rest → Replaces rest' rest →
      ∃ ts', Exchange rest rest' ts ts' ∧ Chain N left ts' e rest'
  | .done hnext, hrest => ⟨_, .here, .done (hrest.not_infix hnext)⟩
  | .more ho h h₁, hrest =>
    let ⟨_, hmid, h₁⟩ := h₁.exchange hrest
    let ⟨_, hts, h⟩ := h.exchange (hrest.exchange hmid)
    ⟨_, (hts.trans hmid).cons, .more ho h h₁⟩

theorem DerivesArgument.exchange {ts : List Token} {a : Argument Expr} {rest rest' : List Token} :
    DerivesArgument ts a rest → Replaces rest' rest →
      ∃ ts', Exchange rest rest' ts ts' ∧ DerivesArgument ts' a rest'
  | .named hname hcolon h, hrest =>
    let ⟨_, hts, h⟩ := h.exchange hrest
    ⟨_, hts.cons.cons, .named hname hcolon h⟩
  | .unnamed h, hrest =>
    let ⟨_, hts, h⟩ := h.exchange hrest
    ⟨_, hts, .unnamed h⟩

theorem argumentsExchange {ts : List Token} {arguments : List (Argument Expr)}
    {rest : List Token} (rest' : List Token) : Parenthesized DerivesArgument ts arguments rest →
      ∃ ts', Exchange rest rest' ts ts' ∧ Parenthesized DerivesArgument ts' arguments rest'
  | .none hclose => ⟨_, .cons .here, .none hclose⟩
  | .some h =>
    let ⟨_, hts, h⟩ := rowExchange rest' h
    ⟨_, hts, .some h⟩

theorem rowExchange {ts : List Token} {arguments : List (Argument Expr)} {rest : List Token}
    (rest' : List Token) : Row DerivesArgument ts arguments rest →
      ∃ ts', Exchange rest rest' ts ts' ∧ Row DerivesArgument ts' arguments rest'
  | .last h hclose =>
    let ⟨_, hts, h⟩ := h.exchange .cons
    ⟨_, hts.trans (.cons .here), .last h hclose⟩
  | .more h hcomma h₁ =>
    let ⟨_, hmid, h₁⟩ := rowExchange rest' h₁
    let ⟨_, hts, h⟩ := h.exchange .cons
    ⟨_, hts.trans hmid.cons, .more h hcomma h₁⟩

theorem Atom.exchange {k : Token.Kind} {t : Token} {ts : List Token} {e : Expr}
    {rest rest' : List Token} : Atom k t ts e rest → Replaces rest' rest →
      ∃ ts', Exchange rest rest' ts ts' ∧ Atom k t ts' e rest'
  | .constant h, _ => ⟨_, .here, .constant h⟩
  | .name, _ => ⟨_, .here, .name⟩
  | .group h hclose, _ =>
    let ⟨_, hts, h⟩ := h.exchange .cons
    ⟨_, hts.trans (.cons .here), .group h hclose⟩
  | .block h hclose hlength, _ =>
    let ⟨_, hts, h⟩ := h.exchange .cons
    ⟨_, hts.trans (.cons .here), .block h hclose hlength⟩
  | .choice h hword h₁ h₂, hrest =>
    let ⟨_, hmid₁, h₂⟩ := h₂.exchange hrest
    let ⟨_, hmid, h₁⟩ := h₁.exchange (hrest.exchange hmid₁)
    let ⟨_, hts, h⟩ := h.exchange .cons
    ⟨_, hts.trans (hmid.trans hmid₁).cons, .choice h hword h₁ h₂⟩
  | .forLoop hname hsign h hmark h₁ hword h₂, hrest =>
    let ⟨_, hmid₁, h₂⟩ := h₂.exchange hrest
    let ⟨_, hmid, h₁⟩ := h₁.exchange .cons
    let ⟨_, hts, h⟩ := h.exchange .cons
    ⟨_, (hts.trans (hmid.trans hmid₁.cons).cons).cons.cons,
      .forLoop hname hsign h hmark h₁ hword h₂⟩
  | .forLoopStep hname hsign h hmark h₁ hstep h₂ hword h₃, hrest =>
    let ⟨_, hmid₂, h₃⟩ := h₃.exchange hrest
    let ⟨_, hmid₁, h₂⟩ := h₂.exchange .cons
    let ⟨_, hmid, h₁⟩ := h₁.exchange .cons
    let ⟨_, hts, h⟩ := h.exchange .cons
    ⟨_, (hts.trans (hmid.trans (hmid₁.trans hmid₂.cons).cons).cons).cons.cons,
      .forLoopStep hname hsign h hmark h₁ hstep h₂ hword h₃⟩
  | .whileLoop h hword h₁, hrest =>
    let ⟨_, hmid, h₁⟩ := h₁.exchange hrest
    let ⟨_, hts, h⟩ := h.exchange .cons
    ⟨_, hts.trans hmid.cons, .whileLoop h hword h₁⟩
  | .function hname hparen hparameters hdistinct harrow h, hrest =>
    let ⟨mid₂, hmid₂, h⟩ := h.exchange hrest
    let ⟨_, hmid₁, hparameters⟩ :=
      hparameters.exchange (fun h => h.exchange _) (_ :: mid₂)
    let ⟨_, hts, hname⟩ := hname.exchange (_ :: _)
    ⟨_, hts.trans (hmid₁.trans hmid₂.cons).cons,
      .function hname hparen hparameters hdistinct harrow h⟩
  | .struct hname hparen hfields hdistinct, _ =>
    let ⟨_, hmid, hfields⟩ := hfields.exchange (fun h => h.exchange _) _
    let ⟨_, hts, hname⟩ := hname.exchange (_ :: _)
    ⟨_, hts.trans hmid.cons, .struct hname hparen hfields hdistinct⟩
  | .returning h, hrest =>
    let ⟨_, hts, h⟩ := h.exchange hrest
    ⟨_, hts, .returning h⟩
  | .returningNothing hnext, hrest =>
    ⟨_, .here, .returningNothing (hrest.not_mem_beginnings hnext)⟩

theorem Items.exchange {ts : List Token} {items : List Expr} {rest rest' : List Token} :
    Items ts items rest → Replaces rest' rest →
      ∃ ts', Exchange rest rest' ts ts' ∧ Items ts' items rest'
  | .done, _ => ⟨_, .here, .done⟩
  | .more h h₁, hrest =>
    let ⟨_, hmid, h₁⟩ := h₁.exchange hrest
    let ⟨_, hts, h⟩ := h.exchange (hrest.exchange hmid)
    ⟨_, hts.trans hmid, .more h h₁⟩

theorem Branches.exchange {ts : List Token} {branches : List (Branch Expr)}
    {otherwise : Option Expr} {rest rest' : List Token} :
    Branches ts branches otherwise rest → Replaces rest' rest →
      ∃ ts', Exchange rest rest' ts ts' ∧ Branches ts' branches otherwise rest'
  | .done heli hel, hrest =>
    ⟨_, .here, .done (hrest.next_ne (by decide) heli) (hrest.next_ne (by decide) hel)⟩
  | .otherwise hword h, hrest =>
    let ⟨_, hts, h⟩ := h.exchange hrest
    ⟨_, hts.cons, .otherwise hword h⟩
  | .noCondition hword hword' h, hrest =>
    let ⟨_, hts, h⟩ := h.exchange hrest
    ⟨_, hts.cons.cons, .noCondition hword hword' h⟩
  | .emptyCondition hword h hword' h₁, hrest =>
    let ⟨_, hmid, h₁⟩ := h₁.exchange hrest
    let ⟨_, hts, h⟩ := h.exchange .cons
    ⟨_, (hts.trans hmid.cons).cons, .emptyCondition hword h hword' h₁⟩
  | .more hword h hcondition hword' h₁ h₂, hrest =>
    let ⟨_, hmid₁, h₂⟩ := h₂.exchange hrest
    let ⟨_, hmid, h₁⟩ := h₁.exchange (hrest.exchange hmid₁)
    let ⟨_, hts, h⟩ := h.exchange .cons
    ⟨_, (hts.trans (hmid.trans hmid₁).cons).cons, .more hword h hcondition hword' h₁ h₂⟩

end

end Grammar

end SnapshotScript
