import SnapshotScript.Proofs.Grammar.Properties
import SnapshotScript.Tree.Children

/-!
# What trees are made of

The nodes of a tree stand where tokens of its phrase begin, the names that they bind are
identifiers of the phrase, and the constants are those of its tokens.  So what holds of all tokens
of a phrase tells something of all nodes of its tree (`Derives.drawn`).
-/

namespace SnapshotScript

/-- The names that an expression binds itself, apart from the parameters of a function. -/
def Expr.bound : Expr → List String
  | .assign name .. | .forLoop name .. => [name]
  | .function name .. | .struct name .. => name.toList
  | _ => []

namespace Grammar

/-- The node stands at a token of which `T` holds, it binds names that are identifiers of which `T`
holds, the fields that it declares have distinct names, and if it is a constant, its value is that
of a token at the same place of which `T` holds. -/
structure Drawn (T : Token → Prop) (n : Expr) : Prop where
  place : ∃ t, T t ∧ n.position = t.first
  names : ∀ name ∈ n.bound, ∃ t, T t ∧ t.kind = .identifier ∧ t.text = name
  fields : ∀ name fields position, n = .struct name fields position →
    (fields.map Field.name).Nodup
  constants : ∀ v position, n = .literal v position →
    ∃ t, T t ∧ position = t.first ∧ Constant t.kind t.text v

/-- The node neither declares fields nor is a constant. -/
def Composite : Expr → Prop
  | .struct .. | .literal .. => False
  | _ => True

variable {T : Token → Prop} {t : Token} {ts rest : List Token} {n e : Expr}

/-- A node that binds no names is drawn from the token at its place. -/
theorem Drawn.plain (ht : T t) (hplace : n.position = t.first) (hbound : n.bound = [])
    (hcomposite : Composite n) : Drawn T n where
  place := ⟨t, ht, hplace⟩
  names := by simp [hbound]
  fields := by
    rintro _ _ _ rfl
    exact hcomposite.elim
  constants := by
    rintro _ _ rfl
    exact hcomposite.elim

/-- A node that binds one name is drawn from the token at its place and an identifier. -/
theorem Drawn.binder {name : Token} (ht : T t) (hplace : n.position = t.first) (hname : T name)
    (hkind : name.kind = .identifier) (hbound : n.bound = [name.text])
    (hcomposite : Composite n) : Drawn T n where
  place := ⟨t, ht, hplace⟩
  names := by simpa [hbound] using ⟨name, hname, hkind, rfl⟩
  fields := by
    rintro _ _ _ rfl
    exact hcomposite.elim
  constants := by
    rintro _ _ rfl
    exact hcomposite.elim

/-! ### Parts of phrases -/

/-- What holds of the tokens holds of those that are left. -/
theorem forall_mem_behind (hts : ∀ t ∈ ts, T t) (hrest : Behind rest ts) : ∀ t ∈ rest, T t :=
  fun t ht => hts t (hrest.suffix.subset ht)

/-- What holds of the tokens holds of the names of members, and of those that are left. -/
theorem Members.forall_mem {fields : List Token} (h : Members ts fields rest)
    (hts : ∀ t ∈ ts, T t) : (∀ t ∈ fields, T t) ∧ ∀ t ∈ rest, T t := by
  induction h with
  | done => exact ⟨nofun, hts⟩
  | more _ _ _ ih =>
    obtain ⟨-, htail⟩ := List.forall_mem_cons.1 hts
    obtain ⟨hfield, htail⟩ := List.forall_mem_cons.1 htail
    obtain ⟨hmore, hrest⟩ := ih htail
    exact ⟨List.forall_mem_cons.2 ⟨hfield, hmore⟩, hrest⟩

/-- The name of a definition is an identifier among the tokens. -/
theorem DefinedName.forall_mem {name : Option String} (h : DefinedName ts name rest)
    (hts : ∀ t ∈ ts, T t) :
    (∀ text ∈ name.toList, ∃ t, T t ∧ t.kind = .identifier ∧ t.text = text) ∧
      ∀ t ∈ rest, T t := by
  cases h with
  | absent => exact ⟨by simp, hts⟩
  | present hkind =>
    obtain ⟨hname, htail⟩ := List.forall_mem_cons.1 hts
    exact ⟨by simpa using ⟨_, hname, hkind, rfl⟩, htail⟩

/-- A name stands at its token. -/
theorem identifier_drawn {name : String} (ht : T t) :
    (Expr.identifier name t.first).Everywhere (Drawn T) :=
  .leaf (.plain ht rfl rfl trivial) rfl

/-- A call stands where the expression stands that is called. -/
theorem call_drawn {arguments : List (Argument Expr)} (h : e.Everywhere (Drawn T))
    (harguments : ∀ a ∈ arguments, a.value.Everywhere (Drawn T)) :
    (Expr.call e arguments e.position).Everywhere (Drawn T) := by
  obtain ⟨t, ht, hplace⟩ := h.root.place
  exact .node (.plain ht hplace rfl trivial) (Expr.forall_children_call.2 ⟨h, harguments⟩)

/-- Members of an expression stand at their names. -/
theorem select_drawn (h : e.Everywhere (Drawn T)) {fields : List Token}
    (hfields : ∀ t ∈ fields, T t) : (select e fields).Everywhere (Drawn T) := by
  induction fields generalizing e with
  | nil => exact h
  | cons field fields ih =>
    obtain ⟨hfield, hfields⟩ := List.forall_mem_cons.1 hfields
    have hmember : (Expr.member e field.text field.first).Everywhere (Drawn T) :=
      .node (.plain hfield rfl rfl trivial) (by simpa [Expr.children] using h)
    exact ih hmember hfields

/-! ### Phrases -/

mutual

/-- The tree of a phrase is made of its tokens. -/
theorem Derives.drawn {N : Nonterminal} {ts : List Token} {e : Expr} {rest : List Token} :
    Derives N ts e rest → (∀ t ∈ ts, T t) → e.Everywhere (Drawn T)
  | .assign _ hname _ h, hts => by
    simp only [List.forall_mem_cons] at hts
    obtain ⟨hset, hidentifier, -, hvalue⟩ := hts
    exact .node (.binder hset rfl hidentifier hname rfl trivial)
      (by simpa [Expr.children] using h.drawn hvalue)
  | .memberSet _ _ hmembers _ h, hts => by
    simp only [List.forall_mem_cons] at hts
    obtain ⟨hset, hidentifier, hts⟩ := hts
    obtain ⟨hfields, hrest⟩ := hmembers.forall_mem hts
    have hpath := fun t ht => hfields t (List.mem_append_left _ ht)
    refine .node (.plain hset rfl rfl trivial) (List.forall_mem_cons.2 ⟨?_, ?_⟩)
    · exact select_drawn (identifier_drawn hidentifier) hpath
    · simpa using h.drawn (List.forall_mem_cons.1 hrest).2
  | .logical h h₁, hts => h₁.drawn (h.drawn hts) (forall_mem_behind hts h.behind)
  | .not _ h, hts => by
    obtain ⟨hword, hts⟩ := List.forall_mem_cons.1 hts
    exact .node (.plain hword rfl rfl trivial) (by simpa [Expr.children] using h.drawn hts)
  | .compare h _ h₁, hts => by
    obtain ⟨hsign, hrest⟩ := List.forall_mem_cons.1 (forall_mem_behind hts h.behind)
    exact .node (.plain hsign rfl rfl trivial)
      (by simpa [Expr.children] using ⟨h.drawn hts, h₁.drawn hrest⟩)
  | .uncompared h _, hts => h.drawn hts
  | .sum h h₁, hts => h₁.drawn (h.drawn hts) (forall_mem_behind hts h.behind)
  | .product h h₁, hts => h₁.drawn (h.drawn hts) (forall_mem_behind hts h.behind)
  | .signed _ h, hts => by
    obtain ⟨hsign, hts⟩ := List.forall_mem_cons.1 hts
    exact .node (.plain hsign rfl rfl trivial) (by simpa [Expr.children] using h.drawn hts)
  | .unsigned h, hts => h.drawn hts
  | .raised h _ h₁, hts => by
    obtain ⟨hsign, hrest⟩ := List.forall_mem_cons.1 (forall_mem_behind hts h.behind)
    exact .node (.plain hsign rfl rfl trivial)
      (by simpa [Expr.children] using ⟨h.drawn hts, h₁.drawn hrest⟩)
  | .unraised h _, hts => h.drawn hts
  | .called h hbefore _ harguments hafter, hts => by
    obtain ⟨hfields, hrest⟩ := hbefore.forall_mem (forall_mem_behind hts h.behind)
    obtain ⟨-, hrest⟩ := List.forall_mem_cons.1 hrest
    have hcallee := select_drawn (h.drawn hts) hfields
    have hbehind := forall_mem_behind hrest (harguments.behind DerivesArgument.behind)
    exact select_drawn (call_drawn hcallee (argumentsDrawn harguments hrest))
      (hafter.forall_mem hbehind).1
  | .uncalled h hmembers _, hts =>
    select_drawn (h.drawn hts) (hmembers.forall_mem (forall_mem_behind hts h.behind)).1
  | .atom h, hts =>
    have ⟨ht, hts⟩ := List.forall_mem_cons.1 hts
    h.drawn rfl ht hts

/-- Operators stand at tokens of their chain. -/
theorem Chain.drawn {N : Nonterminal} {left : Expr} {ts : List Token} {e : Expr}
    {rest : List Token} : Chain N left ts e rest → left.Everywhere (Drawn T) →
      (∀ t ∈ ts, T t) → e.Everywhere (Drawn T)
  | .done _, hleft, _ => hleft
  | .more _ h h₁, hleft, hts => by
    obtain ⟨hsign, hts⟩ := List.forall_mem_cons.1 hts
    have hboth := And.intro hleft (h.drawn hts)
    exact h₁.drawn (.node (.plain hsign rfl rfl trivial) (by simpa [Expr.children] using hboth))
      (forall_mem_behind hts h.behind)

/-- The value of an argument is made of its tokens. -/
theorem DerivesArgument.drawn {ts : List Token} {a : Argument Expr} {rest : List Token} :
    DerivesArgument ts a rest → (∀ t ∈ ts, T t) → a.value.Everywhere (Drawn T)
  | .named _ _ h, hts => h.drawn (List.forall_mem_cons.1 (List.forall_mem_cons.1 hts).2).2
  | .unnamed h, hts => h.drawn hts

/-- The values of arguments are made of their tokens. -/
theorem argumentsDrawn {ts : List Token} {arguments : List (Argument Expr)} {rest : List Token} :
    Parenthesized DerivesArgument ts arguments rest → (∀ t ∈ ts, T t) →
      ∀ a ∈ arguments, a.value.Everywhere (Drawn T)
  | .none _, _ => by simp
  | .some h, hts => rowDrawn h hts

/-- The values of arguments are made of their tokens. -/
theorem rowDrawn {ts : List Token} {arguments : List (Argument Expr)} {rest : List Token} :
    Row DerivesArgument ts arguments rest → (∀ t ∈ ts, T t) →
      ∀ a ∈ arguments, a.value.Everywhere (Drawn T)
  | .last h _, hts => by simpa using h.drawn hts
  | .more h _ h₁, hts =>
    have hmore := List.forall_mem_cons.1 (forall_mem_behind hts h.behind)
    List.forall_mem_cons.2 ⟨h.drawn hts, rowDrawn h₁ hmore.2⟩

/-- The tree of an atom is made of its tokens. -/
theorem Atom.drawn {k : Token.Kind} {t : Token} {ts : List Token} {e : Expr}
    {rest : List Token} : Atom k t ts e rest → t.kind = k → T t → (∀ t ∈ ts, T t) →
      e.Everywhere (Drawn T)
  | .constant h, hkind, ht, _ => by
    refine .leaf ⟨⟨t, ht, rfl⟩, by simp [Expr.bound], nofun, ?_⟩ rfl
    rintro v position ⟨⟩
    exact ⟨t, ht, rfl, hkind ▸ h⟩
  | .name, _, ht, _ => identifier_drawn ht
  | .group h _, _, _, hts => h.drawn hts _ List.mem_cons_self
  | .block h _ _, _, ht, hts => .node (.plain ht rfl rfl trivial) (h.drawn hts)
  | .choice h _ h₁ h₂, _, ht, hts => by
    obtain ⟨-, hthen⟩ := List.forall_mem_cons.1 (forall_mem_behind hts h.behind)
    have hmore := h₂.drawn (forall_mem_behind hthen h₁.behind)
    have hfirst := And.intro (h.drawn hts) (h₁.drawn hthen)
    exact .node (.plain ht rfl rfl trivial)
      (Expr.forall_children_choice.2 ⟨List.forall_mem_cons.2 ⟨hfirst, hmore.1⟩, hmore.2⟩)
  | .forLoop hname _ h _ h₁ _ h₂, _, ht, hts => by
    simp only [List.forall_mem_cons] at hts
    obtain ⟨hidentifier, -, hts⟩ := hts
    obtain ⟨-, hlast⟩ := List.forall_mem_cons.1 (forall_mem_behind hts h.behind)
    obtain ⟨-, hbody⟩ := List.forall_mem_cons.1 (forall_mem_behind hlast h₁.behind)
    exact .node (.binder ht rfl hidentifier hname rfl trivial) <| by
      simpa [Expr.children] using ⟨h.drawn hts, h₁.drawn hlast, h₂.drawn hbody⟩
  | .forLoopStep hname _ h _ h₁ _ h₂ _ h₃, _, ht, hts => by
    simp only [List.forall_mem_cons] at hts
    obtain ⟨hidentifier, -, hts⟩ := hts
    obtain ⟨-, hlast⟩ := List.forall_mem_cons.1 (forall_mem_behind hts h.behind)
    obtain ⟨-, hstep⟩ := List.forall_mem_cons.1 (forall_mem_behind hlast h₁.behind)
    obtain ⟨-, hbody⟩ := List.forall_mem_cons.1 (forall_mem_behind hstep h₂.behind)
    exact .node (.binder ht rfl hidentifier hname rfl trivial) <| by
      simpa [Expr.children] using
        ⟨h.drawn hts, h₁.drawn hlast, h₃.drawn hbody, h₂.drawn hstep⟩
  | .whileLoop h _ h₁, _, ht, hts => by
    obtain ⟨-, hbody⟩ := List.forall_mem_cons.1 (forall_mem_behind hts h.behind)
    exact .node (.plain ht rfl rfl trivial)
      (by simpa [Expr.children] using ⟨h.drawn hts, h₁.drawn hbody⟩)
  | .function hname _ hparameters _ _ h, _, ht, hts => by
    obtain ⟨hnames, hrest⟩ := hname.forall_mem hts
    obtain ⟨-, hrest⟩ := List.forall_mem_cons.1 hrest
    have hbehind := forall_mem_behind hrest (hparameters.behind Parameter.behind)
    exact .node ⟨⟨_, ht, rfl⟩, hnames, nofun, nofun⟩
      (by simpa [Expr.children] using h.drawn (List.forall_mem_cons.1 hbehind).2)
  | .struct hname _ _ hnodup, _, ht, hts =>
    .leaf ⟨⟨_, ht, rfl⟩, (hname.forall_mem hts).1, by rintro _ _ _ ⟨⟩; exact hnodup, nofun⟩
      rfl
  | .returning h, _, ht, hts =>
    .node (.plain ht rfl rfl trivial) (by simpa [Expr.children] using h.drawn hts)
  | .returningNothing _, _, ht, _ => .leaf (.plain ht rfl rfl trivial) rfl

/-- The trees of items are made of their tokens. -/
theorem Items.drawn {ts : List Token} {items : List Expr} {rest : List Token} :
    Items ts items rest → (∀ t ∈ ts, T t) → ∀ e ∈ items, e.Everywhere (Drawn T)
  | .done, _ => by simp
  | .more h h₁, hts =>
    List.forall_mem_cons.2 ⟨h.drawn hts, h₁.drawn (forall_mem_behind hts h.behind)⟩

/-- The trees in further branches are made of their tokens. -/
theorem Branches.drawn {ts : List Token} {branches : List (Branch Expr)}
    {otherwise : Option Expr} {rest : List Token} : Branches ts branches otherwise rest →
      (∀ t ∈ ts, T t) →
      (∀ b ∈ branches, b.condition.Everywhere (Drawn T) ∧ b.body.Everywhere (Drawn T)) ∧
        ∀ e ∈ otherwise, e.Everywhere (Drawn T)
  | .done _ _, _ => by simp
  | .otherwise _ h, hts => by simpa using h.drawn (List.forall_mem_cons.1 hts).2
  | .noCondition _ _ h, hts => by
    simpa using h.drawn (List.forall_mem_cons.1 (List.forall_mem_cons.1 hts).2).2
  | .emptyCondition _ h _ h₁, hts => by
    have hbehind := forall_mem_behind (List.forall_mem_cons.1 hts).2 h.behind
    simpa using h₁.drawn (List.forall_mem_cons.1 hbehind).2
  | .more _ h _ _ h₁ h₂, hts => by
    obtain ⟨-, hts⟩ := List.forall_mem_cons.1 hts
    obtain ⟨-, hbody⟩ := List.forall_mem_cons.1 (forall_mem_behind hts h.behind)
    have hmore := h₂.drawn (forall_mem_behind hbody h₁.behind)
    exact ⟨List.forall_mem_cons.2 ⟨⟨h.drawn hts, h₁.drawn hbody⟩, hmore.1⟩, hmore.2⟩

end

end Grammar

end SnapshotScript
