import Mathlib.Data.List.Pairwise
import SnapshotScript.Proofs.Failure.Places

/-!
# Each expression stands at one place

Two expressions of a program may be spelled alike, but they stand at different places and so are
different expressions.  Hence a program contains each of its expressions once: two expressions that
stand next to each other below a node have none in common.

The reason is that they are read from different tokens.  An expression stands at one of the tokens
of its phrase, and no two tokens begin at the same position.
-/

namespace SnapshotScript

/-! ### Trees without repetitions -/

namespace Expr

/-- No expression is inside of both. -/
def Apart (a b : Expr) : Prop :=
  ∀ n : Expr, n.Within a → ¬ n.Within b

/-- Everywhere in the expression, those that stand next to each other have none in common. -/
abbrev Distinct (e : Expr) : Prop :=
  e.Everywhere fun n => n.children.Pairwise Apart

variable {e c c' n : Expr} {P : Expr → Prop}

instance : Std.Symm Apart :=
  ⟨fun _ _ h n hn hn' => h n hn' hn⟩

/-- No expression is inside of an expression that is inside of it. -/
theorem Everywhere.not_within_child (h : e.Everywhere P) (hc : c ∈ e.children) : ¬ e.Within c := by
  induction h generalizing c with
  | node _ _ ih =>
    intro hwithin
    rcases Relation.ReflTransGen.cases_head hwithin with rfl | ⟨d, hd, hinside⟩
    · exact ih _ hc hc .refl
    · exact ih c hc hd (Within.child hinside hc)

/-- An expression that stands inside of two neighbours shows that they are the same. -/
theorem eq_of_within {es : List Expr} (h : es.Pairwise Apart) (hc : c ∈ es) (hc' : c' ∈ es)
    (hn : n.Within c) (hn' : n.Within c') : c = c' := by
  by_contra hne
  exact h.forall hc hc' hne n hn hn'

end Expr

namespace Grammar

/-! ### Tokens at different positions -/

/-- No two tokens begin at the same position. -/
def Separate (ts : List Token) : Prop :=
  (ts.map Token.first).Nodup

/-- One of the tokens in front of those that are left begins at the position. -/
def Between (ts rest : List Token) (p : Position) : Prop :=
  p ∈ ts.map Token.first ∧ p ∉ rest.map Token.first

variable {ts ts' mid rest rest' fields : List Token} {t : Token} {e : Expr} {es : List Expr}

/-- The tokens that are left begin at different positions too. -/
theorem Separate.suffix (h : Separate ts) (hrest : rest <:+ ts) : Separate rest :=
  h.sublist (hrest.sublist.map _)

/-- A token in front of those that are left lies between. -/
theorem Separate.between (h : Separate ts) (ht : t :: ts' <:+ ts) (hrest : rest <:+ ts') :
    Between ts rest t.first := by
  refine ⟨List.mem_map_of_mem (ht.subset List.mem_cons_self), fun hmem => ?_⟩
  have hnodup : Separate (t :: ts') := h.suffix ht
  exact (List.nodup_cons.1 hnodup).1 ((hrest.sublist.map Token.first).subset hmem)

/-- What lies between tokens lies between more tokens, of which fewer are left. -/
theorem Between.mono {p : Position} (h : Between ts' rest' p) (hts : ts' <:+ ts)
    (hrest : rest <:+ rest') : Between ts rest p :=
  ⟨(hts.sublist.map _).subset h.1, fun hmem => h.2 ((hrest.sublist.map _).subset hmem)⟩

theorem Separate.tail (h : Separate (t :: ts)) : Separate ts :=
  h.suffix (List.suffix_cons t ts)

/-- Where more tokens may be passed as well, those that are left come last. -/
theorem suffix_of_behind (h : ∀ start, Behind ts start → Behind rest start) : rest <:+ ts :=
  (h _ (Behind.head (t := .endAt .start))).suffix_of_cons

/-! ### Phrases without repetitions -/

/-- The expression stands in front of the tokens that are left, and contains no expression twice. -/
structure Spread (ts rest : List Token) (e : Expr) : Prop where
  suffix : rest <:+ ts
  standing : Standing (Between ts rest) e
  distinct : e.Distinct

/-- The expressions stand in front of the tokens that are left.  They contain no expression twice,
and no two of them contain the same one. -/
structure Scattered (ts rest : List Token) (es : List Expr) : Prop where
  suffix : rest <:+ ts
  each : ∀ e ∈ es, Spread ts rest e
  apart : es.Pairwise Expr.Apart

namespace Spread

/-- An expression is spread over more tokens, of which fewer are left. -/
theorem mono (h : Spread ts' rest' e) (hts : ts' <:+ ts) (hrest : rest <:+ rest') :
    Spread ts rest e where
  suffix := (hrest.trans h.suffix).trans hts
  standing := h.standing.mono fun _ hn => hn.mono hts hrest
  distinct := h.distinct

theorem cons (h : Spread ts rest e) : Spread (t :: ts) rest e :=
  h.mono (List.suffix_cons t ts) List.suffix_rfl

/-- Expressions in front of different tokens have none in common. -/
theorem apart {e' : Expr} (h : Spread ts mid e) (h' : Spread ts' rest e') (hts : ts' <:+ mid) :
    e.Apart e' := by
  intro n hn hn'
  have hfirst : Between ts mid n.position := (hn.everywhere h.standing).root
  have hsecond : Between ts' rest n.position := (hn'.everywhere h'.standing).root
  exact hfirst.2 ((hts.sublist.map _).subset hsecond.1)

end Spread

namespace Scattered

theorem nil (hrest : rest <:+ ts) : Scattered ts rest [] :=
  ⟨hrest, nofun, .nil⟩

theorem single (h : Spread ts rest e) : Scattered ts rest [e] :=
  ⟨h.suffix, by simpa using h, List.pairwise_singleton _ _⟩

/-- Expressions are scattered over more tokens, of which fewer are left. -/
theorem mono (h : Scattered ts' rest' es) (hts : ts' <:+ ts) (hrest : rest <:+ rest') :
    Scattered ts rest es where
  suffix := (hrest.trans h.suffix).trans hts
  each e he := (h.each e he).mono hts hrest
  apart := h.apart

theorem behind (h : Scattered ts rest es) : Scattered (t :: ts) rest es :=
  h.mono (List.suffix_cons t ts) List.suffix_rfl

/-- An expression in front of scattered ones is scattered with them. -/
theorem cons (h : Spread ts mid e) (hes : Scattered ts' rest es) (hts : ts' <:+ mid) :
    Scattered ts rest (e :: es) where
  suffix := ((hes.suffix.trans hts).trans h.suffix)
  each := by
    have hfirst := h.mono List.suffix_rfl (hes.suffix.trans hts)
    have hothers := hes.mono (hts.trans h.suffix) List.suffix_rfl
    exact List.forall_mem_cons.2 ⟨hfirst, hothers.each⟩
  apart := List.pairwise_cons.2 ⟨fun e' he' => h.apart (hes.each e' he') hts, hes.apart⟩

/-- An expression is scattered with others behind it, also if a token stands in between. -/
theorem consMark (h : Spread ts (t :: ts') e) (hes : Scattered ts' rest es) :
    Scattered ts rest (e :: es) :=
  cons h hes (List.suffix_cons t ts')

/-- Scattered expressions are so in any order. -/
theorem perm {es' : List Expr} (h : Scattered ts rest es) (hperm : es.Perm es') :
    Scattered ts rest es' where
  suffix := h.suffix
  each e he := h.each e (hperm.mem_iff.2 he)
  apart := h.apart.perm hperm fun h => Std.Symm.symm _ _ h

/-- A branch in front of others is scattered with them, whatever the order of conditions and bodies.
-/
theorem branch {condition body : Expr} {conditions bodies others : List Expr}
    (hcondition : Spread ts (t :: ts') condition) (hbody : Spread ts' mid body)
    (hothers : Scattered mid rest (conditions ++ bodies ++ others)) :
    Scattered ts rest ((condition :: conditions) ++ (body :: bodies) ++ others) := by
  have hall := consMark hcondition (cons hbody hothers List.suffix_rfl)
  have hperm : (body :: (conditions ++ (bodies ++ others))).Perm
      (conditions ++ body :: (bodies ++ others)) := List.perm_middle.symm
  rw [List.append_assoc] at hall
  simpa using hall.perm (.cons condition hperm)

end Scattered

/-! ### Expressions of phrases -/

/-- An expression is spread if it stands at one of its tokens, and scattered expressions are inside
of it. -/
theorem Spread.node (hp : Between ts rest e.position) (h : Scattered ts rest e.children) :
    Spread ts rest e where
  suffix := h.suffix
  standing := .node hp fun c hc => (h.each c hc).standing
  distinct := .node h.apart fun c hc => (h.each c hc).distinct

/-- An expression is spread if it stands at the first token of its phrase, and scattered expressions
are inside of it. -/
theorem Spread.headed (hts : Separate (t :: ts)) (hp : e.position = t.first)
    (h : Scattered ts rest e.children) : Spread (t :: ts) rest e :=
  .node (hp ▸ hts.between List.suffix_rfl h.suffix) h.behind

/-- An operator between two spread operands is spread, as it stands at its own token. -/
theorem binary_spread {o : BinaryOperator} {left right : Expr} (hts : Separate ts)
    (hleft : Spread ts (t :: ts') left) (hright : Spread ts' rest right) :
    Spread ts rest (.binary o left right t.first) :=
  .node (hts.between hleft.suffix hright.suffix) (.consMark hleft (.single hright))

theorem name_spread (hts : Separate (t :: ts)) :
    Spread (t :: ts) ts (.identifier t.text t.first) :=
  .headed hts rfl (.nil List.suffix_rfl)

/-- The members that are taken of a spread expression are spread, if those that are `more` do not
belong to the phrase. -/
theorem select_spread {path more : List Token} (hts : Separate ts) (h : Spread ts mid e)
    (hfields : Members mid (path ++ more) rest) : Spread ts rest (select e path) := by
  induction path generalizing e mid with
  | nil => exact h.mono List.suffix_rfl (suffix_of_behind fun _ => hfields.behind)
  | cons field path ih =>
    cases hfields with
    | @more dot _ mid' _ _ _ _ hfields =>
      have hfield : field :: mid' <:+ ts := (List.suffix_cons dot _).trans h.suffix
      have hbehind : mid' <:+ dot :: field :: mid' :=
        (List.suffix_cons field mid').trans (List.suffix_cons dot _)
      have hmember : Spread ts mid' (.member e field.text field.first) :=
        .node (hts.between hfield List.suffix_rfl) (.single (h.mono List.suffix_rfl hbehind))
      exact ih hmember hfields

theorem members_spread (hts : Separate ts) (h : Spread ts mid e)
    (hfields : Members mid fields rest) : Spread ts rest (select e fields) :=
  select_spread hts h ((List.append_nil fields).symm ▸ hfields)

/-- A call is spread if its callee and its arguments are, although it stands where its callee does.
-/
theorem call_spread {arguments : List (Argument Expr)} (h : Spread ts (t :: ts') e)
    (harguments : Scattered ts' rest (arguments.map Argument.value)) :
    Spread ts rest (.call e arguments e.position) := by
  have hbehind : rest <:+ t :: ts' := harguments.suffix.trans (List.suffix_cons t ts')
  exact .node (h.standing.root.mono List.suffix_rfl hbehind) (.consMark h harguments)

/-- A loop over numbers is spread, in which the step comes in front of the body. -/
theorem forLoop_spread {name sign : Token} {first last body : Expr} {step : Option Expr}
    (hts : Separate (t :: name :: sign :: ts))
    (h : Scattered ts rest (first :: last :: (step.toList ++ [body]))) :
    Spread (t :: name :: sign :: ts) rest
      (.forLoop name.text first last step body t.first) := by
  have hperm := List.perm_append_singleton body step.toList
  exact .headed hts rfl (h.perm (.cons first (.cons last hperm))).behind.behind

/-! ### Phrases -/

mutual

/-- A phrase contains no expression twice. -/
theorem Derives.spread {N : Nonterminal} {ts : List Token} {e : Expr} {rest : List Token} :
    Derives N ts e rest → Separate ts → Spread ts rest e
  | .assign _ _ _ h, hts => .headed hts rfl (.single (h.spread hts.tail.tail.tail).cons.cons)
  | .memberSet _ _ hmembers _ h, hts => by
    have htarget := select_spread hts.tail (name_spread hts.tail) hmembers
    have hvalue := h.spread (hts.tail.suffix htarget.suffix).tail
    exact .headed hts rfl (.consMark htarget (.single hvalue))
  | .logical h h₁, hts => h₁.spread hts (h.spread hts)
  | .not _ h, hts => .headed hts rfl (.single (h.spread hts.tail))
  | .compare h _ h₁, hts =>
    binary_spread hts (h.spread hts) (h₁.spread (hts.suffix h.behind.suffix).tail)
  | .uncompared h _, hts => h.spread hts
  | .sum h h₁, hts => h₁.spread hts (h.spread hts)
  | .product h h₁, hts => h₁.spread hts (h.spread hts)
  | .signed _ h, hts => .headed hts rfl (.single (h.spread hts.tail))
  | .unsigned h, hts => h.spread hts
  | .raised h _ h₁, hts =>
    binary_spread hts (h.spread hts) (h₁.spread (hts.suffix h.behind.suffix).tail)
  | .unraised h _, hts => h.spread hts
  | .called h hbefore _ harguments hafter, hts => by
    have hcallee := members_spread hts (h.spread hts) hbefore
    have harguments := argumentsScattered harguments (hts.suffix hcallee.suffix).tail
    exact members_spread hts (call_spread hcallee harguments) hafter
  | .uncalled h hmembers _, hts => members_spread hts (h.spread hts) hmembers
  | .atom h, hts => h.spread hts

/-- Operators of one level contain no expression twice. -/
theorem Chain.spread {N : Nonterminal} {left : Expr} {ts : List Token} {e : Expr}
    {rest start : List Token} : Chain N left ts e rest → Separate start → Spread start ts left →
      Spread start rest e
  | .done _, _, hleft => hleft
  | .more _ h h₁, hstart, hleft =>
    have hright := h.spread (hstart.suffix hleft.suffix).tail
    h₁.spread hstart (binary_spread hstart hleft hright)

/-- An argument contains no expression twice. -/
theorem DerivesArgument.spread {ts : List Token} {a : Argument Expr} {rest : List Token} :
    DerivesArgument ts a rest → Separate ts → Spread ts rest a.value
  | .named _ _ h, hts => (h.spread hts.tail.tail).cons.cons
  | .unnamed h, hts => h.spread hts

/-- Arguments contain no expression twice. -/
theorem argumentsScattered {ts : List Token} {arguments : List (Argument Expr)}
    {rest : List Token} : Parenthesized DerivesArgument ts arguments rest → Separate ts →
      Scattered ts rest (arguments.map Argument.value)
  | .none _, _ => .nil (List.suffix_cons _ _)
  | .some h, hts => rowScattered h hts

/-- A row of arguments contains no expression twice. -/
theorem rowScattered {ts : List Token} {arguments : List (Argument Expr)} {rest : List Token} :
    Row DerivesArgument ts arguments rest → Separate ts →
      Scattered ts rest (arguments.map Argument.value)
  | .last h _, hts => .single ((h.spread hts).mono List.suffix_rfl (List.suffix_cons _ _))
  | .more h _ h₁, hts =>
    .consMark (h.spread hts) (rowScattered h₁ (hts.suffix h.behind.suffix).tail)

/-- An atom contains no expression twice. -/
theorem Atom.spread {k : Token.Kind} {t : Token} {ts : List Token} {e : Expr}
    {rest : List Token} : Atom k t ts e rest → Separate (t :: ts) → Spread (t :: ts) rest e
  | .constant _, hts => .headed hts rfl (.nil List.suffix_rfl)
  | .name, hts => name_spread hts
  | .group h _, hts =>
    ((h.scattered hts.tail).each _ List.mem_cons_self).cons.mono List.suffix_rfl
      (List.suffix_cons _ _)
  | .block h _ _, hts =>
    .headed hts rfl ((h.scattered hts.tail).mono List.suffix_rfl (List.suffix_cons _ _))
  | .choice h _ h₁ h₂, hts =>
    have hbody := (hts.tail.suffix h.behind.suffix).tail
    have hmore := h₂.scattered (hbody.suffix h₁.behind.suffix)
    .headed hts rfl (.branch (h.spread hts.tail) (h₁.spread hbody) hmore)
  | .forLoop _ _ h _ h₁ _ h₂, hts =>
    have hfirst := hts.tail.tail.tail
    have hlast := (hfirst.suffix h.behind.suffix).tail
    have hbody := (hlast.suffix h₁.behind.suffix).tail
    forLoop_spread hts (.consMark (h.spread hfirst)
      (.consMark (h₁.spread hlast) (.single (h₂.spread hbody))))
  | .forLoopStep _ _ h _ h₁ _ h₂ _ h₃, hts =>
    have hfirst := hts.tail.tail.tail
    have hlast := (hfirst.suffix h.behind.suffix).tail
    have hstep := (hlast.suffix h₁.behind.suffix).tail
    have hbody := (hstep.suffix h₂.behind.suffix).tail
    forLoop_spread hts (.consMark (h.spread hfirst) (.consMark (h₁.spread hlast)
      (.consMark (h₂.spread hstep) (.single (h₃.spread hbody)))))
  | .whileLoop h _ h₁, hts =>
    have hbody := (hts.tail.suffix h.behind.suffix).tail
    .headed hts rfl (.consMark (h.spread hts.tail) (.single (h₁.spread hbody)))
  | .function hname _ hparameters _ _ h, hts => by
    have hparen := suffix_of_behind fun _ => hname.behind
    have harrow := (hparameters.behind Parameter.behind).suffix.trans
      ((List.suffix_cons _ _).trans hparen)
    have hbody := (List.suffix_cons _ _).trans harrow
    exact .headed hts rfl
      (.single ((h.spread (hts.tail.suffix hbody)).mono hbody List.suffix_rfl))
  | .struct hname _ hfields _, hts => by
    have hparen := suffix_of_behind fun _ => hname.behind
    have hrest := (hfields.behind FieldDeclaration.behind).suffix
    exact .headed hts rfl (.nil (hrest.trans ((List.suffix_cons _ _).trans hparen)))
  | .returning h, hts => .headed hts rfl (.single (h.spread hts.tail))
  | .returningNothing _, hts => .headed hts rfl (.nil List.suffix_rfl)

/-- Items contain no expression twice. -/
theorem Items.scattered {ts : List Token} {items : List Expr} {rest : List Token} :
    Items ts items rest → Separate ts → Scattered ts rest items
  | .done, _ => .nil List.suffix_rfl
  | .more h h₁, hts =>
    .cons (h.spread hts) (h₁.scattered (hts.suffix h.behind.suffix)) List.suffix_rfl

/-- Further branches contain no expression twice. -/
theorem Branches.scattered {ts : List Token} {branches : List (Branch Expr)}
    {otherwise : Option Expr} {rest : List Token} : Branches ts branches otherwise rest →
      Separate ts → Scattered ts rest
        (branches.map Branch.condition ++ branches.map Branch.body ++ otherwise.toList)
  | .done _ _, _ => .nil List.suffix_rfl
  | .otherwise _ h, hts => .single (h.spread hts.tail).cons
  | .noCondition _ _ h, hts => .single (h.spread hts.tail.tail).cons.cons
  | .emptyCondition _ h _ h₁, hts => by
    have hbody := (List.suffix_cons _ _).trans h.behind.suffix
    exact .single ((h₁.spread (hts.tail.suffix hbody)).mono hbody List.suffix_rfl).cons
  | .more _ h _ _ h₁ h₂, hts =>
    have hbody := (hts.tail.suffix h.behind.suffix).tail
    have hmore := h₂.scattered (hbody.suffix h₁.behind.suffix)
    (Scattered.branch (h.spread hts.tail) (h₁.spread hbody) hmore).behind

end

end Grammar

/-! ### Programs -/

/-- Behind a character the position is another one. -/
theorem Position.advanceAll_ne (p : Position) (c : Char) (cs : List Char) :
    p.advanceAll (c :: cs) ≠ p := by
  intro heq
  have hle := le_advanceAll (p.advance c) cs
  rw [← advanceAll_cons, heq, le_def, advance] at hle
  grind

/-- No two tokens of a text begin at the same position. -/
theorem Lexical.Tokenizes.separate {before text : List Char}
    {result : Except LexError (List Token)} (h : Tokenizes before text result) :
    ∀ tokens, result = .ok tokens → Grammar.Separate tokens := by
  induction h with
  | finish =>
    rintro tokens ⟨rfl⟩
    exact List.pairwise_singleton _ _
  | fault => exact nofun
  | @token before gap k lexeme content rest result _ haccepted hrest ih =>
    intro tokens htokens
    cases result with
    | error e => cases htokens
    | ok tokens' =>
      cases htokens
      refine List.nodup_cons.2 ⟨fun hmem => ?_, ih tokens' rfl⟩
      obtain ⟨t, ht, hsame⟩ := List.mem_map.1 hmem
      obtain ⟨more, hfirst⟩ := hrest.exists_first tokens' rfl t ht
      obtain ⟨c, cs, rfl, -⟩ := haccepted.isLexeme.exists_cons
      rw [hfirst, List.append_assoc, Position.behind_append] at hsame
      exact Position.advanceAll_ne _ c (cs ++ more) hsame

/-- A program that is read from a text contains no expression twice. -/
theorem distinct_of_parseSource {source : String} {program : Expr}
    (h : parseSource source = .ok program) : program.Distinct := by
  obtain ⟨tokens, htokens, hparse⟩ := parseSource_eq_ok_iff.1 h
  obtain ⟨items, hitems, rfl⟩ := derived_of_parseTokens hparse
  have hseparate : Grammar.Separate tokens :=
    (Lexical.tokenizes_of_tokenize htokens).separate tokens rfl
  have hread : Grammar.Separate (tokens.takeWhile (·.kind ≠ .endOfInput)) :=
    List.Nodup.sublist ((List.takeWhile_prefix _).sublist.map _) hseparate
  have hscattered := hitems.scattered hread
  exact .node hscattered.apart fun item hitem => (hscattered.each item hitem).distinct

end SnapshotScript
