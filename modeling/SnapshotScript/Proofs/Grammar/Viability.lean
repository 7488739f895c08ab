import SnapshotScript.Proofs.Grammar.Exchange

/-!
# Viable beginnings

Tokens are a viable beginning of a phrase if more tokens can be found with which they are such a
phrase wherever it may end (`Viable`).  Behind another phrase it matters too that the other one ends
where it should (`Continues`).  There are rules for what is put together from phrases and tokens,
and the sample tokens with which a phrase can be completed from any place are found along them.
-/

namespace SnapshotScript

namespace Grammar

variable {α β : Type} {R : List Token → α → List Token → Prop}
  {S : List Token → β → List Token → Prop} {used : List Token}

/-- The end of the input is not among the tokens. -/
abbrev Unended (ts : List Token) : Prop :=
  ∀ t ∈ ts, t.kind ≠ .endOfInput

/-- With more tokens, `used` is what `R` describes before each token that ends phrases. -/
def Viable (R : List Token → α → List Token → Prop) (used : List Token) : Prop :=
  ∃ more, Unended more ∧ ∀ rest, next rest ∈ closers → ∃ a, R (used ++ (more ++ rest)) a rest

/-- With more tokens, `used` is what `R` describes, and a phrase before it ends there even if there
is nothing in `used` yet. -/
def Continues (R : List Token → α → List Token → Prop) (used : List Token) : Prop :=
  ∃ more, Unended more ∧ ∀ rest, next rest ∈ closers →
    (used = [] → next (more ++ rest) ∈ closers) ∧ ∃ a, R (used ++ (more ++ rest)) a rest

/-- A token that ends phrases is of no other kind. -/
theorem next_ne_of_mem {rest : List Token} {k : Token.Kind} (hrest : next rest ∈ closers)
    (hk : k ∉ closers) : next rest ≠ k := by
  rintro rfl
  exact hk hrest

/-- What `R` describes becomes, behind the tokens `front`, what `S` describes. -/
theorem Viable.prepend (front : List Token) (h : Viable R used)
    (hRS : ∀ {ts a rest}, next rest ∈ closers → R ts a rest → ∃ b, S (front ++ ts) b rest) :
    Viable S (front ++ used) := by
  obtain ⟨more, hmore, h⟩ := h
  refine ⟨more, hmore, fun rest hrest => ?_⟩
  obtain ⟨a, h⟩ := h rest hrest
  rw [List.append_assoc]
  exact hRS hrest h

/-- What `R` describes is described by `S` too. -/
theorem Viable.mono (h : Viable R used)
    (hRS : ∀ {ts a rest}, next rest ∈ closers → R ts a rest → ∃ b, S ts b rest) :
    Viable S used :=
  h.prepend [] hRS

/-- What stands at a viable beginning is one too. -/
theorem Viable.front (used : List Token) {used' : List Token} (h : Viable R (used ++ used'))
    (hused' : Unended used') : Viable R used := by
  obtain ⟨more, hmore, h⟩ := h
  refine ⟨used' ++ more, List.forall_mem_append.2 ⟨hused', hmore⟩, fun rest hrest => ?_⟩
  simpa only [List.append_assoc] using h rest hrest

/-- Behind a first token nothing is said about the phrase before it. -/
theorem Viable.continues {t : Token} (h : Viable R (t :: used)) : Continues R (t :: used) := by
  obtain ⟨more, hmore, h⟩ := h
  exact ⟨more, hmore, fun rest hrest => ⟨nofun, h rest hrest⟩⟩

/-- A continuation is a viable beginning. -/
theorem Continues.viable (h : Continues R used) : Viable R used := by
  obtain ⟨more, hmore, h⟩ := h
  exact ⟨more, hmore, fun rest hrest => (h rest hrest).2⟩

/-- What `R` describes is described by `S` too. -/
theorem Continues.mono (h : Continues R used)
    (hRS : ∀ {ts a rest}, next rest ∈ closers → R ts a rest → ∃ b, S ts b rest) :
    Continues S used := by
  obtain ⟨more, hmore, h⟩ := h
  refine ⟨more, hmore, fun rest hrest => ?_⟩
  obtain ⟨hnext, a, h⟩ := h rest hrest
  exact ⟨hnext, hRS hrest h⟩

/-- What stands behind what `R` describes may be exchanged. -/
def Exchanges (R : List Token → α → List Token → Prop) : Prop :=
  ∀ ⦃ts a rest rest'⦄, R ts a rest → Replaces rest' rest →
    ∃ ts', Exchange rest rest' ts ts' ∧ R ts' a rest'

/-- What `R` describes is at least one token long, and what stands behind it may be exchanged. -/
structure Phrasal (R : List Token → α → List Token → Prop) : Prop where
  behind : ∀ {ts a rest}, R ts a rest → Behind rest ts
  exchange : Exchanges R

/-- A condition on what is described leaves it phrasal. -/
theorem Phrasal.and (h : Phrasal R) (P : α → Prop) :
    Phrasal fun ts a rest => R ts a rest ∧ P a := by
  refine ⟨fun hR => h.behind hR.1, fun _ _ _ _ hR hrest => ?_⟩
  obtain ⟨ts', hts, hR'⟩ := h.exchange hR.1 hrest
  exact ⟨ts', hts, hR', hR.2⟩

theorem Phrasal.parenthesized (h : Phrasal R) : Phrasal (Parenthesized R) :=
  ⟨fun has => has.behind h.behind,
    fun _ _ _ _ has _ => has.exchange (fun ha => h.exchange ha .cons) _⟩

/-- Phrases end where what is next does not go on with them. -/
theorem phrasal_derives (N : Nonterminal) : Phrasal (Derives N) :=
  ⟨Derives.behind, fun _ _ _ _ => Derives.exchange⟩

/-- One thing after another. -/
def Sequence (R : List Token → α → List Token → Prop)
    (S : α → List Token → β → List Token → Prop) (ts : List Token) (b : β) (rest : List Token) :
    Prop :=
  ∃ a mid, R ts a mid ∧ S a mid b rest

/-- Tokens with which `S` describes what comes next, whatever came before it. -/
def Resumes (S : α → List Token → β → List Token → Prop) : Prop :=
  ∃ more, Unended more ∧ ∀ rest, next rest ∈ closers → next (more ++ rest) ∈ closers ∧
    ∀ a, ∃ b, S a (more ++ rest) b rest

section

variable {S : α → List Token → β → List Token → Prop}

/-- What need not go on resumes where nothing more comes. -/
theorem resumes_nil (h : ∀ a {rest}, next rest ∈ closers → ∃ b, S a rest b rest) : Resumes S :=
  ⟨[], nofun, fun _ hrest => ⟨hrest, fun a => h a hrest⟩⟩

/-- What `S` describes is described by `T` too. -/
theorem Resumes.mono {T : α → List Token → β → List Token → Prop} (h : Resumes S)
    (hST : ∀ {a ts b rest}, S a ts b rest → T a ts b rest) : Resumes T := by
  obtain ⟨more, hmore, h⟩ := h
  exact ⟨more, hmore, fun rest hrest => ⟨(h rest hrest).1, fun a =>
    ((h rest hrest).2 a).imp fun _ => hST⟩⟩

/-- What resumes after everything continues it. -/
theorem Resumes.continues (h : Resumes S) (a : α) : Continues (S a) [] := by
  obtain ⟨more, hmore, h⟩ := h
  exact ⟨more, hmore, fun rest hrest => ⟨fun _ => (h rest hrest).1, (h rest hrest).2 a⟩⟩

/-- A beginning of the first part is a beginning of the whole. -/
theorem Viable.sequence (h : Viable R used) (hS : Resumes S) : Viable (Sequence R S) used := by
  obtain ⟨more, hmore, h⟩ := h
  obtain ⟨more', hmore', hS⟩ := hS
  refine ⟨more ++ more', List.forall_mem_append.2 ⟨hmore, hmore'⟩, fun rest hrest => ?_⟩
  obtain ⟨hnext, hS⟩ := hS rest hrest
  obtain ⟨a, h⟩ := h _ hnext
  obtain ⟨b, hS⟩ := hS a
  exact ⟨b, a, _, by rwa [List.append_assoc], hS⟩

/-- A beginning of the first part is a beginning of the whole. -/
theorem Continues.sequence (h : Continues R used) (hS : Resumes S) :
    Continues (Sequence R S) used := by
  obtain ⟨more, hmore, h⟩ := h
  obtain ⟨more', hmore', hS⟩ := hS
  refine ⟨more ++ more', List.forall_mem_append.2 ⟨hmore, hmore'⟩, fun rest hrest => ?_⟩
  obtain ⟨hnext, hS⟩ := hS rest hrest
  obtain ⟨hused, a, h⟩ := h _ hnext
  obtain ⟨b, hS⟩ := hS a
  rw [List.append_assoc]
  exact ⟨hused, b, a, _, h, hS⟩

/-- The first part and a beginning of the second part are a beginning of the whole. -/
theorem Continues.behind (hR : Exchanges R) {front mid : List Token} {a : α}
    (h : R (front ++ mid) a mid) {used rest : List Token} (hmid : mid = used ++ rest)
    (hS : Continues (S a) used) : Continues (Sequence R S) (front ++ used) := by
  subst hmid
  obtain ⟨more, hmore, hS⟩ := hS
  refine ⟨more, hmore, fun rest' hrest' => ?_⟩
  obtain ⟨hnext, b, hS⟩ := hS rest' hrest'
  have hreplaces : Replaces (used ++ (more ++ rest')) (used ++ rest) := by
    cases used with
    | nil => exact .inr (hnext rfl)
    | cons t used => exact .cons
  obtain ⟨ts', hts, h⟩ := hR h hreplaces
  obtain ⟨front', hfront, rfl⟩ := hts.exists_append
  obtain rfl := List.append_cancel_right hfront
  refine ⟨fun hnil => hnext (List.append_eq_nil_iff.1 hnil).2, b, a, _, ?_, hS⟩
  rwa [List.append_assoc]

end

/-! ### Behind a token -/

/-- A token of one kind, and what `R` describes behind it. -/
def After (k : Token.Kind) (R : List Token → α → List Token → Prop) (ts : List Token) (a : α)
    (rest : List Token) : Prop :=
  ∃ t mid, ts = t :: mid ∧ t.kind = k ∧ R mid a rest

/-- Behind the token a beginning goes on. -/
theorem Viable.after {t : Token} {k : Token.Kind} (h : Viable R used) (ht : t.kind = k) :
    Continues (After k R) (t :: used) :=
  (h.prepend [t] fun _ hR => ⟨_, t, _, rfl, ht, hR⟩ : Viable (After k R) (t :: used)).continues

/-- A token that ends phrases resumes after every phrase. -/
theorem resumes_after {k : Token.Kind} (hk : k ∈ closers) (hk' : k ≠ .endOfInput)
    (h : Viable S []) :
    Resumes fun _ : α => After k S := by
  obtain ⟨more, hmore, h⟩ := h
  refine ⟨sample k :: more, List.forall_mem_cons.2 ⟨hk', hmore⟩, fun rest hrest =>
    ⟨hk, fun _ => ?_⟩⟩
  obtain ⟨b, h⟩ := h rest hrest
  exact ⟨b, _, _, rfl, rfl, h⟩

/-- A token that ends phrases continues every phrase. -/
theorem continues_after {k : Token.Kind} (hk : k ∈ closers) (hk' : k ≠ .endOfInput)
    (h : Viable R []) : Continues (After k R) [] :=
  (resumes_after hk hk' h).continues ()

/-! ### Samples -/

/-- The word `null` is an expression wherever one may end. -/
theorem viable_expression : Viable (Derives .expression) [] :=
  ⟨[sample (.keyword .null)], by decide, fun _ hrest => ⟨_, derives_null_expression hrest⟩⟩

/-- Behind an expression there may be nothing more. -/
theorem viable_sequence {S : Expr → List Token → β → List Token → Prop} (hS : Resumes S) :
    Viable (Sequence (Derives .expression) S) [] :=
  viable_expression.sequence hS

end Grammar

end SnapshotScript
