import SnapshotScript.Proofs.Grammar.Constructs
import SnapshotScript.Proofs.Grammar.Breaking.Pieces

/-!
# Failures in single productions

Assignments, calls, blocks and the constructs that begin with a word fail at the first token that
cannot belong to them, provided that the phrases inside them do.
-/

namespace SnapshotScript

open SnapshotScript.Grammar SnapshotScript.Parser

namespace Phrase

/-- Inner phrases are recognized as they are derived. -/
def RecognizesInner (finish finish' : Position) (recur recur' : Level → Parser Expr)
    (bound bound' : Nat) : Prop :=
  ∀ level, Recognizes finish finish' bound bound' (recur level) (recur' level)
    (Derives level.nonterminal)

variable {β : Type} {finish finish' : Position} {recur recur' : Level → Parser Expr}
  {m n bound bound' rounds rounds' : Nat} {ts used : List Token} {t : Token} {k : Token.Kind}
  {expected : Expectation}

/-! ### Arguments -/

/-- Tokens that begin with a name and a colon. -/
def Named (ts : List Token) : Prop :=
  next ts = .identifier ∧ next ts.tail = .colon

/-- An argument, which has a name if a name and a colon come first. -/
def GreedyArgument (ts : List Token) (a : Argument Expr) (rest : List Token) : Prop :=
  DerivesArgument ts a rest ∧ (a.name = none → ¬ Named ts)

/-- Whether a name and a colon come first is settled before a phrase ends. -/
theorem not_named_of_exchange {rest rest' ts' : List Token} (hts : Exchange rest rest' ts ts')
    (hbehind : Behind rest ts) (hrest : Replaces rest' rest) (h : ¬ Named ts) : ¬ Named ts' := by
  cases hts with
  | here => exact absurd hbehind.length_lt (Nat.lt_irrefl _)
  | cons hmid =>
    rintro ⟨hname, hcolon⟩
    exact (hrest.exchange hmid).next_ne (by decide) (fun hnext => h ⟨hname, hnext⟩) hcolon

theorem phrasal_argument : Phrasal GreedyArgument where
  behind h := h.1.behind
  exchange _ _ _ _ h hrest := by
    obtain ⟨ts', hts, h'⟩ := h.1.exchange hrest
    exact ⟨ts', hts, h', fun hnone => not_named_of_exchange hts h.1.behind hrest (h.2 hnone)⟩

/-- Behind a name and a colon an argument is read as an expression with this name. -/
theorem argument_eq_of_named {name colon : Token} (hname : name.kind = .identifier)
    (hcolon : colon.kind = .colon) (ts : List Token) :
    argument recur ⟨name :: colon :: ts, finish⟩ =
      (do return ⟨some name.text, ← recur .expression⟩ : Parser (Argument Expr)) ⟨ts, finish⟩ := by
  change (if name.kind = .identifier ∧ colon.kind = .colon then _ else _ : Parser (Argument Expr))
    ⟨name :: colon :: ts, finish⟩ = _
  rw [if_pos ⟨hname, hcolon⟩]
  rfl

/-- Without a name and a colon an argument is read as an expression. -/
theorem argument_eq_of_unnamed (h : ¬ Named ts) :
    argument recur ⟨ts, finish⟩ =
      (do return ⟨none, ← recur .expression⟩ : Parser (Argument Expr)) ⟨ts, finish⟩ := by
  match ts, h with
  | [], _ => rfl
  | [name], _ => rfl
  | name :: colon :: ts, h =>
    change (if name.kind = .identifier ∧ colon.kind = .colon then _ else _ :
      Parser (Argument Expr)) ⟨name :: colon :: ts, finish⟩ = _
    rw [if_neg (show ¬ (name.kind = .identifier ∧ colon.kind = .colon) from h)]

/-- A name is an expression. -/
theorem derives_name {name : Token} (hname : name.kind = .identifier) :
    Derives .expression [name] (.identifier name.text name.first) [] := by
  have hatom : Derives .atom [name] (.identifier name.text name.first) [] :=
    .atom (by rw [hname]; exact .name)
  exact .logical ((Derives.factor_of_atom hatom (by decide)).comparison_of_factor
    (not_infix_of_mem (by decide))) (.done (not_infix_of_mem (by decide) _))

/-! ### Choices -/

/-- Further branches of a choice. -/
def FurtherBranches (ts : List Token) (r : List (Branch Expr) × Option Expr)
    (rest : List Token) : Prop :=
  Branches ts r.1 r.2 rest

/-- What stands behind the condition `e` of a further branch.  There are more branches only if that
is not an empty block. -/
def BranchEnd (e : Expr) (ts : List Token) (body : Expr) (rest : List Token) : Prop :=
  e.isEmptyBlock ∧ Derives .expression ts body rest ∨
    ¬ e.isEmptyBlock ∧ ∃ mid r, Derives .expression ts body mid ∧ FurtherBranches mid r rest

/-- There may be no further branches. -/
theorem furtherBranches_nil {rest : List Token} (hrest : next rest ∈ closers) :
    FurtherBranches rest ([], none) rest :=
  .done (next_ne_of_mem hrest (by decide)) (next_ne_of_mem hrest (by decide))

/-- The word `null` can stand there in any case. -/
theorem branchEnd_null (e : Expr) {rest : List Token} (hrest : next rest ∈ closers) :
    BranchEnd e (sample (.keyword .null) :: rest) (.literal .null .start) rest := by
  by_cases hempty : e.isEmptyBlock
  · exact .inl ⟨hempty, derives_null_expression hrest⟩
  · exact .inr ⟨hempty, rest, _, derives_null_expression hrest, furtherBranches_nil hrest⟩

/-- A condition and what stands behind it make up a further branch. -/
theorem furtherBranches_of_end {word word' : Token} {e body : Expr} {ts mid rest : List Token}
    (hword : word.kind = .keyword .eli) (he : Derives .expression ts e (word' :: mid))
    (hthen : word'.kind = .keyword .then) (hend : BranchEnd e mid body rest) :
    ∃ r, FurtherBranches (word :: ts) r rest := by
  rcases hend with ⟨hempty, hbody⟩ | ⟨hempty, mid', r, hbody, hr⟩
  · obtain ⟨position, rfl⟩ := isEmptyBlock_iff.1 hempty
    exact ⟨([], some body), .emptyCondition hword he hthen hbody⟩
  · refine ⟨(⟨e, body⟩ :: r.1, r.2), .more hword he (fun position heq => ?_) hthen hbody hr⟩
    exact hempty (isEmptyBlock_iff.2 ⟨position, heq⟩)

/-! ### Loops -/

/-- The word `then` and what it belongs to. -/
abbrev Body : List Token → Expr → List Token → Prop :=
  After (.keyword .then) (Derives .expression)

/-- What stands behind the bounds of a loop over numbers. -/
def LoopEnd (ts : List Token) (body : Expr) (rest : List Token) : Prop :=
  Body ts body rest ∨
    After (.keyword .step) (Sequence (Derives .expression) fun _ => Body) ts body rest

/-- The variable of a loop, its bounds, its step and its body make up a loop. -/
theorem atom_forLoop {name sign : Token} {ts rest : List Token} {body : Expr}
    (hname : name.kind = .identifier) (hsign : sign.kind = .assign)
    (h : Sequence (Derives .expression) (fun _ => After (.keyword .to)
      (Sequence (Derives .expression) fun _ => LoopEnd)) ts body rest) :
    ∃ e, Atom (.keyword .for) t (name :: sign :: ts) e rest := by
  obtain ⟨first, _, hfirst, mark, mid, rfl, hmark, last, _, hlast,
    ⟨word, mid', rfl, hword, hbody⟩ |
    ⟨word', _, rfl, hword', step, _, hstep, word, mid', rfl, hword, hbody⟩⟩ := h
  · exact ⟨_, .forLoop hname hsign hfirst hmark hlast hword hbody⟩
  · exact ⟨_, .forLoopStep hname hsign hfirst hmark hlast hword' hstep hword hbody⟩

/-! ### Definitions -/

/-- The parameters and the body of a function. -/
def FunctionEnd : List Token → Expr → List Token → Prop :=
  After .leftParen (Sequence (fun ts names rest => Parenthesized Parameter ts names rest ∧
    names.Nodup) fun _ => After .arrow (Derives .expression))

/-- The fields of a struct. -/
def StructEnd : List Token → List Field → List Token → Prop :=
  After .leftParen fun ts fields rest => Parenthesized FieldDeclaration ts fields rest ∧
    (fields.map Field.name).Nodup

/-- The name of a definition, which may be absent, breaks together with what comes behind it. -/
theorem definedName_breaks {γ : Type} {f f' : Option String → Parser β}
    {S : List Token → γ → List Token → Prop}
    (hf : ∀ name mid, mid.length ≤ ts.length →
      Breaks finish finish' n (f name) (f' name) mid (Viable S)) :
    Breaks finish finish' n (definedName >>= f) (definedName >>= f') ts
      (Viable (Sequence DefinedName fun _ => S)) := by
  rw [definedName, bind_assoc, bind_assoc]
  refine .current fun t ht => ?_
  by_cases hkind : t.kind = .identifier
  · cases ts with
    | nil =>
      subst ht
      cases hkind
    | cons name ts =>
      obtain rfl : t = name := ht
      rw [if_pos hkind, bind_assoc, bind_assoc]
      refine .advance ((hf (some t.text) ts (by simp)).mono (fun used hused => ?_) (Nat.sub_le _ _))
      exact hused.prepend [t] fun _ hb => ⟨_, some t.text, _, .present hkind, hb⟩
  · rw [if_neg hkind, pure_bind, pure_bind]
    exact (hf none ts (Nat.le_refl _)).mono
      (fun used hused => hused.mono fun _ hb => ⟨_, none, _, .absent, hb⟩) (Nat.le_refl _)

theorem struct_breaks (hle : bound ≤ bound') (hlt : ts.length < bound) (position : Position) :
    Breaks finish finish' bound' (struct bound position) (struct bound' position) ts
      (Viable (Atom (.keyword .struct) t)) := by
  rw [struct, struct]
  refine (definedName_breaks (S := StructEnd) fun name mid hmid =>
    .expect (by decide) rfl ?_ fun paren mid' hmid' hparen => ?_).mono
    (fun used hused => hused.mono ?_) (Nat.le_refl _)
  · exact ⟨[sample .leftParen, sample .rightParen], by decide, fun rest _ =>
      ⟨[], _, _, rfl, rfl, .none rfl, .nil⟩⟩
  · rw [hmid', List.length_cons] at hmid
    exact ((fields_recognizes hle).breaks (by omega)).map.mono
      (fun used hused => (hused.after hparen).viable) (Nat.sub_le _ _)
  · rintro ts _ rest - ⟨name, _, hname, paren, mid, rfl, hparen, hfields, hdistinct⟩
    exact ⟨_, .struct hname hparen hfields hdistinct⟩

section Phrases

variable (hinner : RecognizesInner finish finish' recur recur' bound bound')

include hinner

/-- Inner phrases are read. -/
theorem RecognizesInner.reads : ReadsInner finish recur bound :=
  fun level _ => (hinner level).reads

/-- Inner phrases are read in the other input too. -/
theorem RecognizesInner.reads' : ReadsInner finish' recur' bound' :=
  fun level _ => (hinner level).reads'

theorem RecognizesInner.expression_map {g : Expr → β} (hlt : ts.length < bound) :
    Breaks finish finish' bound' (do return g (← recur .expression))
      (do return g (← recur' .expression)) ts (Viable (Derives .expression)) :=
  ((hinner .expression).breaks hlt).map

/-- An expression breaks together with what comes behind it. -/
theorem RecognizesInner.expression_bind {γ : Type} {f f' : Expr → Parser β}
    {S : Expr → List Token → γ → List Token → Prop} (hlt : ts.length < bound) (hm : m ≤ bound')
    (hS : Resumes S)
    (hf : ∀ e mid, mid.length < ts.length →
      Breaks finish finish' (m - 1) (f e) (f' e) mid (Continues (S e))) :
    Breaks finish finish' m (recur .expression >>= f) (recur' .expression >>= f') ts
      (Viable (Sequence (Derives .expression) S)) :=
  (hinner .expression).bind (phrasal_derives _) hlt hm hS fun e mid _ => hf e mid

/-- An expression and a token that ends it break together with what comes behind the token. -/
theorem RecognizesInner.expression_expect {γ : Type} {f f' : Expr → Parser β}
    {S : List Token → γ → List Token → Prop} (hk : k ∈ closers) (hk' : k ≠ .endOfInput)
    (hpassed : expected.passed = 0) (hlt : ts.length < bound) (hS : Viable S [])
    (hf : ∀ e mid, mid.length < bound →
      Breaks finish finish' bound' (f e) (f' e) mid (Viable S)) :
    Breaks finish finish' bound'
      (do
        let e ← recur .expression
        let _ ← Parser.expect k expected
        f e)
      (do
        let e ← recur' .expression
        let _ ← Parser.expect k expected
        f' e) ts (Viable (Sequence (Derives .expression) fun _ => After k S)) := by
  refine hinner.expression_bind hlt (Nat.le_refl _) (resumes_after hk hk' hS) fun e mid hmid =>
    .expect_after hk hk' hpassed hS fun t mid' hts => ?_
  rw [hts, List.length_cons] at hmid
  exact (hf e mid' (by omega)).mono (fun _ => id) (by omega)

/-! ### Assignments -/

theorem assignment_breaks (hle : bound ≤ bound') (hset : t.kind = .keyword .set)
    (hlt : ts.length < bound) (position : Position) :
    Breaks finish finish' bound' (assignment recur bound position)
      (assignment recur' bound' position) ts
      (Viable fun ts => Derives .expression (t :: ts)) := by
  have hpath : ∀ (name : Token) {used}, name.kind = .identifier →
      Viable (Sequence Members fun _ => After .assign (Derives .expression)) used →
      Viable (fun ts => Derives .expression (t :: ts)) (name :: used) := by
    intro name used hname hused
    refine hused.prepend [name] ?_
    rintro ts e rest - ⟨fields, _, hfields, sign, mid, rfl, hsign, hvalue⟩
    rcases List.eq_nil_or_concat fields with rfl | ⟨path, field, rfl⟩
    · cases hfields
      exact ⟨_, .assign hset hname hsign hvalue⟩
    · rw [List.concat_eq_append] at hfields
      exact ⟨_, .memberSet hset hname hfields hsign hvalue⟩
  have hresumes : Resumes fun _ : List Token => After .assign (Derives .expression) :=
    resumes_after (by decide) (by decide) viable_expression
  rw [assignment, assignment]
  refine .expect (by decide) rfl ?_ fun name mid hts hname => ?_
  · have hmembers : Viable Members [] := ⟨[], List.forall_mem_nil _, fun rest hrest =>
      ⟨[], .done (next_ne_of_mem hrest (by decide))⟩⟩
    exact (hpath (sample .identifier) rfl (hmembers.sequence hresumes)).front [] (by decide)
  rw [hts, List.length_cons] at hlt
  refine (Breaks.sequence (assignmentPath_breaks (by omega) hle (Nat.sub_le _ _) [])
    (assignmentPath_reads (by omega) []) (fun ts' hts' => assignmentPath_reads (by omega) [])
    (fun h => h.imp fun _ => And.left) ?_ (fun _ _ _ _ => Members.exchange) hresumes
    fun path mid' _ hmid' => ?_).mono (fun used hused => hpath name hname hused.viable)
      (Nat.le_refl _)
  · rintro path mid mid' ⟨fields, hfields, heq⟩ hnext
    obtain ⟨ts', hts', hfields'⟩ := hfields.exchange (.inl hnext)
    exact ⟨ts', hts', fields, hfields', heq⟩
  · refine .expect_after (by decide) (by decide) rfl viable_expression fun sign mid'' hmid'' => ?_
    rw [hmid'', List.length_cons] at hmid'
    refine .mono (n := bound') ?_ (fun _ => id) (by omega)
    cases path with
    | nil => exact hinner.expression_map (by omega)
    | cons field before => exact hinner.expression_map (by omega)

/-! ### Calls -/

/-- An argument without a name fails like the expression that it is.  That there is no name is
settled as well, since an expression does not fail at a name. -/
theorem argument_breaks (hlt : ts.length < bound) :
    Breaks finish finish' bound' (argument recur) (argument recur') ts (Viable GreedyArgument) := by
  intro e s hfail
  by_cases hnamed : Named ts
  · obtain ⟨name, colon, ts, rfl⟩ : ∃ name colon ts', ts = name :: colon :: ts' := by
      match ts, hnamed with
      | name :: colon :: ts, _ => exact ⟨name, colon, ts, rfl⟩
    rw [argument_eq_of_named hnamed.1 hnamed.2] at hfail
    rw [List.length_cons, List.length_cons] at hlt
    obtain ⟨used, rest, rfl, hreported, hgoal, hagain⟩ :=
      hinner.expression_map (g := fun value => (⟨some name.text, value⟩ : Argument Expr))
        (by omega) e s hfail
    refine ⟨name :: colon :: used, rest, rfl, hreported, hgoal.prepend [name, colon] ?_,
      fun rest' hhead hfinish hlt' => ?_⟩
    · exact fun _ h => ⟨_, .named hnamed.1 hnamed.2 h, nofun⟩
    · rw [List.cons_append, List.cons_append, argument_eq_of_named hnamed.1 hnamed.2]
      simp only [List.cons_append, List.length_cons] at hlt'
      exact hagain rest' hhead hfinish (by omega)
  · rw [argument_eq_of_unnamed hnamed] at hfail
    obtain ⟨used, rest, rfl, hreported, hgoal, hagain⟩ :=
      hinner.expression_map (g := fun value => (⟨none, value⟩ : Argument Expr)) hlt e s hfail
    refine ⟨used, rest, rfl, hreported, hgoal.mono ?_, fun rest' hhead hfinish hlt' => ?_⟩
    · refine fun hrest h => ⟨_, .unnamed h, fun _ ⟨hname, hcolon⟩ => ?_⟩
      rw [← h.rest_eq_tail hname hcolon] at hcolon
      exact next_ne_of_mem hrest (by decide) hcolon
    · rw [argument_eq_of_unnamed]
      · exact hagain rest' hhead hfinish hlt'
      cases used with
      | cons t used =>
        rw [Named, List.cons_append, List.tail_cons, next_append used hhead]
        exact hnamed
      | nil =>
        rintro ⟨hname, -⟩
        cases rest' with
        | nil => cases hname
        | cons name rest' =>
          have hone : [name].length < bound' := Nat.lt_of_le_of_lt (by simp) hlt'
          obtain ⟨s', hfail'⟩ := hagain [name] hhead hfinish hone
          have hok := ((hinner.reads'.expression hone).eq_ok (derives_name hname))
          rcases bind_eq_error.1 hfail' with hfail' | ⟨_, _, _, hfail'⟩
          · rw [List.nil_append, hok] at hfail'
            cases hfail'
          · cases hfail'

theorem argument_recognizes :
    Recognizes finish finish' bound bound' (argument recur) (argument recur') GreedyArgument where
  reads := argument_reads hinner.reads
  reads' := argument_reads hinner.reads'
  breaks := argument_breaks hinner

theorem arguments_recognizes (hle : bound ≤ bound') :
    Recognizes finish finish' bound bound'
      (parenthesized bound (fun _ => argument recur) .endOfArguments)
      (parenthesized bound' (fun _ => argument recur') .endOfArguments)
      (Parenthesized DerivesArgument) :=
  (parenthesized_recognizes (R := DerivesArgument) (S := fun _ _ => True)
    (fun _ => (argument_recognizes hinner).congr (and_iff_left fun _ _ => trivial).symm)
    phrasal_argument argument_iff_of_close argument_next_ne hle rfl).congr
    (and_iff_left (List.pairwise_of_forall fun _ _ => trivial))

/-! ### Blocks -/

/-- An expression breaks together with the items behind it. -/
theorem RecognizesInner.item_breaks {f f' : Expr → Parser β} (hlt : ts.length < bound)
    (hm : m ≤ bound')
    (hf : ∀ e mid, mid.length < ts.length →
      Breaks finish finish' (m - 1) (f e) (f' e) mid (Continues Items)) :
    Breaks finish finish' m (recur .expression >>= f) (recur' .expression >>= f') ts
      (Continues Items) := by
  refine (hinner.expression_bind hlt hm (resumes_nil fun _ _ _ => ⟨[], .done⟩) hf).mono
    (fun used hused => ?_) (Nat.le_refl _)
  cases used with
  | nil => exact ⟨[], nofun, fun rest hrest => ⟨fun _ => hrest, [], .done⟩⟩
  | cons t used => exact (hused.mono fun _ ⟨e, mid, he, hes⟩ => ⟨_, .more he hes⟩).continues

theorem items_breaks (hlt : ts.length < bound) (hrounds : ts.length < rounds)
    (hle : rounds ≤ rounds') (hn : n ≤ rounds') (hn' : n ≤ bound') (read : List Expr) :
    Breaks finish finish' n (items recur rounds read) (items recur' rounds' read) ts
      (Continues Items) := by
  induction rounds generalizing ts read rounds' n with
  | zero => exact absurd hrounds (Nat.not_lt_zero _)
  | succ rounds ih =>
    cases rounds' with
    | zero => exact absurd hle (Nat.not_succ_le_zero _)
    | succ rounds' =>
      rw [items, items]
      refine .current fun t _ => ?_
      by_cases hend : t.kind = .rightParen ∨ t.kind = .endOfInput
      · rw [if_pos hend]
        exact .pure _
      · rw [if_neg hend, if_neg hend]
        refine hinner.item_breaks hlt hn' fun e mid hmid => ih ?_ ?_ ?_ ?_ ?_ (e :: read)
        all_goals omega

theorem block_breaks (hle : bound ≤ bound') (hlt : ts.length < bound) (position : Position) :
    Breaks finish finish' bound' (block recur bound position) (block recur' bound' position) ts
      (Viable (Atom .leftParen t)) := by
  have hclose : Viable (fun ts (_ : Unit) rest => rest = ts) [] :=
    ⟨[], nofun, fun rest _ => ⟨(), rfl⟩⟩
  rw [block, block]
  refine (Breaks.sequence (items_breaks hinner hlt hlt hle (Nat.le_refl _) (Nat.le_refl _) [])
    (items_reads hinner.reads hlt hlt []) (fun _ hts' => items_reads hinner.reads' hts' hts' [])
    (fun ⟨es, hes, _⟩ => ⟨es, hes⟩) ?_ (fun _ _ _ _ => Items.exchange)
    (resumes_after (k := .rightParen) (by decide) (by decide) hclose) fun es mid _ _ => ?_).mono
    (fun used hused => hused.viable.mono ?_) (Nat.le_refl _)
  · rintro es mid mid' ⟨new, hnew, hend, heq⟩ hnext
    obtain ⟨ts', hts', hnew'⟩ := hnew.exchange (.inl hnext)
    exact ⟨ts', hts', new, hnew', hnext ▸ hend, heq⟩
  · refine .expect_after (by decide) (by decide) rfl hclose fun close mid' _ => ?_
    match es with
    | [] => exact .pure _
    | [item] => exact .pure _
    | _ :: _ :: _ => exact .pure _
  · rintro ts - rest - ⟨es, _, hes, close, mid, rfl, hkind, rfl⟩
    match es, hes with
    | [], hes => exact ⟨_, .block hes hkind (by simp)⟩
    | [e], hes => exact ⟨_, .group hes hkind⟩
    | _ :: _ :: _, hes => exact ⟨_, .block hes hkind (by simp)⟩

/-! ### Choices -/

/-- A further branch breaks together with those behind it. -/
theorem furtherBranch_breaks {word : Token} (hword : word.kind = .keyword .eli)
    (hlt : ts.length < bound) (hm : m ≤ bound') (read : List (Branch Expr))
    (hmore : ∀ mid branch, mid.length < ts.length →
      Breaks finish finish' m (furtherBranches recur rounds (branch :: read))
        (furtherBranches recur' rounds' (branch :: read)) mid (Continues FurtherBranches)) :
    Breaks finish finish' m
      (do
        let condition ← furtherCondition recur
        let _ ← Parser.expect (.keyword .then) .thenAfterEli
        let body ← recur .expression
        match condition with
        | some condition => furtherBranches recur rounds (⟨condition, body⟩ :: read)
        | none => return (read.reverse, some body))
      (do
        let condition ← furtherCondition recur'
        let _ ← Parser.expect (.keyword .then) .thenAfterEli
        let body ← recur' .expression
        match condition with
        | some condition => furtherBranches recur' rounds' (⟨condition, body⟩ :: read)
        | none => return (read.reverse, some body)) ts
      fun used => Continues FurtherBranches (word :: used) := by
  have hnone : ∀ (word' : Token) {used}, word'.kind = .keyword .then →
      Viable (Derives .expression) used → Viable FurtherBranches (word :: word' :: used) :=
    fun word' used hthen hused => hused.prepend [word, word'] fun _ hbody =>
      ⟨([], some _), .noCondition hword hthen hbody⟩
  rw [furtherCondition, furtherCondition, bind_assoc, bind_assoc]
  refine .isAt ?_
  by_cases hthen : next ts = .keyword .then
  · rw [hthen, beq_self_eq_true, if_pos rfl, if_pos rfl, pure_bind, pure_bind]
    refine .expect (by decide) rfl ?_ fun word' mid hts hkind => ?_
    · have hsample := hnone (sample (.keyword .then)) rfl viable_expression
      exact (hsample.front [word] (by decide)).continues
    · rw [hts, List.length_cons] at hlt
      exact (hinner.expression_map (by omega)).mono
        (fun used hused => (hnone word' hkind hused).continues) (by omega)
  · rw [beq_false_of_ne hthen, if_neg Bool.false_ne_true, if_neg Bool.false_ne_true, bind_assoc,
      bind_assoc]
    refine (hinner.expression_bind (S := fun e => After (.keyword .then) (BranchEnd e)) hlt hm
      ?_ fun e mid hmid => ?_).mono (fun used hused => ?_) (Nat.le_refl _)
    · have hmem : Token.Kind.keyword .then ∈ closers := by decide
      exact ⟨[sample (.keyword .then), sample (.keyword .null)], by decide, fun rest hrest =>
        ⟨hmem, fun e => ⟨_, _, _, rfl, rfl, branchEnd_null e hrest⟩⟩⟩
    · rw [pure_bind, pure_bind]
      refine .expect_after (by decide) (by decide) rfl ?_ fun word' mid' hmid' => ?_
      · exact ⟨[sample (.keyword .null)], by decide, fun rest hrest => ⟨_, branchEnd_null e hrest⟩⟩
      rw [hmid', List.length_cons] at hmid
      by_cases hempty : e.isEmptyBlock
      · rw [if_pos hempty]
        refine (hinner.expression_map (by omega)).mono (fun used hused => hused.mono ?_) (by omega)
        exact fun _ hbody => ⟨_, .inl ⟨hempty, hbody⟩⟩
      · rw [if_neg hempty]
        refine (hinner.expression_bind (m := m - 1 - 1) (S := fun _ => FurtherBranches) (by omega)
          (by omega) ?_ fun body mid'' hmid'' => ?_).mono (fun used hused => hused.mono ?_)
          (Nat.le_refl _)
        · exact resumes_nil fun _ _ hrest => ⟨_, furtherBranches_nil hrest⟩
        · exact (hmore mid'' ⟨e, body⟩ (by omega)).mono (fun _ => id) (by omega)
        · rintro _ r rest - ⟨body, mid, hbody, hr⟩
          exact ⟨body, .inr ⟨hempty, mid, r, hbody, hr⟩⟩
    · have hmore : Viable FurtherBranches (word :: used) :=
        hused.prepend [word] fun _ h => by
          obtain ⟨e, _, he, word', mid, hmid, hthen, hend⟩ := h
          exact furtherBranches_of_end hword (hmid ▸ he) hthen hend
      exact hmore.continues

theorem furtherBranches_breaks (hlt : ts.length < bound) (hrounds : ts.length < rounds)
    (hle : rounds ≤ rounds') (hn : n ≤ rounds') (hn' : n ≤ bound') (read : List (Branch Expr)) :
    Breaks finish finish' n (furtherBranches recur rounds read)
      (furtherBranches recur' rounds' read) ts (Continues FurtherBranches) := by
  induction rounds generalizing ts read rounds' n with
  | zero => exact absurd hrounds (Nat.not_lt_zero _)
  | succ rounds ih =>
    cases rounds' with
    | zero => exact absurd hle (Nat.not_succ_le_zero _)
    | succ rounds' =>
      rw [furtherBranches, furtherBranches]
      refine .accept (by decide) (fun word mid hts hword => ?_) fun heli => ?_
      · rw [hts, List.length_cons] at hlt hrounds
        refine furtherBranch_breaks hinner hword (by omega) (by omega) read
          fun mid' branch hmid' => ih ?_ ?_ ?_ ?_ ?_ (branch :: read)
        all_goals omega
      refine .accept (by decide) (fun word mid hts hword => ?_) fun hel => .pure _
      rw [hts, List.length_cons] at hlt
      refine (hinner.expression_map (by omega)).mono (fun used hused => ?_) (by omega)
      have hmore : Viable FurtherBranches (word :: used) :=
        hused.prepend [word] fun _ hbody => ⟨([], some _), .otherwise hword hbody⟩
      exact hmore.continues

theorem choice_breaks (hle : bound ≤ bound') (hlt : ts.length < bound) (position : Position) :
    Breaks finish finish' bound' (choice recur bound position) (choice recur' bound' position) ts
      (Viable (Atom (.keyword .if) t)) := by
  have hbranches : Resumes fun _ : Expr => FurtherBranches :=
    resumes_nil fun _ _ hrest => ⟨_, furtherBranches_nil hrest⟩
  rw [choice, choice]
  refine (hinner.expression_expect (S := Sequence (Derives .expression) fun _ => FurtherBranches)
    (by decide) (by decide) rfl hlt (viable_sequence hbranches) fun condition mid hmid => ?_).mono
    (fun used hused => hused.mono ?_) (Nat.le_refl _)
  · refine hinner.expression_bind hmid (Nat.le_refl _) hbranches fun body mid' hmid' =>
      (furtherBranches_breaks hinner ?_ ?_ hle ?_ ?_ [⟨condition, body⟩]).map
    all_goals omega
  · rintro ts r rest - ⟨condition, _, hcondition, word, mid, rfl, hword, body, mid', hbody, hr⟩
    exact ⟨_, .choice hcondition hword hbody hr⟩

/-! ### Constructs -/

theorem whileLoop_breaks (hlt : ts.length < bound) (position : Position) :
    Breaks finish finish' bound' (whileLoop recur position) (whileLoop recur' position) ts
      (Viable (Atom (.keyword .while) t)) := by
  rw [whileLoop, whileLoop]
  refine (hinner.expression_expect (by decide) (by decide) rfl hlt viable_expression
    fun condition mid hmid => hinner.expression_map hmid).mono
    (fun used hused => hused.mono ?_) (Nat.le_refl _)
  rintro ts body rest - ⟨condition, _, hcondition, word, mid, rfl, hword, hbody⟩
  exact ⟨_, .whileLoop hcondition hword hbody⟩

/-- The step of a loop, which may be absent, breaks together with what comes behind it. -/
theorem loopStep_breaks {f f' : Option Expr → Parser β} (hlt : ts.length < bound)
    (hf : ∀ step mid, mid.length < bound →
      Breaks finish finish' bound' (f step) (f' step) mid (Viable (Derives .expression))) :
    Breaks finish finish' bound'
      (do
        let step ← loopStep recur
        let _ ← Parser.expect (.keyword .then) .thenAfterBounds
        f step)
      (do
        let step ← loopStep recur'
        let _ ← Parser.expect (.keyword .then) .thenAfterBounds
        f' step) ts (Continues LoopEnd) := by
  rw [loopStep, loopStep, bind_assoc, bind_assoc]
  refine .accept (by decide) (fun word mid hts hword => ?_) fun hstep => ?_
  · rw [hts, List.length_cons] at hlt
    rw [if_pos rfl, if_pos rfl, bind_assoc, bind_assoc]
    refine (hinner.expression_expect (by decide) (by decide) rfl (by omega) viable_expression
      fun step mid' hmid' => hf (some step) mid' hmid').mono (fun used hused => ?_) (Nat.sub_le _ _)
    exact (hused.after hword).mono fun _ hbody => ⟨_, .inr hbody⟩
  · rw [if_neg Bool.false_ne_true, if_neg Bool.false_ne_true, pure_bind, pure_bind]
    refine (Breaks.expect_after (by decide) (by decide) rfl viable_expression
      fun word mid hmid => ?_).mono (fun used hused => hused.mono fun _ hbody => ⟨_, .inl hbody⟩)
      (Nat.le_refl _)
    rw [hmid, List.length_cons] at hlt
    exact (hf none mid (by omega)).mono (fun _ => id) (Nat.sub_le _ _)

theorem forLoop_breaks (hlt : ts.length < bound) (position : Position) :
    Breaks finish finish' bound' (forLoop recur position) (forLoop recur' position) ts
      (Viable (Atom (.keyword .for) t)) := by
  have hend : Resumes fun _ : Expr => LoopEnd :=
    (resumes_after (by decide) (by decide) viable_expression).mono .inl
  have hlast := viable_sequence hend
  have hfirst := viable_sequence
    (resumes_after (α := Expr) (k := .keyword .to) (by decide) (by decide) hlast)
  have hloop : ∀ (name sign : Token) {used}, name.kind = .identifier → sign.kind = .assign →
      Viable (Sequence (Derives .expression) fun _ => After (.keyword .to)
        (Sequence (Derives .expression) fun _ => LoopEnd)) used →
      Viable (Atom (.keyword .for) t) (name :: sign :: used) :=
    fun name sign used hname hsign hused =>
      hused.prepend [name, sign] fun _ h => atom_forLoop hname hsign h
  rw [forLoop, forLoop]
  refine .expect (by decide) rfl ?_ fun name mid hts hname => ?_
  · have hsample := hloop (sample .identifier) (sample .assign) rfl rfl hfirst
    exact hsample.front [] (by decide)
  refine .expect (by decide) rfl ?_ fun sign mid₁ hmid hsign => ?_
  · exact (hloop name (sample .assign) hname rfl hfirst).front [name] (by decide)
  rw [hts, hmid, List.length_cons, List.length_cons] at hlt
  refine (hinner.expression_expect (by decide) (by decide) rfl (by omega) hlast
    fun first mid₂ hmid₂ => ?_).mono (fun used hused => hloop name sign hname hsign hused)
      (by omega)
  refine hinner.expression_bind hmid₂ (Nat.le_refl _) hend fun last mid₃ hmid₃ => ?_
  exact (loopStep_breaks hinner (by omega) fun step mid₄ hmid₄ =>
    hinner.expression_map hmid₄).mono (fun _ => id) (Nat.sub_le _ _)

theorem function_breaks (hle : bound ≤ bound') (hlt : ts.length < bound) (position : Position) :
    Breaks finish finish' bound' (function recur bound position)
      (function recur' bound' position) ts (Viable (Atom (.keyword .fun) t)) := by
  have hbody : Resumes fun _ : List String => After .arrow (Derives .expression) :=
    resumes_after (by decide) (by decide) viable_expression
  rw [function, function]
  refine (definedName_breaks (S := FunctionEnd) fun name mid hmid =>
    .expect (by decide) rfl ?_ fun paren mid₁ hmid₁ hparen => ?_).mono
    (fun used hused => hused.mono ?_) (Nat.le_refl _)
  · have hnone : Viable (fun ts names rest => Parenthesized Parameter ts names rest ∧
        names.Nodup) [] := ⟨[sample .rightParen], by decide, fun rest _ => ⟨[], .none rfl, .nil⟩⟩
    exact ((hnone.sequence hbody).after (t := sample .leftParen) rfl).viable.front [] (by decide)
  · rw [hmid₁, List.length_cons] at hmid
    refine ((parameters_recognizes hle).bind (phrasal_parameter.parenthesized.and _) (by omega)
      (Nat.sub_le _ _) hbody fun names mid₂ _ hmid₂ => ?_).mono
      (fun used hused => (hused.after hparen).viable) (Nat.le_refl _)
    refine .expect_after (by decide) (by decide) rfl viable_expression fun arrow mid₃ hmid₃ => ?_
    rw [hmid₃, List.length_cons] at hmid₂
    exact (hinner.expression_map (by omega)).mono (fun _ => id) (by omega)
  · rintro ts _ rest - ⟨name, _, hname, paren, mid, rfl, hparen, parameters, _,
      ⟨hparameters, hdistinct⟩, arrow, mid', rfl, harrow, hbody⟩
    exact ⟨_, .function hname hparen hparameters hdistinct harrow hbody⟩

theorem returning_breaks (hlt : ts.length < bound) (position : Position) :
    Breaks finish finish' bound' (returning recur position) (returning recur' position) ts
      (Viable (Atom (.keyword .return) t)) := by
  rw [returning, returning]
  refine .current fun t' _ => ?_
  split
  · exact (hinner.expression_map hlt).mono
      (fun used hused => hused.mono fun _ h => ⟨_, .returning h⟩) (Nat.le_refl _)
  · exact .pure _

end Phrases

end Phrase

end SnapshotScript
