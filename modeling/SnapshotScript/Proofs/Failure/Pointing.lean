import SnapshotScript.Proofs.Failure.Places
import SnapshotScript.Proofs.Grammar.Relocation
import SnapshotScript.Proofs.Relocation
import SnapshotScript.Report

/-!
# Errors point into the text

Whatever is wrong with a text, the error that it yields has the position of a beginning of the text,
and so has each call that was active.  The reader counts the lines on its way, and a report splits
the text anew, where a carriage return before a line feed belongs to no line.  Still the mark below
the quoted line stands at most one column behind it: the positions of errors are those of the two
ends of lexemes, and no lexeme ends with a carriage return or a line feed.

The parser and the evaluator only hand positions on.  So it is not necessary to follow them through
the rules of either: if all positions of which a property fails are moved elsewhere beforehand, and
nothing that goes in has such a position, then nothing that comes out has one, because it is not
moved.
-/

namespace SnapshotScript

/-! ### Positions in a text -/

namespace Position

/-- The line of the text with the given number, counted from zero, up to its line feed. -/
def lineOf (text : List Char) (number : Nat) : List Char :=
  (dropLines number text).takeWhile (· ≠ '\n')

/-- The position is that of a beginning of the text, and where it names a line that can be quoted,
it is at most one column behind it. -/
structure PointsInto (text : List Char) (p : Position) : Prop where
  beginning : ∃ before, before <+: text ∧ p = .behind before
  column_le : ∀ quoted, line? (p.line - 1) text = some quoted → p.column ≤ quoted.length + 1

variable {text before : List Char} {p : Position}

/-- The column behind a text is one more than there are characters on its last line. -/
theorem column_behind (before : List Char) :
    (behind before).column = (unfinishedLine before).length + 1 := by
  simp [behind, unfinishedLine]

/-- The line that the position of a beginning names goes on from the last line of the beginning. -/
theorem lineOf_behind (before rest : List Char) :
    lineOf (before ++ rest) ((behind before).line - 1) =
      unfinishedLine before ++ rest.takeWhile (· ≠ '\n') := by
  have hdrop : dropLines ((behind before).line - 1) (before ++ rest) =
      unfinishedLine before ++ rest := dropLines_count before rest
  rw [lineOf, hdrop, List.takeWhile_append_of_pos fun c hc => by
    simpa using ne_lineFeed_of_mem_unfinishedLine hc]

/-- The line of a position in a text is one of the lines of the text, and its column is at most one
behind the characters of this line. -/
theorem bounds_of_prefix (h : before <+: text) :
    1 ≤ (behind before).line ∧ (behind before).line ≤ text.count '\n' + 1 ∧
      1 ≤ (behind before).column ∧
        (behind before).column ≤ (lineOf text ((behind before).line - 1)).length + 1 := by
  obtain ⟨rest, rfl⟩ := h
  refine ⟨Nat.le_add_left 1 _, ?_, Nat.le_add_left 1 _, ?_⟩
  · exact Nat.succ_le_succ ((List.prefix_append before rest).sublist.count_le '\n')
  · rw [lineOf_behind, column_behind, List.length_append]
    omega

namespace PointsInto

/-- The place in front of a character that is no part of a line ending points into the text. -/
theorem before_char (before : List Char) {c : Char} (hfeed : c ≠ '\n') (hreturn : c ≠ '\r')
    (after : List Char) : (behind before).PointsInto (before ++ c :: after) := by
  refine ⟨⟨before, List.prefix_append _ _, rfl⟩, fun quoted hquoted => ?_⟩
  obtain ⟨-, -, quoted', hquoted', hcolumn⟩ := isOn_behind before hfeed hreturn after
  rw [hquoted] at hquoted'
  cases hquoted'
  exact Nat.le_succ_of_le hcolumn

/-- The place behind a character that is no part of a line ending points into the text. -/
theorem after_char (before : List Char) {c : Char} (hfeed : c ≠ '\n') (hreturn : c ≠ '\r')
    (after : List Char) : (behind (before ++ [c])).PointsInto (before ++ c :: after) := by
  have hnext : behind (before ++ [c]) = ⟨(behind before).line, (behind before).column + 1⟩ := by
    rw [behind_concat, advance, if_neg hfeed]
  refine ⟨⟨before ++ [c], ⟨after, by simp⟩, rfl⟩, fun quoted hquoted => ?_⟩
  obtain ⟨-, -, quoted', hquoted', hcolumn⟩ := isOn_behind before hfeed hreturn after
  rw [hnext] at hquoted ⊢
  rw [hquoted] at hquoted'
  cases hquoted'
  exact Nat.succ_le_succ hcolumn

/-- The end of the text points into the text. -/
theorem atEnd (text : List Char) : (behind text).PointsInto text := by
  refine ⟨⟨text, List.prefix_rfl, rfl⟩, fun quoted hquoted => ?_⟩
  have hdrop : dropLines ((behind text).line - 1) text = unfinishedLine text := by
    have hcount := dropLines_count text []
    rwa [List.append_nil, List.append_nil] at hcount
  have hline : (unfinishedLine text).takeWhile (· ≠ '\n') = unfinishedLine text :=
    List.takeWhile_eq_self_iff.2 fun c hc => by simpa using ne_lineFeed_of_mem_unfinishedLine hc
  rw [line?, hdrop] at hquoted
  split at hquoted
  · cases hquoted
  · rw [hline] at hquoted
    simp only [Nat.lt_irrefl, if_false, Option.some.injEq] at hquoted
    rw [column_behind, ← hquoted]

theorem atStart (text : List Char) : start.PointsInto text :=
  ⟨⟨[], List.nil_prefix, rfl⟩, fun _ _ => Nat.le_add_left 1 _⟩

end PointsInto

end Position

namespace Lexical

variable {k : Token.Kind} {lexeme content : List Char}

/-- No lexeme ends with a carriage return or a line feed. -/
theorem Lexeme.exists_concat (h : Lexeme k lexeme content) :
    ∃ cs c, lexeme = cs ++ [c] ∧ c ≠ '\n' ∧ c ≠ '\r' := by
  have hlast : ∀ {cs : List Char} (hne : cs ≠ []) {p : Char → Bool}, (∀ c ∈ cs, p c = true) →
      p '\n' = false → p '\r' = false →
      ∃ ds c, cs = ds ++ [c] ∧ c ≠ '\n' ∧ c ≠ '\r' := by
    intro cs hne p hall hfeed hreturn
    have hp := hall _ (List.getLast_mem hne)
    refine ⟨cs.dropLast, cs.getLast hne, (List.dropLast_append_getLast hne).symm, ?_, ?_⟩
    · exact fun heq => by simp [heq, hfeed] at hp
    · exact fun heq => by simp [heq, hreturn] at hp
  cases h with
  | @identifier c cs hc hcs _ =>
    refine hlast (p := isNamePart) (List.cons_ne_nil c cs) (List.forall_mem_cons.2 ⟨?_, hcs⟩)
      (by decide) (by decide)
    simp [isNamePart, hc]
  | keyword word =>
    have hname : word.word.toList ≠ [] ∧ word.word.toList.all isNamePart = true := by
      cases word <;> decide
    exact hlast hname.1 (List.all_eq_true.1 hname.2) (by decide) (by decide)
  | int h => exact hlast h.1 h.2 (by decide) (by decide)
  | @float cs ds _ h =>
    obtain ⟨es, c, rfl, hc⟩ := hlast h.1 h.2 (by decide) (by decide)
    exact ⟨cs ++ '.' :: es, c, by simp, hc⟩
  | string => exact ⟨_ :: _, '\'', rfl, by decide, by decide⟩
  | symbol hmem =>
    have hsymbols : ∀ k ∈ symbols, k.spelling.toList ≠ [] ∧
        k.spelling.toList.all (fun c => c ≠ '\n' ∧ c ≠ '\r') = true := by
      decide
    obtain ⟨hne, hall⟩ := hsymbols k hmem
    exact hlast hne (List.all_eq_true.1 hall) (by decide) (by decide)

/-- No line ending begins a lexeme. -/
theorem ne_of_initial {c : Char} (hc : initial c ≠ .layout) : c ≠ '\n' ∧ c ≠ '\r' := by
  constructor <;> rintro rfl <;> exact hc (by decide)

variable {before read rest : List Char}

/-- An error of the reader points into the text. -/
theorem Faulty.pointsInto {e : LexError} (h : Faulty before read rest e) :
    e.position.PointsInto (before ++ (read ++ rest)) := by
  have hfirst : (Position.behind before).PointsInto (before ++ (read ++ rest)) := by
    obtain ⟨c, cs, rfl, hc⟩ := h.exists_cons
    exact .before_char before (ne_of_initial hc).1 (ne_of_initial hc).2 (cs ++ rest)
  cases h with
  | unexpectedCharacter | unterminatedString | invalidNumber => exact hfirst
  | @unknownEscape written content c rest _ _ =>
    have hbackslash := Position.PointsInto.before_char (before ++ '\'' :: written)
      (show '\\' ≠ '\n' by decide) (show '\\' ≠ '\r' by decide) (c :: rest)
    simpa [LexError.position] using hbackslash

/-- Both ends of a lexeme point into the text. -/
theorem Lexeme.pointsInto (h : Lexeme k lexeme content) :
    (token before k lexeme content).first.PointsInto (before ++ (lexeme ++ rest)) ∧
      (token before k lexeme content).last.PointsInto (before ++ (lexeme ++ rest)) := by
  constructor
  · obtain ⟨c, cs, rfl, -, hc⟩ := h.exists_cons
    exact .before_char before (ne_of_initial hc).1 (ne_of_initial hc).2 (cs ++ rest)
  · obtain ⟨ds, d, rfl, hfeed, hreturn⟩ := h.exists_concat
    have hend := Position.PointsInto.after_char (before ++ ds) hfeed hreturn rest
    simpa [token] using hend

/-- An error of the reader, and both ends of each token, point into the text. -/
theorem Tokenizes.pointsInto {text : List Char} {result : Except LexError (List Token)}
    (h : Tokenizes before text result) :
    (∀ e, result = .error e → e.position.PointsInto (before ++ text)) ∧
      ∀ tokens, result = .ok tokens → ∀ t ∈ tokens,
        t.first.PointsInto (before ++ text) ∧ t.last.PointsInto (before ++ text) := by
  induction h with
  | @finish before gap =>
    refine ⟨nofun, ?_⟩
    rintro tokens ⟨rfl⟩ t ht
    obtain rfl := List.mem_singleton.1 ht
    exact ⟨.atEnd _, .atEnd _⟩
  | @fault before gap read rest e _ hfaulty =>
    refine ⟨?_, nofun⟩
    rintro _ ⟨⟩
    rw [← List.append_assoc]
    exact hfaulty.pointsInto
  | @token before gap k lexeme content rest result _ haccepted _ ih =>
    rw [List.append_assoc (before ++ gap)] at ih
    rw [← List.append_assoc before gap]
    cases result with
    | error e =>
      refine ⟨?_, nofun⟩
      rintro _ ⟨⟩
      exact ih.1 e rfl
    | ok tokens =>
      refine ⟨nofun, ?_⟩
      rintro _ ⟨⟩ t ht
      rcases List.mem_cons.1 ht with rfl | ht
      · exact haccepted.isLexeme.pointsInto
      · exact ih.2 tokens rfl t ht

end Lexical

/-! ### What is not moved -/

/-- Leaves the positions of which `S` holds where they are, and moves all others. -/
noncomputable def Position.moveUnless (S : Position → Prop) (p : Position) : Position :=
  open Classical in if S p then p else ⟨p.line + 1, p.column⟩

section

/-- A list is not changed if none of its elements is. -/
theorem map_eq_self {α : Type} {f : α → α} {as : List α} (h : ∀ a ∈ as, f a = a) : as.map f = as :=
  (List.map_congr_left h).trans (List.map_id as)

variable {S : Position → Prop}

/-- The positions of which `S` holds are those that stay. -/
theorem Position.moveUnless_eq_self {p : Position} : p.moveUnless S = p ↔ S p := by
  unfold moveUnless
  split
  · next h => exact iff_of_true rfl h
  · next h =>
    refine iff_of_false (fun heq => ?_) h
    exact absurd (congrArg Position.line heq) (Nat.succ_ne_self p.line)

/-- A tree whose nodes all stay is not moved. -/
theorem Expr.relocate_eq_self {π : Position → Position} {e : Expr}
    (h : e.Everywhere fun n => π n.position = n.position) : e.relocate π = e := by
  induction h with
  | @node e hp _ ih =>
    cases e with
    | literal | identifier | struct => exact congrArg _ hp
    | call callee arguments p =>
      obtain ⟨hcallee, harguments⟩ := Expr.forall_children_call.1 ih
      have hmap : arguments.map (Argument.map (relocate π)) = arguments :=
        map_eq_self fun a ha => congrArg (Argument.mk a.name) (harguments a ha)
      rw [relocate, relocateArguments_eq, hcallee, hmap]
      exact congrArg _ hp
    | choice branches otherwise p =>
      obtain ⟨hbranches, hotherwise⟩ := Expr.forall_children_choice.1 ih
      have hmap : branches.map (Branch.map (relocate π)) = branches :=
        map_eq_self fun b hb => congrArg₂ Branch.mk (hbranches b hb).1 (hbranches b hb).2
      have hrest : otherwise.map (relocate π) = otherwise := by
        cases otherwise with
        | none => rfl
        | some e => exact congrArg some (hotherwise e rfl)
      rw [relocate, relocateBranches_eq, relocateOption_eq, hmap, hrest]
      exact congrArg _ hp
    | block items p =>
      have hmap : items.map (relocate π) = items := map_eq_self ih
      rw [relocate, relocateItems_eq, hmap]
      exact congrArg _ hp
    | returning value p =>
      cases value with
      | none => exact congrArg _ hp
      | some e =>
        rw [relocate, relocateOption, ih e List.mem_cons_self]
        exact congrArg _ hp
    | forLoop name first bound step body p =>
      have hfirst := ih first (by simp [children])
      have hbound := ih bound (by simp [children])
      have hbody := ih body (by simp [children])
      have hstep : step.map (relocate π) = step := by
        cases step with
        | none => rfl
        | some e => exact congrArg some (ih e (by simp [children]))
      rw [relocate, relocateOption_eq, hfirst, hbound, hstep, hbody]
      exact congrArg _ hp
    | _ =>
      rw [relocate]
      simp only [children, List.forall_mem_cons] at ih
      simp only [ih]
      exact congrArg _ hp

/-- The position of a block does not matter for its evaluation. -/
theorem evaluate_block_position {σ κ : Type} [Runtime σ κ] (limit steps : Nat) (items : List Expr)
    (p q : Position) :
    evaluate (σ := σ) limit steps (.block items p) = evaluate limit steps (.block items q) := by
  cases steps <;> rfl

/-- Where a machine and the expressions that it evaluates only mention positions of which `S` holds,
so does an error. -/
theorem evaluate_positions {limit steps : Nat} {items : List Expr} {p : Position} {m t : Machine}
    {e : RuntimeError} (hm : m.relocate (Position.moveUnless S) = m)
    (hitems : ∀ item ∈ items, Grammar.Standing S item)
    (h : evaluate limit steps (.block items p) m = .error (.failed e) t) :
    S e.position ∧ ∀ c ∈ e.trace, S c.site := by
  have hitem : items.map (Expr.relocate (Position.moveUnless S)) = items := by
    refine map_eq_self fun item hitem => ?_
    refine Expr.relocate_eq_self (Expr.Everywhere.mono (hitems item hitem) ?_)
    exact fun n hn => Position.moveUnless_eq_self.2 hn
  have hshows := (Machine.relocation (Position.moveUnless S) #[]).evaluate_shows limit steps
    (.block items p) m
  have hstate : (Machine.relocation (Position.moveUnless S) #[]).mirror.state m = m :=
    (Machine.after_empty _).trans hm
  have hblock : (Expr.block items p).relocate (Position.moveUnless S) =
      .block items (p.moveUnless S) := by
    rw [Expr.relocate, Expr.relocateItems_eq, hitem]
  have hexpr : (Expr.block items p).relocate
      (Machine.relocation (Position.moveUnless S) #[]).position = _ := hblock
  rw [hstate, hexpr, evaluate_block_position limit steps items _ p, h] at hshows
  injection hshows with herror
  injection herror with herror
  have hposition : e.position.moveUnless S = e.position :=
    (congrArg RuntimeError.position herror).symm
  have htrace : e.trace.map (ActiveCall.relocate (Position.moveUnless S)) = e.trace :=
    (congrArg RuntimeError.trace herror).symm
  refine ⟨Position.moveUnless_eq_self.1 hposition, fun c hc => ?_⟩
  obtain ⟨i, hi, rfl⟩ := List.mem_iff_getElem.1 hc
  have hcall : (e.trace[i]).relocate (Position.moveUnless S) = e.trace[i] := by
    have hget := congrArg (·[i]?) htrace
    simpa [hi] using hget
  exact Position.moveUnless_eq_self.1 (congrArg ActiveCall.site hcall)

/-- Where tokens only mention positions of which `S` holds, so does an error of the parser. -/
theorem parseTokens_positions {tokens : List Token} {e : SyntaxError} (hstart : S .start)
    (htokens : ∀ t ∈ tokens, S t.first ∧ S t.last) (h : parseTokens tokens = .error e) :
    S e.position := by
  have hsame : tokens.map (Token.relocate (Position.moveUnless S)) = tokens := by
    refine map_eq_self fun t ht => ?_
    have hfirst := Position.moveUnless_eq_self.2 (htokens t ht).1
    have hlast := Position.moveUnless_eq_self.2 (htokens t ht).2
    rw [Token.relocate, hfirst, hlast]
  have hrelocated := parseTokens_relocate (Position.moveUnless S)
    (Position.moveUnless_eq_self.2 hstart) tokens
  rw [hsame, h] at hrelocated
  injection hrelocated with herror
  exact Position.moveUnless_eq_self.1
    (congrArg (fun error => error.found.first) herror).symm

end

/-- Before the first program a machine mentions no positions. -/
theorem Machine.initial_relocate (π : Position → Position) :
    Machine.initial.relocate π = Machine.initial := by
  have hroot : Scopes.empty.addRoot.2.relocate π = Scopes.empty.addRoot.2 := by
    simp [Scopes.relocate, Scopes.addRoot, Scopes.push, Scopes.empty, Frame.relocate,
      Bindings.recast]
  have hnames : Bindings.recast (.onPositions π) (Builtin.all.map fun b => (b.name, .builtin b)) =
      Builtin.all.map fun b => (b.name, (.builtin b : Value)) := by
    simp [Bindings.recast, Value.recast]
  have hscopes : Machine.initial.scopes.relocate π = Machine.initial.scopes := by
    have hglobals := Scopes.defineAll_relocate π Scopes.empty.addRoot.2 Scopes.empty.addRoot.1
      (Builtin.all.map fun b => (b.name, .builtin b))
    rw [hroot, hnames] at hglobals
    exact (congrArg Prod.snd hglobals).symm
  have hcells : Machine.initial.cells.recast (.onPositions π) = Machine.initial.cells :=
    Array.map_empty
  have hcalls : Machine.initial.calls.map (ActiveCall.relocate π) = Machine.initial.calls :=
    Array.map_empty
  rw [Machine.relocate, hscopes, hcells, hcalls]

/-! ### Errors of a text -/

/-- The calls that were active when the error arose, the outermost one first. -/
def Failure.trace : Failure → List ActiveCall
  | .runtime e => e.trace
  | .lexical _ | .syntactic _ | .unreadable _ | .exhausted => []

namespace Failure

/-- The report of a failure at a position consists of the position, the message, the quoted line and
the active calls. -/
theorem report_eq_of_position? {e : Failure} {p : Position} (h : e.position? = some p)
    (source text : String) :
    e.report source text = Report.location source p ++ " Error: " ++ e.message ++ "\n" ++
      Report.quotation text p ++ Report.traceback source e.trace := by
  unfold report
  rw [h]
  cases e <;> rfl

end Failure

/-- What a report quotes is the line of the position, if there is one, with a mark below the
column. -/
theorem Report.quotation_cases (text : String) (p : Position) :
    quotation text p = "" ∨ ∃ quoted, line? (p.line - 1) text.toList = some quoted ∧
      quotation text p = "    " ++ String.ofList quoted ++ "\n    " ++
        String.ofList (List.replicate (p.column - 1) ' ') ++ "^\n" := by
  unfold quotation
  cases hline : line? (p.line - 1) text.toList with
  | none => exact .inl rfl
  | some quoted => exact .inr ⟨quoted, rfl, rfl⟩

/-- A program that fails does so with an error of its evaluation. -/
theorem Interpreter.exists_failed_of_run {σ κ : Type} [Runtime σ κ] {i : Interpreter σ}
    {program : Expr} {e : Failure} (he : (i.run program).1 = .error e) (hended : e ≠ .exhausted) :
    ∃ error s, e = .runtime error ∧
      evaluate i.depth i.steps program i.machine = .error (.failed error) s := by
  unfold run at he
  generalize evaluate i.depth i.steps program i.machine = x at he
  rcases x with ⟨v, s⟩ | ⟨u, s⟩
  · cases he
  · cases u with
    | returned v => cases he
    | failed error =>
      cases he
      exact ⟨error, s, rfl, rfl⟩
    | exhausted =>
      cases he
      exact absurd rfl hended

/-- A program that is read from tokens, and run where nothing mentions a position, fails at
beginnings of tokens: the error has such a position, and the active calls have them. -/
theorem run_positions {i : Interpreter} {tokens : List Token} {program : Expr} {e : Failure}
    (hi : ∀ π, i.machine.relocate π = i.machine) (hparse : parseTokens tokens = .ok program)
    (he : (i.run program).1 = .error e) (hended : e ≠ .exhausted) :
    ∃ p, e.position? = some p ∧ ∀ q ∈ p :: e.trace.map ActiveCall.site,
      ∃ t ∈ tokens, t.kind ≠ .endOfInput ∧ t.first = q := by
  obtain ⟨error, s, rfl, hfailed⟩ := Interpreter.exists_failed_of_run he hended
  obtain ⟨items, start, rfl, hitems⟩ := standing_of_parseTokens hparse
    (S := fun q => ∃ t ∈ tokens, t.kind ≠ .endOfInput ∧ t.first = q)
    fun t ht hkind => ⟨t, ht, hkind, rfl⟩
  obtain ⟨hposition, htrace⟩ := evaluate_positions (hi _) hitems hfailed
  refine ⟨error.position, rfl, List.forall_mem_cons.2 ⟨hposition, ?_⟩⟩
  exact List.forall_mem_map.2 htrace

/-- Every error of a text that is evaluated by itself points into the text, and so do the active
calls.  Those of a running program stand at tokens. -/
theorem evaluateSource_positions {depth steps : Nat} {source : String} {e : Failure}
    (he : ((Interpreter.mk Machine.initial depth steps).evaluateSource source).1 = .error e)
    (hended : e ≠ .exhausted) :
    ∃ p, e.position? = some p ∧
      (∀ q ∈ p :: e.trace.map ActiveCall.site, q.PointsInto source.toList) ∧
      ∀ error, e = .runtime error → ∀ q ∈ p :: e.trace.map ActiveCall.site,
        ∃ tokens, tokenize source = .ok tokens ∧
          ∃ t ∈ tokens, t.kind ≠ .endOfInput ∧ t.first = q := by
  have hpoints : ∀ {result}, tokenize source = result → _ := fun h =>
    (Lexical.tokenizes_of_tokenize h).pointsInto
  unfold Interpreter.evaluateSource at he
  cases htokens : tokenize source with
  | error lexical =>
    rw [htokens] at he
    cases he
    refine ⟨lexical.position, rfl, fun q hq => ?_, nofun⟩
    obtain rfl := List.mem_singleton.1 hq
    exact (hpoints htokens).1 lexical rfl
  | ok tokens =>
    have hends : ∀ t ∈ tokens, t.first.PointsInto source.toList ∧ t.last.PointsInto source.toList :=
      (hpoints htokens).2 tokens rfl
    rw [htokens] at he
    dsimp only at he
    cases hparse : parseTokens tokens with
    | error syntactic =>
      rw [hparse] at he
      cases he
      refine ⟨syntactic.position, rfl, fun q hq => ?_, nofun⟩
      obtain rfl := List.mem_singleton.1 hq
      exact parseTokens_positions (.atStart _) hends hparse
    | ok program =>
      rw [hparse] at he
      -- to read the text has only left entries in the journal
      have hlogged : ∀ (π : Position → Position) (a b : Event),
          ((Machine.initial.record a).record b).relocate π = (Machine.initial.record a).record b :=
        fun π a b => congrArg (fun m => (Machine.record a m).record b) (Machine.initial_relocate π)
      obtain ⟨p, hp, hall⟩ := run_positions (fun π => hlogged π _ _) hparse he hended
      refine ⟨p, hp, fun q hq => ?_, fun _ _ q hq => ⟨tokens, rfl, hall q hq⟩⟩
      obtain ⟨t, ht, -, rfl⟩ := hall q hq
      exact (hends t ht).1

/-- Whatever is wrong with a text that is evaluated by itself: the error has a position, and like
those of the active calls it is the position of a beginning of the text.  So it names a line of the
text, and a column that is at most one behind the characters of this line.  If the error arises
while the program runs, these positions are those at which tokens of the text begin.  A report
either quotes no line or one whose end the mark below it exceeds by at most one column. -/
theorem errors_point_into_text {depth steps : Nat} {source : String} {e : Failure}
    (he : ((Interpreter.mk Machine.initial depth steps).evaluateSource source).1 = .error e)
    (hended : e ≠ .exhausted) :
    ∃ p, e.position? = some p ∧
      (∀ q ∈ p :: e.trace.map ActiveCall.site,
        (∃ before, before <+: source.toList ∧ q = .behind before) ∧
          1 ≤ q.line ∧ q.line ≤ source.toList.count '\n' + 1 ∧
          1 ≤ q.column ∧ q.column ≤ (Position.lineOf source.toList (q.line - 1)).length + 1) ∧
      (∀ error, e = .runtime error → ∀ q ∈ p :: e.trace.map ActiveCall.site,
        ∃ tokens, tokenize source = .ok tokens ∧
          ∃ t ∈ tokens, t.kind ≠ .endOfInput ∧ t.first = q) ∧
      ∀ name, ∃ quotation,
        e.report name source = Report.location name p ++ " Error: " ++ e.message ++ "\n" ++
          quotation ++ Report.traceback name e.trace ∧
        (quotation = "" ∨ ∃ quoted, line? (p.line - 1) source.toList = some quoted ∧
          quotation = "    " ++ String.ofList quoted ++ "\n    " ++
            String.ofList (List.replicate (p.column - 1) ' ') ++ "^\n" ∧
          p.column ≤ quoted.length + 1) := by
  obtain ⟨p, hp, hpoints, htokens⟩ := evaluateSource_positions he hended
  refine ⟨p, hp, fun q hq => ?_, htokens, fun name =>
    ⟨_, Failure.report_eq_of_position? hp name source, ?_⟩⟩
  · obtain ⟨before, hbefore, rfl⟩ := (hpoints q hq).beginning
    exact ⟨⟨before, hbefore, rfl⟩, Position.bounds_of_prefix hbefore⟩
  · rcases Report.quotation_cases source p with hnone | ⟨quoted, hquoted, hsome⟩
    · exact .inl hnone
    · exact .inr ⟨quoted, hquoted, hsome, (hpoints p List.mem_cons_self).column_le quoted hquoted⟩

/-- A function that fails on the second line when it is called on the third one. -/
theorem errors_point_into_text_of_call :
    let source := "fun f(x) ->\n  x + 'a'\nf(1)"
    let e := Failure.runtime ⟨.binaryOperands .add "int" "str", ⟨2, 5⟩, [⟨"f", ⟨3, 1⟩⟩]⟩
    ((Interpreter.mk Machine.initial 1000 100).evaluateSource source).1 = .error e ∧
      e ≠ .exhausted ∧
      ∀ q ∈ [Position.mk 2 5, ⟨3, 1⟩], ∃ before, before <+: source.toList ∧ q = .behind before := by
  intro source e
  have he : ((Interpreter.mk Machine.initial 1000 100).evaluateSource source).1 = .error e :=
    eq_error_of_errorOf? (by decide +kernel)
  have hended : e ≠ .exhausted := nofun
  obtain ⟨p, hp, hpoints, -⟩ := errors_point_into_text he hended
  cases hp
  exact ⟨he, hended, fun q hq => (hpoints q hq).1⟩

end SnapshotScript
