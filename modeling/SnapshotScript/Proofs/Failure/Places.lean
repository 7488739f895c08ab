import Mathlib.Data.List.Induction
import Mathlib.Logic.Relation
import SnapshotScript.Interpreter
import SnapshotScript.Proofs.Failure.Culprit
import SnapshotScript.Proofs.Grammar.Agreement
import SnapshotScript.Proofs.Grammar.Material
import SnapshotScript.Proofs.Lexical.Decomposition
import SnapshotScript.Text.Lines

/-!
# The places of a program in its text

Each expression of a program stands where one of the tokens begins from which the program has been
read, and the program itself is the only one that may stand at the end of the text.  A token begins
with a character on a line of the text.  So the position of an expression names a line, and a column
that this line has (`Expr.IsFrom.isOn`).
-/

namespace SnapshotScript

/-! ### Expressions within expressions -/

/-- The expression `n` is `e` itself or stands somewhere inside of it. -/
def Expr.Within (n e : Expr) : Prop :=
  Relation.ReflTransGen (fun outer inner => inner ∈ outer.children) e n

namespace Expr.Within

variable {n c e : Expr} {P : Expr → Prop}

/-- What stands inside of an inner expression stands inside of the outer one. -/
theorem child (h : n.Within e) (hc : c ∈ n.children) : c.Within e :=
  Relation.ReflTransGen.tail h hc

/-- A property that holds at all nodes holds at the inner ones. -/
theorem everywhere (h : n.Within e) (he : e.Everywhere P) : n.Everywhere P := by
  induction h with
  | refl => exact he
  | tail _ hc ih =>
    cases ih with
    | node _ hchildren => exact hchildren _ hc

end Expr.Within

/-- The expression stands in the program that the text forms. -/
def Expr.IsFrom (source : String) (n : Expr) : Prop :=
  ∃ program, parseSource source = .ok program ∧ n.Within program

/-! ### Expressions stand at tokens -/

namespace Grammar

/-- All tokens begin at positions of which `S` holds. -/
def Placed (S : Position → Prop) (ts : List Token) : Prop :=
  ∀ t ∈ ts, S t.first

/-- All expressions inside of the expression are at positions of which `S` holds. -/
abbrev Standing (S : Position → Prop) (e : Expr) : Prop :=
  e.Everywhere fun n => S n.position

/-- The expressions of items stand at their tokens. -/
theorem Items.standing {S : Position → Prop} {ts rest : List Token} {items : List Expr}
    (h : Items ts items rest) (hts : Placed S ts) : ∀ e ∈ items, Standing S e := by
  refine fun e he => (h.drawn hts e he).mono fun n hn => ?_
  obtain ⟨t, ht, hplace⟩ := hn.place
  exact hplace ▸ ht

end Grammar

/-- The items of a program stand at tokens before the end of the input. -/
theorem standing_of_parseTokens {tokens : List Token} {program : Expr} {S : Position → Prop}
    (h : parseTokens tokens = .ok program)
    (htokens : ∀ t ∈ tokens, t.kind ≠ .endOfInput → S t.first) :
    ∃ items p, program = .block items p ∧ ∀ item ∈ items, Grammar.Standing S item := by
  obtain ⟨items, hitems, rfl⟩ := derived_of_parseTokens h
  refine ⟨items, _, rfl, hitems.standing fun t ht => ?_⟩
  refine htokens t ((List.takeWhile_prefix _).subset ht) ?_
  simpa using List.mem_takeWhile_imp ht

/-! ### Tokens stand on lines -/

/-- The position is in front of a character of a line of the text. -/
def Position.IsOn (text : List Char) (p : Position) : Prop :=
  0 < p.line ∧ 0 < p.column ∧
    ∃ line, line? (p.line - 1) text = some line ∧ p.column ≤ line.length

/-- What stands in a text behind its last line feed. -/
def unfinishedLine (text : List Char) : List Char :=
  (text.reverse.takeWhile (· ≠ '\n')).reverse

/-- A line feed finishes the line, and any other character belongs to it. -/
theorem unfinishedLine_concat (text : List Char) (c : Char) :
    unfinishedLine (text ++ [c]) = if c = '\n' then [] else unfinishedLine text ++ [c] := by
  by_cases hc : c = '\n'
  · simp [unfinishedLine, hc]
  · simp [unfinishedLine, hc]

/-- The unfinished line holds no line feed. -/
theorem ne_lineFeed_of_mem_unfinishedLine {text : List Char} {c : Char}
    (h : c ∈ unfinishedLine text) : c ≠ '\n' := by
  have hc := List.mem_takeWhile_imp (List.mem_reverse.1 h)
  simpa using hc

/-- One line more is left out behind those before it. -/
theorem dropLines_succ (n : Nat) (text : List Char) :
    dropLines (n + 1) text = ((dropLines n text).dropWhile (· ≠ '\n')).tail := by
  induction n generalizing text with
  | zero => rfl
  | succ n ih => exact ih _

/-- Behind as many lines as have been finished stands the unfinished one. -/
theorem dropLines_count (before rest : List Char) :
    dropLines (before.count '\n') (before ++ rest) = unfinishedLine before ++ rest := by
  induction before using List.reverseRecOn generalizing rest with
  | nil => rfl
  | append_singleton before c ih =>
    rw [unfinishedLine_concat, List.append_assoc, List.count_append]
    split
    · next hc =>
      subst hc
      have hline : (unfinishedLine before ++ '\n' :: rest).dropWhile (· ≠ '\n') = '\n' :: rest := by
        rw [List.dropWhile_append_of_pos fun c hc => by
          simpa using ne_lineFeed_of_mem_unfinishedLine hc]
        simp
      rw [List.count_singleton_self, dropLines_succ, List.singleton_append, ih, hline]
      rfl
    · next hc =>
      rw [List.count_singleton, if_neg (by simpa using hc), Nat.add_zero, ih, List.append_assoc]

/-- Only a carriage return is taken off the end of a line. -/
theorem length_le_dropReturn (line : List Char) {c : Char} (hreturn : c ≠ '\r')
    (tail : List Char) : line.length + 1 ≤ (dropReturn (line ++ c :: tail)).length := by
  unfold dropReturn
  split
  · next hlast =>
    cases tail with
    | nil => simp [hreturn] at hlast
    | cons d tail => simp
  · simp

/-- A character that is no part of a line ending stands on the line that its position names. -/
theorem Position.isOn_behind (before : List Char) {c : Char} (hfeed : c ≠ '\n')
    (hreturn : c ≠ '\r') (after : List Char) :
    (Position.behind before).IsOn (before ++ c :: after) := by
  refine ⟨Nat.succ_pos _, Nat.succ_pos _, ?_⟩
  have hcolumn : (Position.behind before).column = (unfinishedLine before).length + 1 := by
    simp [Position.behind, unfinishedLine]
  have hdrop : dropLines ((Position.behind before).line - 1) (before ++ c :: after) =
      unfinishedLine before ++ c :: after := dropLines_count before _
  have hwhole : (unfinishedLine before ++ c :: after).takeWhile (· ≠ '\n') =
      unfinishedLine before ++ c :: after.takeWhile (· ≠ '\n') := by
    rw [List.takeWhile_append_of_pos fun c hc => by
      simpa using ne_lineFeed_of_mem_unfinishedLine hc]
    simp [hfeed]
  unfold line?
  rw [hdrop, hcolumn]
  split
  · next hnil => simp at hnil
  · rw [hwhole]
    refine ⟨_, rfl, ?_⟩
    split
    · exact length_le_dropReturn _ hreturn _
    · simp

namespace Lexical

/-- Each token before the end of a text begins with a character of the text, which is not blank. -/
theorem Tokenizes.exists_split {before text : List Char} {result : Except LexError (List Token)}
    (h : Tokenizes before text result) :
    ∀ tokens, result = .ok tokens → ∀ t ∈ tokens, t.kind ≠ .endOfInput →
      ∃ read c rest, text = read ++ c :: rest ∧ isBlank c = false ∧
        t.first = .behind (before ++ read) := by
  intro tokens htokens t ht hkind
  obtain ⟨read, k, lexeme, content, rest, rfl, haccepted, rfl⟩ :=
    h.exists_accepted tokens htokens t ht hkind
  obtain ⟨c, cs, rfl, -, hc⟩ := haccepted.isLexeme.exists_cons
  refine ⟨read, c, cs ++ rest, rfl, ?_, rfl⟩
  rw [← Bool.not_eq_true]
  exact fun hblank => hc (initial_of_layout (.inl hblank))

end Lexical

/-- The items of a program that is read from a text stand on lines of the text. -/
theorem standing_of_parseSource {source : String} {program : Expr}
    (h : parseSource source = .ok program) :
    ∃ items p, program = .block items p ∧
      ∀ item ∈ items, Grammar.Standing (Position.IsOn source.toList) item := by
  obtain ⟨tokens, htokens, hparse⟩ := parseSource_eq_ok_iff.1 h
  refine standing_of_parseTokens hparse fun t ht hkind => ?_
  obtain ⟨before, c, after, hsplit, hblank, hfirst⟩ :=
    (Lexical.tokenizes_of_tokenize htokens).exists_split tokens rfl t ht hkind
  have hfeed : c ≠ '\n' := fun heq => absurd (heq ▸ hblank) (by decide)
  have hreturn : c ≠ '\r' := fun heq => absurd (heq ▸ hblank) (by decide)
  rw [hsplit, hfirst]
  exact Position.isOn_behind before hfeed hreturn after

/-- Faults are attributed to an expression or to one directly inside of it. -/
theorem Expr.mem_faultPositions {n : Expr} {p : Position} (h : p ∈ n.faultPositions) :
    p = n.position ∨ ∃ c ∈ n.children, p = c.position := by
  cases n with
  | call callee arguments position =>
    rcases List.mem_cons.1 h with rfl | h
    · exact .inl rfl
    · obtain ⟨a, ha, rfl⟩ := List.mem_map.1 h
      exact .inr ⟨a.value, List.mem_cons_of_mem _ (List.mem_map_of_mem ha), rfl⟩
  | identifier | binary | unary | member | memberSet | forLoop =>
    exact .inl (List.mem_singleton.1 h)
  | _ => cases h

/-- The fault of an expression is on a line of every text from which the expression may have been
read. -/
theorem Expr.IsFrom.isOn {source : String} {n : Expr} (h : n.IsFrom source) {p : Position}
    (hp : p ∈ n.faultPositions) : p.IsOn source.toList := by
  obtain ⟨program, hprogram, hwithin⟩ := h
  obtain ⟨items, position, rfl, hitems⟩ := standing_of_parseSource hprogram
  rcases Relation.ReflTransGen.cases_head hwithin with rfl | ⟨item, hitem, hinside⟩
  · -- a program has no faults of its own
    cases hp
  · have hstanding : Grammar.Standing (Position.IsOn source.toList) n :=
      Expr.Within.everywhere hinside (hitems item hitem)
    rcases Expr.mem_faultPositions hp with rfl | ⟨c, hc, rfl⟩
    · exact hstanding.root
    · cases hstanding with
      | node _ hchildren => exact (hchildren c hc).root

end SnapshotScript
