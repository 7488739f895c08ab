import SnapshotScript.Proofs.Lexical.Recognition

/-!
# The reader computes the tokens of a text

The reader skips all layout, makes one attempt to read a token and goes on behind it.  As every text
begins with a gap of layout behind which there is exactly one attempt, the reader gives what
`Tokenizes` tells, which is one result for every text.
-/

namespace SnapshotScript

namespace Lexical

variable {before gap text : List Char} {result : Except LexError (List Token)}

/-! ### Layout -/

/-- Within a comment, the reader skips the rest of the line. -/
theorem skipLayout_true_append {line : List Char} (h : '\n' ∉ line) (tail : List Char)
    (p : Position) :
    skipLayout true (line ++ '\n' :: tail) p = skipLayout false tail (p.advanceAll (line ++ ['\n']))
      ∧ skipLayout true line p = ⟨[], p.advanceAll line⟩ := by
  induction line generalizing p with
  | nil => exact ⟨rfl, rfl⟩
  | cons c line ih =>
    have hc : (c ≠ '\n') = True := eq_true fun heq => h (heq ▸ List.mem_cons_self)
    have hrest := ih (fun hmem => h (List.mem_cons_of_mem _ hmem)) (p.advance c)
    simpa [skipLayout, hc] using hrest

/-- The reader skips all layout. -/
theorem skipLayout_append (h : Layout gap text) (hno : NoLayout text) (p : Position) :
    skipLayout false (gap ++ text) p = ⟨text, p.advanceAll gap⟩ := by
  induction h generalizing p with
  | @nil rest =>
    cases rest with
    | nil => rfl
    | cons c cs =>
      have hc : initial c ≠ .layout := hno c rfl
      have hblank : isBlank c = false ∧ c ≠ '#' := by
        rw [← Bool.not_eq_true, ← not_or]
        exact fun hlayout => hc (initial_of_layout hlayout)
      simp [skipLayout, hblank]
  | blank hblank _ ih =>
    rw [List.cons_append, skipLayout, if_pos hblank, ih hno]
    rfl
  | @comment line gap rest hline _ ih =>
    have hblank : isBlank '#' = false := by decide
    rw [List.cons_append, List.append_assoc, skipLayout, hblank, if_neg Bool.false_ne_true,
      if_pos rfl, List.cons_append, (skipLayout_true_append hline _ _).1, ih hno]
    simp [Position.advanceAll_append]
  | @lastComment line hline =>
    have hblank : isBlank '#' = false := by decide
    rw [List.append_nil, skipLayout, hblank, if_neg Bool.false_ne_true, if_pos rfl,
      (skipLayout_true_append hline [] _).2]
    rfl

/-- Every text begins with a gap of layout, behind which none stands. -/
theorem exists_layout (text : List Char) :
    ∃ gap rest, text = gap ++ rest ∧ Layout gap rest ∧ NoLayout rest := by
  match text with
  | [] => exact ⟨[], [], rfl, .nil, nofun⟩
  | c :: cs =>
    by_cases hblank : isBlank c = true
    · obtain ⟨gap, rest, hcs, hgap, hrest⟩ := exists_layout cs
      exact ⟨c :: gap, rest, by rw [hcs]; rfl, .blank hblank hgap, hrest⟩
    · by_cases hmark : c = '#'
      · subst hmark
        -- the comment goes on to the first line feed, if there is one
        have hline : '\n' ∉ cs.takeWhile (· ≠ '\n') := fun hmem =>
          absurd (List.mem_takeWhile_imp hmem) (by decide)
        have hsplit : cs.takeWhile (· ≠ '\n') ++ cs.dropWhile (· ≠ '\n') = cs :=
          List.takeWhile_append_dropWhile
        cases hdrop : cs.dropWhile (· ≠ '\n') with
        | nil =>
          rw [hdrop, List.append_nil] at hsplit
          rw [hsplit] at hline
          exact ⟨'#' :: cs, [], by simp, .lastComment hline, nofun⟩
        | cons d tail =>
          have hd : d = '\n' := by
            have hfirst := List.head?_dropWhile_not (· ≠ '\n') cs
            rw [hdrop] at hfirst
            simpa using hfirst
          subst hd
          have hshorter : tail.length ≤ cs.length := by
            rw [← hsplit, hdrop, List.length_append, List.length_cons]
            omega
          obtain ⟨gap, rest, htail, hgap, hrest⟩ := exists_layout tail
          refine ⟨'#' :: (cs.takeWhile (· ≠ '\n') ++ '\n' :: gap), rest, ?_,
            .comment hline hgap, hrest⟩
          rw [List.cons_append, List.append_assoc, List.cons_append, ← htail, ← hdrop, hsplit]
      · refine ⟨[], c :: cs, rfl, .nil, fun d hd => ?_⟩
        obtain rfl : c = d := by simpa using hd
        grind [initial]
termination_by text.length

/-! ### Reading on -/

/-- The reader makes the attempt that the grammar allows behind the layout. -/
theorem scan_eq {s : Scan} (hgap : Layout gap text) (hno : NoLayout text)
    (h : Attempt (before ++ gap) text s) :
    Cursor.scan ⟨gap ++ text, .behind before⟩ = s := by
  rw [Cursor.scan, skipLayout_append hgap hno, ← Position.behind_append]
  exact (scanLexeme_attempt (before ++ gap) hno).unique h

/-- No lexeme stands for the end of a text. -/
theorem Lexeme.ne_endOfInput {k : Token.Kind} {lexeme content : List Char}
    (h : Lexeme k lexeme content) : k ≠ .endOfInput := by
  rintro rfl
  cases h with
  | symbol hmem => exact absurd hmem (by decide)

/-- A text that begins with a lexeme begins with no layout. -/
theorem Lexeme.noLayout {k : Token.Kind} {lexeme content : List Char}
    (h : Lexeme k lexeme content) (rest : List Char) : NoLayout (lexeme ++ rest) := by
  obtain ⟨c, cs, rfl, -, hc⟩ := h.exists_cons
  intro d hd
  obtain rfl : c = d := by simpa using hd
  exact hc

/-- A text whose beginning has to be given up begins with no layout. -/
theorem Faulty.noLayout {read rest : List Char} {e : LexError} (h : Faulty before read rest e) :
    NoLayout (read ++ rest) := by
  obtain ⟨c, cs, rfl, hc⟩ := h.exists_cons
  intro d hd
  obtain rfl : c = d := by simpa using hd
  exact hc

/-- The reader gives the tokens of the text behind those that it has read. -/
theorem Tokenizes.scanAll_eq (h : Tokenizes before text result) (bound : Nat)
    (hbound : text.length < bound) (read : List Token) :
    Cursor.scanAll bound read ⟨text, .behind before⟩ = result.map (read.reverse ++ ·) := by
  induction h generalizing bound read with
  | @finish before gap hgap =>
    obtain ⟨bound, rfl⟩ := Nat.exists_eq_add_one_of_ne_zero (Nat.ne_zero_of_lt hbound)
    have hscan := scan_eq hgap nofun (@Attempt.finish (before ++ gap))
    rw [List.append_nil] at hscan
    rw [Cursor.scanAll, hscan]
    simp [Token.endAt, Except.map]
  | @fault before gap tried rest e hgap hfaulty =>
    obtain ⟨bound, rfl⟩ := Nat.exists_eq_add_one_of_ne_zero (Nat.ne_zero_of_lt hbound)
    rw [Cursor.scanAll, scan_eq hgap hfaulty.noLayout (.fault hfaulty)]
    rfl
  | @token before gap k lexeme content rest result hgap haccepted _ ih =>
    obtain ⟨bound, rfl⟩ := Nat.exists_eq_add_one_of_ne_zero (Nat.ne_zero_of_lt hbound)
    have hlexeme := haccepted.isLexeme
    have hshorter : rest.length < bound := by
      obtain ⟨c, cs, rfl, -⟩ := hlexeme.exists_cons
      simp only [List.length_append, List.length_cons] at hbound
      omega
    rw [Cursor.scanAll, scan_eq hgap (hlexeme.noLayout rest) (.token haccepted)]
    have hkind : (Lexical.token (before ++ gap) k lexeme content).kind ≠ .endOfInput :=
      hlexeme.ne_endOfInput
    dsimp only
    rw [if_neg hkind, ih bound hshorter]
    cases result with
    | error e => rfl
    | ok tokens => simp [Except.map]

/-- Every text has tokens or a first error. -/
theorem exists_tokenizes (before text : List Char) :
    ∃ result, Tokenizes before text result := by
  obtain ⟨gap, rest, rfl, hgap, hno⟩ := exists_layout text
  have hattempt := scanLexeme_attempt (before ++ gap) hno
  generalize Cursor.scanLexeme _ = s at hattempt
  cases hattempt with
  | finish => exact ⟨_, by simpa using .finish hgap⟩
  | fault hfaulty => exact ⟨_, .fault hgap hfaulty⟩
  | @token k lexeme content rest haccepted =>
    have hshorter : rest.length < (gap ++ (lexeme ++ rest)).length := by
      obtain ⟨c, cs, rfl, -⟩ := haccepted.isLexeme.exists_cons
      simp only [List.length_append, List.length_cons]
      omega
    obtain ⟨result, hresult⟩ := exists_tokenizes (before ++ gap ++ lexeme) rest
    exact ⟨_, .token hgap haccepted hresult⟩
termination_by text.length

/-- Each token before the end of a text is made by a lexeme that stands in the text. -/
theorem Tokenizes.exists_accepted (h : Tokenizes before text result) :
    ∀ tokens, result = .ok tokens → ∀ t ∈ tokens, t.kind ≠ .endOfInput →
      ∃ read k lexeme content rest, text = read ++ (lexeme ++ rest) ∧
        Accepted k lexeme content (lexeme ++ rest) ∧
        t = Lexical.token (before ++ read) k lexeme content := by
  induction h with
  | finish =>
    rintro tokens ⟨rfl⟩ t ht hkind
    obtain rfl := List.mem_singleton.1 ht
    exact absurd rfl hkind
  | fault => exact nofun
  | @token before gap k lexeme content rest result _ haccepted _ ih =>
    intro tokens htokens t ht hkind
    cases result with
    | error e => cases htokens
    | ok tokens' =>
      cases htokens
      rcases List.mem_cons.1 ht with rfl | ht
      · exact ⟨gap, k, lexeme, content, rest, rfl, haccepted, rfl⟩
      · obtain ⟨read, k', lexeme', content', rest', rfl, haccepted', rfl⟩ :=
          ih tokens' rfl t ht hkind
        exact ⟨gap ++ lexeme ++ read, k', lexeme', content', rest', by simp, haccepted', by simp⟩

/-! ### The order of tokens -/

/-- The tokens of a text begin within it. -/
theorem Tokenizes.exists_first (h : Tokenizes before text result) :
    ∀ tokens, result = .ok tokens → ∀ t ∈ tokens, ∃ more, t.first = .behind (before ++ more) := by
  induction h with
  | @finish before gap _ =>
    rintro tokens ⟨rfl⟩ t ht
    obtain rfl := List.mem_singleton.1 ht
    exact ⟨gap, rfl⟩
  | fault => exact nofun
  | @token before gap k lexeme content rest result _ _ _ ih =>
    intro tokens htokens t ht
    cases result with
    | error e => cases htokens
    | ok tokens' =>
      cases htokens
      rcases List.mem_cons.1 ht with rfl | ht
      · exact ⟨gap, rfl⟩
      · obtain ⟨more, hmore⟩ := ih tokens' rfl t ht
        exact ⟨gap ++ lexeme ++ more, by rw [hmore]; simp⟩

/-- Tokens come in the order of the text and do not overlap. -/
theorem Tokenizes.pairwise (h : Tokenizes before text result) :
    ∀ tokens, result = .ok tokens → tokens.Pairwise fun s t => s.last ≤ t.first := by
  induction h with
  | finish =>
    rintro tokens ⟨rfl⟩
    exact List.pairwise_singleton _ _
  | fault => exact nofun
  | @token before gap k lexeme content rest result _ _ hrest ih =>
    intro tokens htokens
    cases result with
    | error e => cases htokens
    | ok tokens' =>
      cases htokens
      refine List.pairwise_cons.2 ⟨fun t ht => ?_, ih tokens' rfl⟩
      obtain ⟨more, hmore⟩ := hrest.exists_first tokens' rfl t ht
      rw [hmore, Position.behind_append (before ++ gap ++ lexeme) more]
      exact Position.le_advanceAll _ more

/-- The end of the text is the last token, and no other one is the end of a text. -/
theorem Tokenizes.exists_read (h : Tokenizes before text result) :
    ∀ tokens, result = .ok tokens → ∃ read : List Token,
      tokens = read ++ [.endAt (.behind (before ++ text))] ∧ ∀ t ∈ read, t.kind ≠ .endOfInput := by
  induction h with
  | finish =>
    rintro tokens ⟨rfl⟩
    exact ⟨[], rfl, nofun⟩
  | fault => exact nofun
  | @token before gap k lexeme content rest result _ haccepted _ ih =>
    intro tokens htokens
    cases result with
    | error e => cases htokens
    | ok tokens' =>
      cases htokens
      obtain ⟨read, rfl, hread⟩ := ih tokens' rfl
      refine ⟨Lexical.token (before ++ gap) k lexeme content :: read, by simp, ?_⟩
      exact List.forall_mem_cons.2 ⟨haccepted.isLexeme.ne_endOfInput, hread⟩

/-! ### The tokens of a text -/

/-- The reader gives the result that the grammar tells. -/
theorem Tokenizes.tokenize_eq {source : String} (h : Tokenizes [] source.toList result) :
    tokenize source = result := by
  have hbound : source.toList.length < source.length + 1 := by
    rw [String.length_toList]
    exact Nat.lt_succ_self _
  have hread := h.scanAll_eq _ hbound []
  cases result with
  | error e => exact hread
  | ok tokens => exact hread

/-- The grammar tells the result that the reader gives, as there is one for every text. -/
theorem tokenizes_of_tokenize {source : String} (h : tokenize source = result) :
    Tokenizes [] source.toList result := by
  obtain ⟨result', hresult'⟩ := exists_tokenizes [] source.toList
  have heq : result' = result := hresult'.tokenize_eq.symm.trans h
  rwa [heq] at hresult'

end Lexical

open Lexical in
/-- The reader gives the tokens of a text or its first error as the lexical grammar tells them: the
text is taken apart into layout and the longest lexemes, and each token has the positions of its two
ends.  Hence tokens come in the order of the text, and its end comes last and only there. -/
theorem tokenize_decomposition (source : String) :
    (∀ result, tokenize source = result ↔ Tokenizes [] source.toList result) ∧
    (∀ tokens, tokenize source = .ok tokens →
      tokens.Pairwise (fun s t => s.last ≤ t.first) ∧
      ∃ read : List Token, tokens = read ++ [.endAt (.behind source.toList)] ∧
        ∀ t ∈ read, t.kind ≠ .endOfInput) := by
  refine ⟨fun result => ⟨tokenizes_of_tokenize, Tokenizes.tokenize_eq⟩, fun tokens htokens => ?_⟩
  have htokenizes := tokenizes_of_tokenize htokens
  refine ⟨htokenizes.pairwise tokens rfl, ?_⟩
  simpa using htokenizes.exists_read tokens rfl

end SnapshotScript
