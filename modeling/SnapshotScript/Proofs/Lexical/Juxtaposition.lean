import SnapshotScript.Proofs.Lexical.Decomposition
import SnapshotScript.Proofs.Printing.Unparsing

/-!
# The tokens of two texts in a row

A blank character keeps two lexemes apart.  Only text literals hold blank characters, and one that
has been closed does not go on (`Longest.before_blank`).  A line feed keeps whole texts apart, as a
comment ends there in any case.  So the tokens of two texts with a line feed between them are those
of the first text without its end, and then those of the second text (`Tokenizes.append_lineFeed`).
The second text stands some lines further down than it would by itself (`Lower`), and so do its
tokens or its error (`Tokenizes.lower`).
-/

namespace SnapshotScript

/-! ### Places further down -/

/-- The place in the same column that is the given number of lines further down. -/
def Position.below (lines : Nat) (p : Position) : Position :=
  ⟨p.line + lines, p.column⟩

/-- The token with both of its ends further down. -/
def Token.below (lines : Nat) (t : Token) : Token :=
  { t with first := t.first.below lines, last := t.last.below lines }

/-- The error with its place further down. -/
def LexError.below (lines : Nat) : LexError → LexError
  | .unexpectedCharacter p c => .unexpectedCharacter (p.below lines) c
  | .unterminatedString p => .unterminatedString (p.below lines)
  | .unknownEscape p escape => .unknownEscape (p.below lines) escape
  | .invalidNumber p literal => .invalidNumber (p.below lines) literal

/-- The tokens or the error of a text further down. -/
def outcomeBelow (lines : Nat) : Except LexError (List Token) → Except LexError (List Token)
  | .ok tokens => .ok (tokens.map (Token.below lines))
  | .error e => .error (e.below lines)

namespace Lexical

variable {before gap text : List Char} {k : Token.Kind} {lexeme content : List Char}
  {result : Except LexError (List Token)}

/-! ### Lexemes before a blank character -/

/-- The characters of names and numbers are not blank. -/
theorem isBlank_of_isNamePart {c : Char} (h : isNamePart c = true) : isBlank c = false := by
  rw [← Bool.not_eq_true]
  intro hblank
  have hlayout := initial_of_layout (.inl hblank)
  grind [initial, isNamePart]

/-- Only text literals hold blank characters. -/
theorem Lexeme.eq_string_of_blank_mem {b : Char} (h : Lexeme k lexeme content)
    (hmem : b ∈ lexeme) (hb : isBlank b = true) : k = .string := by
  have hpart : ¬ isNamePart b = true := by
    intro hpart
    rw [isBlank_of_isNamePart hpart] at hb
    cases hb
  have hdigit : ¬ isDigit b = true := by
    intro hdigit
    rw [isNamePart, hdigit, Bool.or_true] at hpart
    exact hpart rfl
  cases h with
  | @identifier c cs hstart hparts _ =>
    rcases List.mem_cons.1 hmem with rfl | hmem
    · rw [isNamePart, hstart, Bool.true_or] at hpart
      exact absurd rfl hpart
    · exact absurd (hparts _ hmem) hpart
  | keyword word =>
    have hall : word.word.toList.all isNamePart = true := by cases word <;> decide
    exact absurd (List.all_eq_true.1 hall b hmem) hpart
  | int hdigits => exact absurd (hdigits.2 _ hmem) hdigit
  | float hwhole hfraction =>
    rw [List.mem_append, List.mem_cons] at hmem
    rcases hmem with hmem | rfl | hmem
    · exact absurd (hwhole.2 _ hmem) hdigit
    · exact absurd hb (by decide)
    · exact absurd (hfraction.2 _ hmem) hdigit
  | string _ => rfl
  | symbol hk =>
    have hall : symbols.all (fun k => k.spelling.toList.all fun c => !isBlank c) = true := by decide
    have hfree := List.all_eq_true.1 (List.all_eq_true.1 hall k hk) b hmem
    rw [hb] at hfree
    cases hfree

/-- A text literal is not the beginning of a longer lexeme. -/
theorem Lexeme.eq_of_string_prefix {lexeme' content' : List Char} (h : Lexeme k lexeme content)
    (h' : Lexeme .string lexeme' content') (hbegin : lexeme <+: lexeme') : lexeme = lexeme' := by
  cases h' with
  | @string written' _ hwritten' =>
    obtain ⟨ds, rfl, -⟩ := h.of_prefix hbegin
    obtain ⟨-, written, rfl, hwritten⟩ := lexeme_of_quote h
    obtain ⟨tail, htail⟩ := hbegin
    have hsame : written ++ '\'' :: tail = written' ++ '\'' :: [] := by simpa using htail
    rw [hwritten.unique hwritten' hsame]
  | symbol hmem => exact absurd hmem (by decide)

/-- The longest lexeme stays the longest one if a blank character follows the text. -/
theorem Longest.before_blank {b : Char} (h : Longest k lexeme content text)
    (hb : isBlank b = true) (rest : List Char) : Longest k lexeme content (text ++ b :: rest) := by
  refine ⟨h.isLexeme, h.isBeginning.trans (List.prefix_append _ _), ?_⟩
  intro k' lexeme' content' hlexeme' hbegin
  have htext : text <+: text ++ b :: rest := List.prefix_append _ _
  rcases Nat.lt_or_ge text.length lexeme'.length with hlonger | hle
  · -- the lexeme goes on over the blank, so it is a text literal, and the other one begins it
    have hfirst : text ++ [b] <+: text ++ b :: rest := ⟨rest, by simp⟩
    have hover : text ++ [b] <+: lexeme' := List.prefix_of_prefix_length_le hfirst hbegin (by simpa)
    obtain rfl := hlexeme'.eq_string_of_blank_mem (hover.subset (by simp)) hb
    have hinner : lexeme <+: lexeme' :=
      h.isBeginning.trans ((List.prefix_append _ _).trans hover)
    rw [h.isLexeme.eq_of_string_prefix hlexeme' hinner]
  · exact h.maximal k' lexeme' content' hlexeme' (List.prefix_of_prefix_length_le hbegin htext hle)

/-- A lexeme is accepted if a blank character follows the text. -/
theorem Accepted.before_blank {b : Char} (h : Accepted k lexeme content text)
    (hb : isBlank b = true) (rest : List Char) : Accepted k lexeme content (text ++ b :: rest) :=
  ⟨h.toLongest.before_blank hb rest, h.inRange⟩

/-! ### Layout before a line feed -/

/-- Layout before something is layout before anything else, too. -/
theorem Layout.elsewhere (h : Layout gap text) (hne : text ≠ []) (rest : List Char) :
    Layout gap rest := by
  induction h with
  | nil => exact .nil
  | blank hblank _ ih => exact .blank hblank (ih hne)
  | comment hline _ ih => exact .comment hline (ih hne)
  | lastComment => exact absurd rfl hne

/-- Layout up to the end of a text, a line feed, and more layout are layout together. -/
theorem Layout.append_lineFeed {gap' : List Char} (h : Layout gap []) (h' : Layout gap' text) :
    Layout (gap ++ '\n' :: gap') text := by
  generalize hend : ([] : List Char) = rest at h
  induction h with
  | nil => exact .blank (by decide) h'
  | blank hblank _ ih => exact .blank hblank (ih hend)
  | @comment line gap rest hline _ ih =>
    have hrest := Layout.comment hline (ih hend)
    simpa using hrest
  | lastComment hline => exact .comment hline h'

/-! ### Tokens further down -/

/-- The first text ends the given number of lines further down than the second one, and stays there
if both go on in the same way. -/
def Lower (lines : Nat) (before' before : List Char) : Prop :=
  ∀ more, Position.behind (before' ++ more) = (Position.behind (before ++ more)).below lines

/-- Texts go on in the same way. -/
theorem Lower.append {lines : Nat} {before' : List Char} (h : Lower lines before' before)
    (more : List Char) : Lower lines (before' ++ more) (before ++ more) := by
  intro more'
  rw [List.append_assoc, List.append_assoc]
  exact h (more ++ more')

/-- Behind the end of a line, a text stands lower by the number of lines up to there. -/
theorem lower_lineFeed (before : List Char) :
    Lower (before.count '\n' + 1) (before ++ ['\n']) [] := by
  intro more
  have hcolumn : ((before ++ ['\n'] ++ more).reverse.takeWhile (· ≠ '\n')).length =
      (more.reverse.takeWhile (· ≠ '\n')).length := by
    rw [List.reverse_append, List.reverse_append, List.takeWhile_append]
    split
    · next hall =>
      rw [List.length_append, hall]
      simp
    · rfl
  rw [Position.behind, hcolumn]
  simp [Position.behind, Position.below]
  omega

/-- What has to be given up has to be given up further down, too. -/
theorem Faulty.lower {before' read rest : List Char} {e : LexError} {lines : Nat}
    (h : Faulty before read rest e) (hlower : Lower lines before' before) :
    Faulty before' read rest (e.below lines) := by
  have hbehind : Position.behind before' = (Position.behind before).below lines := by
    simpa using hlower []
  cases h with
  | unexpectedCharacter hblank hmark hquote hnone =>
    rw [LexError.below, ← hbehind]
    exact .unexpectedCharacter hblank hmark hquote hnone
  | unterminatedString hwritten htail =>
    rw [LexError.below, ← hbehind]
    exact .unterminatedString hwritten htail
  | unknownEscape hwritten hescape =>
    rw [LexError.below, ← hlower]
    exact .unknownEscape hwritten hescape
  | invalidNumber hlongest hlarge =>
    rw [LexError.below, ← hbehind]
    exact .invalidNumber hlongest hlarge

/-- A text that stands further down has its tokens or its error further down. -/
theorem Tokenizes.lower {before' : List Char} {lines : Nat} (h : Tokenizes before text result)
    (hlower : Lower lines before' before) : Tokenizes before' text (outcomeBelow lines result) := by
  induction h generalizing before' with
  | @finish before gap hgap =>
    have hend := @Tokenizes.finish before' _ hgap
    rwa [hlower gap] at hend
  | fault hgap hfaulty => exact .fault hgap (hfaulty.lower (hlower.append _))
  | @token before gap k lexeme content rest result hgap haccepted _ ih =>
    have hresult := Tokenizes.token hgap haccepted (ih ((hlower.append gap).append lexeme))
    have htoken : Lexical.token (before' ++ gap) k lexeme content =
        (Lexical.token (before ++ gap) k lexeme content).below lines := by
      have hfirst := hlower gap
      have hlast := hlower (gap ++ lexeme)
      rw [← List.append_assoc, ← List.append_assoc] at hlast
      simp only [Lexical.token, Token.below, hfirst, hlast]
    rw [htoken] at hresult
    cases result with
    | error e => exact hresult
    | ok tokens => exact hresult

/-! ### Tokens before a line feed -/

/-- Layout before a text does not change its tokens, if it is layout before all layout. -/
theorem Tokenizes.behind_layout (hgap : ∀ gap' text, Layout gap' text → Layout (gap ++ gap') text)
    (h : Tokenizes (before ++ gap) text result) : Tokenizes before (gap ++ text) result := by
  generalize hbefore : before ++ gap = before' at h
  have hcontinued : ∀ gap', before' ++ gap' = before ++ (gap ++ gap') := by
    intro gap'
    rw [← hbefore, List.append_assoc]
  cases h with
  | @finish _ gap' hgap' =>
    rw [hcontinued]
    exact .finish (hgap _ _ hgap')
  | @fault _ gap' read rest e hgap' hfaulty =>
    rw [hcontinued] at hfaulty
    rw [← List.append_assoc]
    exact .fault (hgap _ _ hgap') hfaulty
  | @token _ gap' k lexeme content rest result hgap' haccepted hrest =>
    rw [hcontinued] at hrest ⊢
    rw [← List.append_assoc]
    exact .token (hgap _ _ hgap') haccepted hrest

/-- The tokens of a text stay as they are if another line follows, but for the end of the text.
Instead of it there are the tokens of the further lines, or their error. -/
theorem Tokenizes.append_lineFeed (h : Tokenizes before text result) :
    ∀ tokens, result = .ok tokens → ∀ text' result',
      Tokenizes (before ++ text ++ ['\n']) text' result' →
      Tokenizes before (text ++ '\n' :: text') (result'.map (tokens.dropLast ++ ·)) := by
  induction h with
  | @finish before gap hgap =>
    rintro tokens ⟨rfl⟩ text' result' h'
    have hlines : Tokenizes before (gap ++ ['\n'] ++ text') result' := by
      refine .behind_layout (fun gap' rest hgap' => ?_) (by rwa [← List.append_assoc])
      simpa using hgap.append_lineFeed hgap'
    rw [List.append_assoc] at hlines
    cases result' with
    | error e => exact hlines
    | ok tokens' => exact hlines
  | fault => exact nofun
  | @token before gap k lexeme content rest result hgap haccepted hrest ih =>
    intro tokens htokens text' result' h'
    cases result with
    | error e => cases htokens
    | ok tokens =>
      cases htokens
      obtain ⟨read, hread, -⟩ := hrest.exists_read tokens rfl
      have hne : tokens ≠ [] := by
        rw [hread]
        exact List.append_ne_nil_of_right_ne_nil _ (List.cons_ne_nil _ _)
      have htext : before ++ gap ++ lexeme ++ rest ++ ['\n'] =
          before ++ (gap ++ (lexeme ++ rest)) ++ ['\n'] := by simp
      have hmore := ih tokens rfl text' result' (htext ▸ h')
      have hstart : lexeme ++ rest ≠ [] := by
        obtain ⟨c, cs, rfl, -⟩ := haccepted.isLexeme.exists_cons
        exact List.cons_ne_nil _ _
      have haccepted' := haccepted.before_blank (show isBlank '\n' = true by decide) text'
      rw [List.append_assoc] at haccepted'
      have hresult := Tokenizes.token (hgap.elsewhere hstart _) haccepted' hmore
      rw [List.dropLast_cons_of_ne_nil hne, List.append_assoc, List.append_assoc]
      cases result' with
      | error e => exact hresult
      | ok tokens' => exact hresult

end Lexical

open Lexical in
/-- The tokens of the first of two texts are followed by the tokens or the error of the second one,
which stands further down. -/
theorem tokenize_append_lineFeed_eq {first : String} {ts : List Token}
    (h : tokenize first = .ok ts) (second : String) :
    tokenize (first ++ "\n" ++ second) =
      (outcomeBelow (first.toList.count '\n' + 1) (tokenize second)).map (ts.dropLast ++ ·) := by
  refine Tokenizes.tokenize_eq ?_
  have hsecond := (tokenizes_of_tokenize (Eq.refl (tokenize second))).lower
    (lower_lineFeed first.toList)
  have hboth := (tokenizes_of_tokenize h).append_lineFeed ts rfl _ _ hsecond
  rw [String.toList_append, String.toList_append, List.append_assoc]
  exact hboth

/-- Two texts with a line feed between them have the tokens of the first text without its end, and
then those of the second text up to positions. -/
theorem tokenize_append_lineFeed {first second : String} {ts ts' : List Token}
    (h : tokenize first = .ok ts) (h' : tokenize second = .ok ts') :
    ∃ ts'', tokenize (first ++ "\n" ++ second) = .ok (ts.dropLast ++ ts'') ∧
      ts''.map Token.piece = ts'.map Token.piece := by
  refine ⟨ts'.map (Token.below (first.toList.count '\n' + 1)), ?_, ?_⟩
  · rw [tokenize_append_lineFeed_eq h, h']
    rfl
  · rw [List.map_map]
    rfl

/-- Reading goes on at the end of a line as if the text began there.  A text and further lines have
the tokens of the text without its end, and then those of the lines, each as many lines further down
as the text has.  If there is an error in the lines, then it is the error of both, as many lines
further down. -/
theorem tokenize_line_by_line {first : String} {ts : List Token} (h : tokenize first = .ok ts) :
    ∃ read : List Token, ts = read ++ [.endAt (.behind first.toList)] ∧
      (∀ t ∈ read, t.kind ≠ .endOfInput) ∧ ∀ second : String,
        tokenize (first ++ "\n" ++ second) =
          match tokenize second with
          | .ok ts' => .ok (read ++ ts'.map (Token.below (first.toList.count '\n' + 1)))
          | .error e => .error (e.below (first.toList.count '\n' + 1)) := by
  obtain ⟨read, hread, hlive⟩ := (Lexical.tokenizes_of_tokenize h).exists_read ts rfl
  refine ⟨read, hread, hlive, fun second => ?_⟩
  rw [tokenize_append_lineFeed_eq h, hread, List.dropLast_concat]
  cases tokenize second <;> rfl

/-- A minus before a comment makes no arrow with the next line, whose error stands one line further
down. -/
theorem tokenize_line_by_line_comment :
    tokenize "- # a" = .ok [⟨.minus, "-", ⟨1, 1⟩, ⟨1, 2⟩⟩, .endAt ⟨1, 6⟩] ∧
      tokenize ("- # a" ++ "\n" ++ "> 'b\\c'") = .error (.unknownEscape ⟨2, 5⟩ 'c') := by
  have hts : tokenize "- # a" = .ok [⟨.minus, "-", ⟨1, 1⟩, ⟨1, 2⟩⟩, .endAt ⟨1, 6⟩] := rfl
  obtain ⟨read, -, -, hlines⟩ := tokenize_line_by_line hts
  exact ⟨hts, (hlines "> 'b\\c'").trans rfl⟩

end SnapshotScript
