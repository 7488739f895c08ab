import SnapshotScript.Proofs.Lexical.Juxtaposition

/-!
# Tokens written out

Tokens may be written out as a text again: a text literal between quotes, with escapes, and every
other token as it is, with a blank character behind each token but the last one.  Which escapes and
which blanks these are is a matter of style (`Style`), and so is the text, which need not be the one
that the tokens come from.  It has the same tokens in any style (`tokenize_print`).

Two facts about lexemes carry this.  Escaping is one of the ways to write the content of a text
literal (`written_spellContent`), and a lexeme that has been accepted in some text is accepted by
itself, too (`Accepted.alone`), and so before a blank.
-/

namespace SnapshotScript

namespace Lexical

/-! ### Spelling -/

/-- A character as a text literal holds it.  Quotes and backslashes have to be escaped, and line
feeds and tabs may be. -/
def spellCharacter (escaped : Bool) : Char → List Char
  | '\'' => ['\\', '\'']
  | '\\' => ['\\', '\\']
  | '\n' => if escaped then ['\\', 'n'] else ['\n']
  | '\t' => if escaped then ['\\', 't'] else ['\t']
  | c => [c]

/-- The characters as a text literal holds them; `escapes` tells of the place of each one whether a
line feed or a tab is escaped there. -/
def spellContent (escapes : Nat → Bool) (content : List Char) : List Char :=
  (content.mapIdx fun n c => spellCharacter (escapes n) c).flatten

/-- A text literal with the given content. -/
def quote (escapes : Nat → Bool) (content : List Char) : List Char :=
  '\'' :: (spellContent escapes content ++ ['\''])

/-- A token of the given kind and content as it is written. -/
def spell (escapes : Nat → Bool) : Token.Kind → List Char → List Char
  | .string, content => quote escapes content
  | _, content => content

/-- A style of writing tokens in a row. -/
structure Style where
  /-- Whether a line feed or a tab is escaped, by the numbers of the token and of the character in
  it. -/
  escapes : Nat → Nat → Bool
  /-- The character behind the token with this number. -/
  gap : Nat → Char
  isBlank_gap : ∀ n, isBlank (gap n) = true

namespace Style

/-- The style of the tokens behind the first one. -/
def tail (s : Style) : Style where
  escapes n := s.escapes (n + 1)
  gap n := s.gap (n + 1)
  isBlank_gap n := s.isBlank_gap (n + 1)

/-- Tokens in a row, with a blank character between them. -/
def row (s : Style) : List Token → List Char
  | [] => []
  | [t] => spell (s.escapes 0) t.kind t.text.toList
  | t :: ts => spell (s.escapes 0) t.kind t.text.toList ++ s.gap 0 :: s.tail.row ts

/-- The text of tokens.  The end of the input is not written. -/
def print (s : Style) (tokens : List Token) : String :=
  String.ofList (s.row (tokens.filter (·.kind ≠ .endOfInput)))

end Style

/-! ### Lexemes by themselves -/

variable {before text : List Char} {k : Token.Kind} {lexeme content : List Char}

/-- Escaping is a way to write the content of a text literal. -/
theorem written_spellContent (escapes : Nat → Bool) (content : List Char) :
    Written (spellContent escapes content) content := by
  induction content generalizing escapes with
  | nil => exact .nil
  | cons c cs ih =>
    have hcons : spellContent escapes (c :: cs) =
        spellCharacter (escapes 0) c ++ spellContent (fun n => escapes (n + 1)) cs := by
      rw [spellContent, List.mapIdx_cons, List.flatten_cons]
      rfl
    have hrest := ih fun n => escapes (n + 1)
    rw [hcons]
    unfold spellCharacter
    split
    · exact .escaped .quote hrest
    · exact .escaped .backslash hrest
    · split
      · exact .escaped .lineFeed hrest
      · exact .plain (by decide) (by decide) hrest
    · split
      · exact .escaped .tab hrest
      · exact .plain (by decide) (by decide) hrest
    · next hquote hbackslash _ _ => exact .plain hquote hbackslash hrest

/-- Only of text literals a token keeps something else than the lexeme. -/
theorem Lexeme.content_eq (h : Lexeme k lexeme content) (hk : k ≠ .string) : content = lexeme := by
  cases h with
  | string _ => exact absurd rfl hk
  | _ => rfl

/-- A lexeme by itself is the longest one. -/
theorem Lexeme.longest (h : Lexeme k lexeme content) : Longest k lexeme content lexeme :=
  ⟨h, List.prefix_rfl, fun _ _ _ _ hbegin => hbegin.length_le⟩

/-- A lexeme that is accepted at the beginning of a text is accepted by itself. -/
theorem Accepted.alone (h : Accepted k lexeme content text) :
    Accepted k lexeme content lexeme :=
  ⟨h.isLexeme.longest, h.inRange⟩

/-- A text literal is accepted, whatever its content. -/
theorem accepted_quote (escapes : Nat → Bool) (content : List Char) :
    Accepted .string (quote escapes content) content (quote escapes content) :=
  ⟨(Lexeme.string (written_spellContent escapes content)).longest, nofun⟩

/-- What is accepted as a lexeme is accepted as it is spelled. -/
theorem Accepted.spelled (h : Accepted k lexeme content text) (escapes : Nat → Bool) :
    Accepted k (spell escapes k content) content (spell escapes k content) := by
  by_cases hk : k = .string
  · subst hk
    exact accepted_quote escapes content
  · have hspell : spell escapes k content = lexeme := by
      rw [← h.isLexeme.content_eq hk]
      unfold spell
      split
      · exact absurd rfl hk
      · rfl
    rw [hspell]
    exact h.alone

/-! ### Tokens in a row -/

/-- A lexeme makes a token like this one. -/
def IsToken (t : Token) : Prop :=
  ∃ lexeme, Accepted t.kind lexeme t.text.toList lexeme

/-- Each token of a text is made by a lexeme, but for the end of the text. -/
theorem Tokenizes.isToken {result : Except LexError (List Token)}
    (h : Tokenizes before text result) :
    ∀ tokens, result = .ok tokens → ∀ t ∈ tokens, t.kind ≠ .endOfInput → IsToken t := by
  intro tokens htokens t ht hkind
  obtain ⟨read, k, lexeme, content, rest, -, haccepted, rfl⟩ :=
    h.exists_accepted tokens htokens t ht hkind
  refine ⟨lexeme, ?_⟩
  rw [Lexical.token, String.toList_ofList]
  exact haccepted.alone

/-- Where a token stands and how it is written makes no difference to its kind and text. -/
theorem piece_token (before lexeme : List Char) (t : Token) :
    (Lexical.token before t.kind lexeme t.text.toList).piece = t.piece := by
  rw [Lexical.token, String.ofList_toList]
  rfl

/-- Tokens in a row are read one by one, wherever the row stands. -/
theorem exists_tokenizes_row (s : Style) {tokens : List Token} (h : ∀ t ∈ tokens, IsToken t)
    (before : List Char) :
    ∃ tokens', Tokenizes before (s.row tokens) (.ok tokens') ∧
      tokens'.map Token.piece = tokens.map Token.piece ++ [(.endOfInput, "")] := by
  induction tokens generalizing s before with
  | nil => exact ⟨_, .finish .nil, rfl⟩
  | cons t ts ih =>
    obtain ⟨⟨lexeme, hlexeme⟩, hts⟩ := List.forall_mem_cons.1 h
    have hspelled := hlexeme.spelled (s.escapes 0)
    cases ts with
    | nil =>
      have hresult := @Tokenizes.token before [] _ _ _ [] _ .nil (by rwa [List.append_nil])
        (.finish .nil)
      rw [List.append_nil] at hresult
      exact ⟨_, hresult, congrArg (· :: _) (piece_token _ _ t)⟩
    | cons t' ts =>
      -- the blank behind the first token is layout before the others
      obtain ⟨tokens', htokens', hpieces⟩ := ih s.tail hts
        (before ++ [] ++ spell (s.escapes 0) t.kind t.text.toList ++ [s.gap 0])
      have hblank := s.isBlank_gap 0
      have hrest := Tokenizes.behind_layout (fun _ _ hgap => .blank hblank hgap) htokens'
      have hresult := @Tokenizes.token before [] _ _ _ _ _ .nil
        (hspelled.before_blank hblank (s.tail.row (t' :: ts))) hrest
      refine ⟨_, hresult, ?_⟩
      rw [List.map_cons, piece_token, hpieces]
      rfl

/-- A text literal by itself is the only token. -/
theorem tokenizes_quote (escapes : Nat → Bool) (content : List Char) :
    Tokenizes [] (quote escapes content) (.ok [⟨.string, String.ofList content, .behind [],
      .behind (quote escapes content)⟩, .endAt (.behind (quote escapes content))]) := by
  have haccepted : Accepted .string (quote escapes content) content
      (quote escapes content ++ []) := by
    rw [List.append_nil]
    exact accepted_quote escapes content
  have hresult := @Tokenizes.token [] [] _ _ _ _ _ .nil haccepted (.finish .nil)
  simpa [Except.map, Lexical.token] using hresult

end Lexical

open Lexical in
/-- Tokens that are written out are the tokens of the text, whatever its style: these have the same
kinds and texts.  A text literal with any content is read as a single token with that content. -/
theorem tokenize_print (s : Style) :
    (∀ (source : String) (tokens : List Token), tokenize source = .ok tokens →
      ∃ tokens', tokenize (s.print tokens) = .ok tokens' ∧
        tokens'.map Token.piece = tokens.map Token.piece) ∧
    ∀ (escapes : Nat → Bool) (text : String), ∃ last,
      tokenize (String.ofList (quote escapes text.toList)) =
        .ok [⟨.string, text, .start, last⟩, .endAt last] := by
  refine ⟨fun source tokens h => ?_, fun escapes text => ?_⟩
  · have htokenizes := tokenizes_of_tokenize h
    obtain ⟨read, hread, hlive⟩ := htokenizes.exists_read tokens rfl
    have hkept : tokens.filter (·.kind ≠ .endOfInput) = read := by
      rw [hread, List.filter_append, List.filter_eq_self.2 fun t ht => decide_eq_true (hlive t ht)]
      exact List.append_nil read
    have htoken : ∀ t ∈ read, IsToken t := by
      refine fun t ht => htokenizes.isToken tokens rfl t ?_ (hlive t ht)
      rw [hread]
      exact List.mem_append_left _ ht
    obtain ⟨tokens', htokens', hpieces⟩ := exists_tokenizes_row s htoken []
    refine ⟨tokens', Tokenizes.tokenize_eq ?_, ?_⟩
    · rwa [Style.print, hkept, String.toList_ofList]
    · rw [hpieces, hread, List.map_append]
      rfl
  · have hquote := tokenizes_quote escapes text.toList
    rw [String.ofList_toList] at hquote
    refine ⟨.behind (quote escapes text.toList), Tokenizes.tokenize_eq ?_⟩
    rw [String.toList_ofList]
    exact hquote

open Lexical in
/-- A text literal with a line feed and a quote in it, which is followed by a tab. -/
theorem tokenize_print_tabs :
    let s : Style := ⟨fun _ _ => true, fun _ => '\t', fun _ => by decide⟩
    let tokens : List Token := [⟨.string, "a\n'", ⟨1, 1⟩, ⟨2, 4⟩⟩, ⟨.dot, ".", ⟨2, 4⟩, ⟨2, 5⟩⟩,
      ⟨.int, "1", ⟨2, 5⟩, ⟨2, 6⟩⟩, .endAt ⟨2, 9⟩]
    tokenize "'a\n\\''.1 #b" = .ok tokens ∧ s.print tokens = "'a\\n\\''\t.\t1" ∧
      ∃ tokens', tokenize (s.print tokens) = .ok tokens' ∧
        tokens'.map Token.piece = tokens.map Token.piece := by
  intro s tokens
  have htokens : tokenize "'a\n\\''.1 #b" = .ok tokens := rfl
  exact ⟨htokens, by decide, (tokenize_print s).1 _ _ htokens⟩

end SnapshotScript
