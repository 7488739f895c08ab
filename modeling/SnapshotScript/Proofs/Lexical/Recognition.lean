import Mathlib.Data.List.TakeWhile
import SnapshotScript.Proofs.Lexical.Lexeme

/-!
# Recognising lexemes

The reader takes the longest lexeme where one can be accepted and fails where none can.  The first
character of a lexeme tells whether it is a text literal, a number, a word or a symbol, and each of
these is read by a function of its own.

`Attempt` is what the lexical grammar says about a single attempt to read a token where no layout
stands.  The reader makes such an attempt (`scanLexeme_attempt`), and there is only one
(`Attempt.unique`).
-/

namespace SnapshotScript

namespace Lexical

variable {before text : List Char} {k : Token.Kind} {lexeme content : List Char}

/-! ### Text literals -/

/-- The table of escapes is the one that the reader uses. -/
theorem unescape?_eq_some_iff {c d : Char} : unescape? c = some d ↔ Escape c d := by
  constructor
  · intro h
    unfold unescape? at h
    split at h
    · cases h; exact .quote
    · cases h; exact .backslash
    · cases h; exact .lineFeed
    · cases h; exact .tab
    · cases h
  · intro h
    cases h <;> rfl

/-- Where no escape is, the reader finds none. -/
theorem unescape?_eq_none_iff {c : Char} : unescape? c = none ↔ ∀ d, ¬ Escape c d := by
  rw [Option.eq_none_iff_forall_ne_some]
  exact forall_congr' fun d => not_congr unescape?_eq_some_iff

/-- The reader passes the inner part of a text literal and keeps what it stands for. -/
theorem scanQuoted_append {written : List Char} (h : Written written content)
    (read tail : List Char) (p : Position) :
    scanQuoted read (written ++ tail) p =
      scanQuoted (content.reverse ++ read) tail (p.advanceAll written) := by
  induction h generalizing read p with
  | nil => rfl
  | plain hquote hbackslash _ ih =>
    rw [List.cons_append, scanQuoted.eq_5 _ _ _ _ hquote (fun h _ => hbackslash h)
      (fun _ _ h _ => hbackslash h), ih]
    simp
  | escaped hescape _ ih =>
    rw [List.cons_append, List.cons_append, scanQuoted.eq_4, unescape?_eq_some_iff.2 hescape]
    dsimp only
    rw [ih]
    simp

/-- The inner part of a text literal ends at one and the same quote. -/
theorem Written.unique {written written' content' rest rest' : List Char}
    (h : Written written content) (h' : Written written' content')
    (htext : written ++ '\'' :: rest = written' ++ '\'' :: rest') : written = written' := by
  have hread := scanQuoted_append h [] ('\'' :: rest) .start
  rw [htext, scanQuoted_append h' [] ('\'' :: rest') .start] at hread
  simp only [scanQuoted, Quoted.closed.injEq, Cursor.mk.injEq] at hread
  rw [hread.2.1] at htext
  exact List.append_cancel_right htext

/-- The ways in which the inner part of a text literal ends. -/
inductive Ending : List Char → Prop
  | quote {rest} : Ending ('\'' :: rest)
  | endOfText : Ending []
  | lastBackslash : Ending ['\\']
  | unknownEscape {c rest} : (∀ d, ¬ Escape c d) → Ending ('\\' :: c :: rest)

/-- Behind an opening quote stands the inner part of a text literal, as far as it goes. -/
theorem exists_written (cs : List Char) :
    ∃ written content tail, cs = written ++ tail ∧ Written written content ∧ Ending tail := by
  match cs with
  | [] => exact ⟨[], [], [], rfl, .nil, .endOfText⟩
  | c :: cs =>
    by_cases hquote : c = '\''
    · exact ⟨[], [], c :: cs, rfl, .nil, hquote ▸ .quote⟩
    · by_cases hbackslash : c = '\\'
      · subst hbackslash
        match cs with
        | [] => exact ⟨[], [], ['\\'], rfl, .nil, .lastBackslash⟩
        | d :: cs =>
          by_cases hescape : ∃ e, Escape d e
          · obtain ⟨e, hescape⟩ := hescape
            obtain ⟨written, content, tail, rfl, hwritten, htail⟩ := exists_written cs
            exact ⟨'\\' :: d :: written, e :: content, tail, rfl, .escaped hescape hwritten, htail⟩
          · exact ⟨[], [], _, rfl, .nil, .unknownEscape (not_exists.1 hescape)⟩
      · obtain ⟨written, content, tail, rfl, hwritten, htail⟩ := exists_written cs
        exact ⟨c :: written, c :: content, tail, rfl, .plain hquote hbackslash hwritten, htail⟩

/-! ### The first character of a lexeme -/

/-- The digits have the codes from 48 to 57. -/
theorem isDigit_iff {c : Char} : isDigit c = true ↔ 48 ≤ c.toNat ∧ c.toNat ≤ 57 := by
  have hrange : isDigit c = (decide (48 ≤ c.val) && decide (c.val ≤ 57)) := rfl
  rw [hrange, Bool.and_eq_true, decide_eq_true_iff, decide_eq_true_iff]
  exact Iff.rfl

/-- The characters that may begin a name have the codes of letters, or that of the underscore. -/
theorem isNameStart_iff {c : Char} :
    isNameStart c = true ↔
      (65 ≤ c.toNat ∧ c.toNat ≤ 90) ∨ (97 ≤ c.toNat ∧ c.toNat ≤ 122) ∨ c.toNat = 95 := by
  have hranges : isNameStart c = (decide (65 ≤ c.val ∧ c.val ≤ 90) ||
      (decide (97 ≤ c.val) && decide (c.val ≤ 122)) || c == '_') := rfl
  have hunderscore : c = '_' ↔ c.toNat = 95 := Char.toNat_inj.symm
  rw [hranges]
  simp only [Bool.or_eq_true, Bool.and_eq_true, decide_eq_true_eq, beq_iff_eq, or_assoc,
    hunderscore]
  exact Iff.rfl

/-- What the first character of a lexeme can be. -/
inductive Initial where
  | letter | digit | quote | mark | layout
deriving DecidableEq

/-- What a character would be as the first one of a lexeme; layout begins none. -/
def initial (c : Char) : Initial :=
  if isNameStart c then .letter
  else if isDigit c then .digit
  else if c = '\'' then .quote
  else if isBlank c || c == '#' then .layout
  else .mark

/-- The first characters of the lexemes of one kind. -/
def initialOf : Token.Kind → Initial
  | .identifier | .keyword _ => .letter
  | .int | .float => .digit
  | .string => .quote
  | _ => .mark

/-- A digit begins a number and no name. -/
theorem initial_of_isDigit {c : Char} (h : isDigit c = true) : initial c = .digit := by
  have hname : ¬ isNameStart c = true := by
    rw [isNameStart_iff]
    have hcode := isDigit_iff.1 h
    omega
  simp [initial, hname, h]

theorem initial_eq_letter_iff {c : Char} : initial c = .letter ↔ isNameStart c = true := by
  grind [initial]

theorem isDigit_of_initial {c : Char} (h : initial c = .digit) : isDigit c = true := by
  grind [initial]

theorem eq_quote_of_initial {c : Char} (h : initial c = .quote) : c = '\'' := by
  grind [initial]

/-- The characters of names and numbers have the codes of digits and letters, or that of the
underscore. -/
theorem toNat_of_isNamePart {c : Char} (h : isNamePart c = true) :
    (48 ≤ c.toNat ∧ c.toNat ≤ 57) ∨ (65 ≤ c.toNat ∧ c.toNat ≤ 90) ∨ c.toNat = 95 ∨
      (97 ≤ c.toNat ∧ c.toNat ≤ 122) := by
  rw [isNamePart, Bool.or_eq_true, isNameStart_iff, isDigit_iff] at h
  omega

/-- Layout begins no lexeme. -/
theorem initial_of_layout {c : Char} (h : isBlank c = true ∨ c = '#') : initial c = .layout := by
  rcases h with h | rfl
  · have hpart : isNamePart c = false := by
      rw [Bool.eq_false_iff]
      intro hpart
      have hcode := toNat_of_isNamePart hpart
      simp only [isBlank, blankRanges, List.any_cons, List.any_nil, Bool.or_eq_true,
        Bool.and_eq_true, decide_eq_true_eq, Bool.or_false] at h
      omega
    have hquote : c ≠ '\'' := by
      rintro rfl
      exact absurd h (by decide)
    simp only [isNamePart, Bool.or_eq_false_iff] at hpart
    simp [initial, hpart, hquote, h]
  · decide

/-- Digits begin with one. -/
theorem Digits.initial_eq {cs : List Char} (h : Digits cs) (tail : List Char) :
    (cs ++ tail).head?.map initial = some .digit := by
  obtain ⟨hne, hall⟩ := h
  cases cs with
  | nil => exact absurd rfl hne
  | cons c cs => simp [initial_of_isDigit (hall c List.mem_cons_self)]

/-- Symbols begin with characters of their own. -/
theorem initialOf_symbol : ∀ k ∈ symbols, initialOf k = .mark := by
  decide

/-- The first character of a lexeme tells of which kinds it can be. -/
theorem Lexeme.initial_eq (h : Lexeme k lexeme content) :
    lexeme.head?.map initial = some (initialOf k) := by
  cases h with
  | identifier hstart => simp [initial, initialOf, hstart]
  | keyword word => cases word <;> decide
  | int h => simpa [initialOf] using h.initial_eq []
  | float h _ => exact h.initial_eq _
  | string =>
    have hquote : initial '\'' = .quote := by decide
    simp [hquote, initialOf]
  | symbol h =>
    have hall : ∀ k ∈ symbols, k.spelling.toList.head?.map initial = some (initialOf k) := by
      decide
    exact hall k h

/-- A lexeme has a first character, which is not layout. -/
theorem Lexeme.exists_cons (h : Lexeme k lexeme content) :
    ∃ c cs, lexeme = c :: cs ∧ initial c = initialOf k ∧ initial c ≠ .layout := by
  have hfirst := h.initial_eq
  cases lexeme with
  | nil => simp at hfirst
  | cons c cs =>
    have hc : initial c = initialOf k := by simpa using hfirst
    refine ⟨c, cs, rfl, hc, ?_⟩
    rw [hc]
    unfold initialOf
    split <;> decide

/-- A lexeme at the beginning of a text has the first character of the text. -/
theorem Lexeme.of_prefix {c : Char} {cs : List Char} (h : Lexeme k lexeme content)
    (hbegin : lexeme <+: c :: cs) :
    ∃ ds, lexeme = c :: ds ∧ initialOf k = initial c := by
  obtain ⟨d, ds, rfl, hinitial, -⟩ := h.exists_cons
  obtain ⟨rfl, -⟩ := List.cons_prefix_cons.1 hbegin
  exact ⟨ds, rfl, hinitial.symm⟩

/-- A beginning all of whose characters are in a class belongs to the characters of the class at
the beginning. -/
theorem prefix_takeWhile {p : Char → Bool} {cs : List Char} (h : cs <+: text)
    (hall : ∀ c ∈ cs, p c = true) : cs <+: text.takeWhile p := by
  obtain ⟨tail, rfl⟩ := h
  rw [List.takeWhile_append_of_pos hall]
  exact List.prefix_append _ _

/-! ### Attempts -/

/-- What an attempt to read a token comes to where no layout stands: the end of the text, an error,
or the token of the longest lexeme. -/
inductive Attempt (before : List Char) : List Char → Scan → Prop
  | finish : Attempt before [] ⟨.ok (.endAt (.behind before)), ⟨[], .behind before⟩⟩
  | fault {read rest e} : Faulty before read rest e →
    Attempt before (read ++ rest) ⟨.error e, ⟨rest, .behind (before ++ read)⟩⟩
  | token {k lexeme content rest} : Accepted k lexeme content (lexeme ++ rest) →
    Attempt before (lexeme ++ rest)
      ⟨.ok (Lexical.token before k lexeme content), ⟨rest, .behind (before ++ lexeme)⟩⟩

/-- A lexeme that is its own text is accepted as its token. -/
theorem accept_eq (before : List Char) (k : Token.Kind) (lexeme rest : List Char) :
    Cursor.accept k lexeme rest (.behind before) =
      ⟨.ok (token before k lexeme lexeme), ⟨rest, .behind (before ++ lexeme)⟩⟩ := by
  simp only [Cursor.accept, token, Position.behind_append]

/-! ### Words -/

/-- The kind of a word. -/
def wordKind (cs : List Char) : Token.Kind :=
  match Keyword.ofWord? (String.ofList cs) with
  | some word => .keyword word
  | none => .identifier

/-- A letter begins a word, which is a reserved one or a name. -/
theorem lexeme_iff_of_letter {c : Char} {cs : List Char} (hc : initial c = .letter) :
    Lexeme k (c :: cs) content ↔
      content = c :: cs ∧ (∀ d ∈ c :: cs, isNamePart d = true) ∧ k = wordKind (c :: cs) := by
  have hstart : isNameStart c = true := initial_eq_letter_iff.1 hc
  constructor
  · intro h
    have hk : initialOf k = .letter := by
      simpa [hc] using h.initial_eq.symm
    generalize hlexeme : c :: cs = lexeme at h
    cases h with
    | identifier _ hparts hword =>
      cases hlexeme
      have hnone : Keyword.ofWord? (String.ofList (c :: cs)) = none := by
        refine List.find?_eq_none.2 fun word _ => ?_
        have hne := hword word
        rw [beq_iff_eq]
        intro heq
        exact hne (by rw [heq, String.toList_ofList])
      refine ⟨rfl, List.forall_mem_cons.2 ⟨by simp [isNamePart, hstart], hparts⟩, ?_⟩
      rw [wordKind, hnone]
    | keyword word =>
      have hall : word.word.toList.all isNamePart = true := by cases word <;> decide
      refine ⟨rfl, List.all_eq_true.1 hall, ?_⟩
      rw [wordKind, String.ofList_toList, Keyword.ofWord?_word]
    | symbol h =>
      rw [initialOf_symbol k h] at hk
      cases hk
    | _ => cases hk
  · rintro ⟨rfl, hparts, rfl⟩
    unfold wordKind
    split
    · next word hword =>
      have heq := List.find?_some hword
      rw [beq_iff_eq] at heq
      have hlexeme : c :: cs = word.word.toList := by rw [heq, String.toList_ofList]
      rw [hlexeme]
      exact .keyword word
    · next hnone =>
      refine .identifier hstart (fun d hd => hparts d (List.mem_cons_of_mem _ hd)) ?_
      intro word heq
      have hfound := List.find?_eq_none.1 hnone word word.mem_all
      rw [heq, String.ofList_toList] at hfound
      simp at hfound

/-- Where a letter stands, a word is read. -/
theorem scanName_attempt (before : List Char) {c : Char} {cs : List Char}
    (hc : initial c = .letter) :
    Attempt before (c :: cs) (Cursor.scanName (c :: cs) (.behind before)) := by
  have hpart : isNamePart c = true := by
    simp [isNamePart, initial_eq_letter_iff.1 hc]
  have hword : (c :: cs).takeWhile isNamePart = c :: cs.takeWhile isNamePart := by
    simp [hpart]
  have hlongest : Accepted (wordKind (c :: cs.takeWhile isNamePart)) (c :: cs.takeWhile isNamePart)
      (c :: cs.takeWhile isNamePart)
      ((c :: cs.takeWhile isNamePart) ++ (c :: cs).dropWhile isNamePart) := by
    rw [← hword, List.takeWhile_append_dropWhile, hword]
    refine ⟨⟨(lexeme_iff_of_letter hc).2 ⟨rfl, ?_, rfl⟩, ?_, ?_⟩, ?_⟩
    · rw [← hword]
      exact fun d hd => List.mem_takeWhile_imp hd
    · rw [← hword]
      exact List.takeWhile_prefix _
    · intro k' lexeme' content' hlexeme hbegin
      obtain ⟨ds, rfl, -⟩ := hlexeme.of_prefix hbegin
      have hall := ((lexeme_iff_of_letter hc).1 hlexeme).2.1
      rw [← hword]
      exact (prefix_takeWhile hbegin hall).length_le
    · intro hint
      unfold wordKind at hint
      split at hint <;> cases hint
  have hattempt := @Attempt.token before _ _ _ _ hlongest
  rw [← hword, List.takeWhile_append_dropWhile] at hattempt
  unfold Cursor.scanName
  rw [accept_eq]
  exact hattempt

/-! ### Numbers -/

/-- A digit begins a number, with or without a point in it. -/
theorem lexeme_of_digit {c : Char} {cs : List Char} (hc : initial c = .digit)
    (h : Lexeme k (c :: cs) content) :
    content = c :: cs ∧ (k = .int ∧ Digits (c :: cs) ∨
      k = .float ∧ ∃ whole fraction, c :: cs = whole ++ '.' :: fraction ∧ Digits whole ∧
        Digits fraction) := by
  have hk : initialOf k = .digit := by
    simpa [hc] using h.initial_eq.symm
  generalize c :: cs = lexeme at h
  cases h with
  | int h => exact ⟨rfl, .inl ⟨rfl, h⟩⟩
  | float h h' => exact ⟨rfl, .inr ⟨rfl, _, _, rfl, h, h'⟩⟩
  | symbol h =>
    rw [initialOf_symbol k h] at hk
    cases hk
  | _ => cases hk

/-- The digits up to a point are all that stand before it. -/
theorem takeWhile_point {whole : List Char} (h : Digits whole) (tail : List Char) :
    (whole ++ '.' :: tail).takeWhile isDigit = whole ∧
      (whole ++ '.' :: tail).dropWhile isDigit = '.' :: tail := by
  have hpoint : isDigit '.' = false := by decide
  rw [List.takeWhile_append_of_pos h.2, List.dropWhile_append_of_pos h.2]
  simp [hpoint]

/-- A text that begins with a digit begins with digits. -/
theorem digits_takeWhile {c : Char} {cs : List Char} (hc : isDigit c = true) :
    Digits ((c :: cs).takeWhile isDigit) := by
  refine ⟨by simp [hc], fun d hd => List.mem_takeWhile_imp hd⟩

/-- A number has a point in it if a digit follows the point. -/
theorem splitNumber_cases (text : List Char) :
    (∃ d rest, text.dropWhile isDigit = '.' :: d :: rest ∧ isDigit d = true ∧
      splitNumber text = (text.takeWhile isDigit, some ((d :: rest).takeWhile isDigit),
        (d :: rest).dropWhile isDigit)) ∨
    ((∀ d rest, text.dropWhile isDigit = '.' :: d :: rest → isDigit d = false) ∧
      splitNumber text = (text.takeWhile isDigit, none, text.dropWhile isDigit)) := by
  unfold splitNumber
  dsimp only
  split
  · next d rest hdrop =>
    split
    · next hd => exact .inl ⟨d, rest, hdrop, hd, rfl⟩
    · next hd =>
      refine .inr ⟨fun d' rest' heq => ?_, by rw [hdrop]⟩
      rw [hdrop] at heq
      cases heq
      simpa using hd
  · next hdrop => exact .inr ⟨fun d rest heq => absurd heq (hdrop d rest), rfl⟩

/-- Where a point with a digit behind it follows the first digits, they are a number with a point,
together with all the digits behind it. -/
theorem accepted_float {c d : Char} {cs rest : List Char} (hc : initial c = .digit)
    (hdrop : (c :: cs).dropWhile isDigit = '.' :: d :: rest) (hd : isDigit d = true) :
    c :: cs = (c :: cs).takeWhile isDigit ++ '.' :: (d :: rest).takeWhile isDigit ++
        (d :: rest).dropWhile isDigit ∧
      Accepted .float ((c :: cs).takeWhile isDigit ++ '.' :: (d :: rest).takeWhile isDigit)
        ((c :: cs).takeWhile isDigit ++ '.' :: (d :: rest).takeWhile isDigit)
        ((c :: cs).takeWhile isDigit ++ '.' :: (d :: rest).takeWhile isDigit ++
          (d :: rest).dropWhile isDigit) := by
  have hwhole : Digits ((c :: cs).takeWhile isDigit) := digits_takeWhile (isDigit_of_initial hc)
  have hsplit : (c :: cs).takeWhile isDigit ++ (c :: cs).dropWhile isDigit = c :: cs :=
    List.takeWhile_append_dropWhile
  have htext : c :: cs = (c :: cs).takeWhile isDigit ++ '.' :: (d :: rest).takeWhile isDigit ++
      (d :: rest).dropWhile isDigit := by
    rw [List.append_assoc, List.cons_append, List.takeWhile_append_dropWhile, ← hdrop, hsplit]
  refine ⟨htext, ⟨⟨.float hwhole (digits_takeWhile hd), List.prefix_append _ _, ?_⟩, nofun⟩⟩
  intro k' lexeme' content' hlexeme hbegin
  rw [← htext] at hbegin
  obtain ⟨ds, rfl, -⟩ := hlexeme.of_prefix hbegin
  rcases (lexeme_of_digit hc hlexeme).2 with ⟨-, hint⟩ | ⟨-, whole, fraction, hfloat, hw, hf⟩
  · have hle := (prefix_takeWhile hbegin hint.2).length_le
    rw [List.length_append]
    omega
  · rw [hfloat] at hbegin ⊢
    obtain ⟨tail, htail⟩ := hbegin
    rw [List.append_assoc, List.cons_append] at htail
    obtain ⟨htake, hrest⟩ := takeWhile_point hw (fraction ++ tail)
    rw [htail] at htake hrest
    rw [hdrop, List.cons.injEq] at hrest
    have hle := (prefix_takeWhile (hrest.2 ▸ List.prefix_append _ _) hf.2).length_le
    rw [htake, List.length_append, List.length_append, List.length_cons, List.length_cons]
    omega

/-- Where no point with a digit behind it follows the first digits, they are an integer. -/
theorem longest_int {c : Char} {cs : List Char} (hc : initial c = .digit)
    (hpoint : ∀ d rest, (c :: cs).dropWhile isDigit = '.' :: d :: rest → isDigit d = false) :
    Longest .int ((c :: cs).takeWhile isDigit) ((c :: cs).takeWhile isDigit)
      ((c :: cs).takeWhile isDigit ++ (c :: cs).dropWhile isDigit) := by
  refine ⟨.int (digits_takeWhile (isDigit_of_initial hc)), List.prefix_append _ _, ?_⟩
  intro k' lexeme' content' hlexeme hbegin
  rw [List.takeWhile_append_dropWhile] at hbegin
  obtain ⟨ds, rfl, -⟩ := hlexeme.of_prefix hbegin
  rcases (lexeme_of_digit hc hlexeme).2 with ⟨-, hint⟩ | ⟨-, whole, fraction, hfloat, hw, hf⟩
  · exact (prefix_takeWhile hbegin hint.2).length_le
  · rw [hfloat] at hbegin
    obtain ⟨tail, htail⟩ := hbegin
    rw [List.append_assoc, List.cons_append] at htail
    obtain ⟨hne, hall⟩ := hf
    obtain ⟨d, fraction, rfl⟩ := List.exists_cons_of_ne_nil hne
    have hrest := (takeWhile_point hw (d :: fraction ++ tail)).2
    rw [htail] at hrest
    have hd := hall d List.mem_cons_self
    rw [hpoint d (fraction ++ tail) hrest] at hd
    cases hd

/-- Where a digit stands, a number is read. -/
theorem scanNumber_attempt (before : List Char) {c : Char} {cs : List Char}
    (hc : initial c = .digit) :
    Attempt before (c :: cs) (Cursor.scanNumber (c :: cs) (.behind before)) := by
  unfold Cursor.scanNumber
  rcases splitNumber_cases (c :: cs) with ⟨d, rest, hdrop, hd, heq⟩ | ⟨hpoint, heq⟩
  · rw [heq]
    dsimp only
    rw [accept_eq]
    obtain ⟨htext, haccepted⟩ := accepted_float hc hdrop hd
    have hattempt := @Attempt.token before _ _ _ _ haccepted
    rwa [← htext] at hattempt
  · rw [heq]
    dsimp only
    have hsplit : (c :: cs).takeWhile isDigit ++ (c :: cs).dropWhile isDigit = c :: cs :=
      List.takeWhile_append_dropWhile
    have hlongest := longest_int hc hpoint
    split
    · next hle =>
      rw [accept_eq]
      have hattempt := @Attempt.token before _ _ _ _ ⟨hlongest, fun _ => hle⟩
      rwa [hsplit] at hattempt
    · next hlt =>
      have hfaulty := @Faulty.invalidNumber before _ _ hlongest (Nat.lt_of_not_le hlt)
      have hattempt := Attempt.fault hfaulty
      rwa [hsplit, Position.behind_append] at hattempt

/-! ### Text literals as lexemes -/

/-- A quote begins a text literal. -/
theorem lexeme_of_quote {cs : List Char} (h : Lexeme k ('\'' :: cs) content) :
    k = .string ∧ ∃ written, cs = written ++ ['\''] ∧ Written written content := by
  have hk : initialOf k = .quote := by
    have hquote : initial '\'' = .quote := by decide
    simpa [hquote] using h.initial_eq.symm
  generalize hlexeme : '\'' :: cs = lexeme at h
  cases h with
  | string h =>
    cases hlexeme
    exact ⟨rfl, _, rfl, h⟩
  | symbol h =>
    rw [initialOf_symbol k h] at hk
    cases hk
  | _ => cases hk

/-- What has to be given up behind a quote, the reader gives up. -/
theorem Faulty.scanString_eq {cs read rest : List Char} {e : LexError}
    (h : Faulty before read rest e) (htext : read ++ rest = '\'' :: cs) :
    Cursor.scanString cs (.behind before) = ⟨.error e, ⟨rest, .behind (before ++ read)⟩⟩ := by
  cases h with
  | unexpectedCharacter _ _ hquote _ => exact absurd (List.cons.inj htext).1 hquote
  | unterminatedString hwritten htail =>
    rw [List.append_nil] at htext
    obtain rfl := (List.cons.inj htext).2
    rw [Cursor.scanString, scanQuoted_append hwritten, Position.behind_append]
    rcases htail with rfl | rfl <;> simp [scanQuoted, Position.advanceAll_append]
  | unknownEscape hwritten hescape =>
    rw [List.cons_append, List.append_assoc] at htext
    obtain rfl := (List.cons.inj htext).2
    rw [Cursor.scanString, scanQuoted_append hwritten, Position.behind_append,
      Position.behind_append]
    simp [scanQuoted, unescape?_eq_none_iff.2 hescape, Position.advanceAll_append]
  | invalidNumber hlongest _ =>
    obtain ⟨c, ds, hdigits, hinitial, -⟩ := hlongest.isLexeme.exists_cons
    rw [hdigits] at htext
    obtain rfl := (List.cons.inj htext).1
    exact absurd hinitial (by decide)

/-- Where a text literal is accepted, the reader accepts it. -/
theorem Accepted.scanString_eq {cs rest : List Char}
    (h : Accepted k lexeme content (lexeme ++ rest)) (htext : lexeme ++ rest = '\'' :: cs) :
    Cursor.scanString cs (.behind before) =
      ⟨.ok (token before k lexeme content), ⟨rest, .behind (before ++ lexeme)⟩⟩ := by
  obtain ⟨ds, rfl, -⟩ := h.isLexeme.of_prefix (htext ▸ List.prefix_append _ _)
  obtain ⟨rfl, written, rfl, hwritten⟩ := lexeme_of_quote h.isLexeme
  have hcs : cs = written ++ '\'' :: rest := by simpa using htext.symm
  rw [hcs, Cursor.scanString, scanQuoted_append hwritten, token, Position.behind_append]
  simp [scanQuoted, Position.advanceAll_append]

/-- Where a quote stands, a text literal is read. -/
theorem scanString_attempt (before cs : List Char) :
    Attempt before ('\'' :: cs) (Cursor.scanString cs (.behind before)) := by
  obtain ⟨written, content, tail, rfl, hwritten, htail⟩ := exists_written cs
  have hfault : ∀ {read rest e}, Faulty before read rest e →
      read ++ rest = '\'' :: (written ++ tail) →
      Attempt before ('\'' :: (written ++ tail))
        (Cursor.scanString (written ++ tail) (.behind before)) := by
    intro read rest e hfaulty htext
    rw [hfaulty.scanString_eq htext, ← htext]
    exact .fault hfaulty
  cases htail with
  | endOfText => exact hfault (.unterminatedString hwritten (.inl rfl)) (by simp)
  | lastBackslash => exact hfault (.unterminatedString hwritten (.inr rfl)) (by simp)
  | @unknownEscape c rest hescape =>
    exact hfault (@Faulty.unknownEscape _ _ _ _ rest hwritten hescape) (by simp)
  | @quote rest =>
    have htext : '\'' :: (written ++ ['\'']) ++ rest = '\'' :: (written ++ '\'' :: rest) := by simp
    have haccepted : Accepted .string ('\'' :: (written ++ ['\''])) content
        ('\'' :: (written ++ ['\'']) ++ rest) := by
      refine ⟨⟨.string hwritten, List.prefix_append _ _, ?_⟩, nofun⟩
      intro k' lexeme' content' hlexeme hbegin
      rw [htext] at hbegin
      obtain ⟨ds, rfl, -⟩ := hlexeme.of_prefix hbegin
      obtain ⟨-, written', rfl, hwritten'⟩ := lexeme_of_quote hlexeme
      obtain ⟨tail', htail'⟩ := hbegin
      have hsame : written' ++ '\'' :: tail' = written ++ '\'' :: rest := by simpa using htail'
      rw [hwritten'.unique hwritten hsame]
    rw [haccepted.scanString_eq htext, ← htext]
    exact .token haccepted

/-! ### Symbols -/

/-- A symbol of two characters is taken wherever it stands. -/
theorem symbol?_of_length (hk : k ∈ symbols) (h : k.spelling.toList.length ≠ 1)
    (tail : List Char) : symbol? (k.spelling.toList ++ tail) = some (k, tail) := by
  have hlong : k ∈ symbols.filter (·.spelling.toList.length ≠ 1) :=
    List.mem_filter.2 ⟨hk, decide_eq_true h⟩
  have hall : symbols.filter (·.spelling.toList.length ≠ 1) =
      [.equal, .notEqual, .lessEqual, .greaterEqual, .arrow] := by decide
  rw [hall] at hlong
  simp only [List.mem_cons, List.not_mem_nil, or_false] at hlong
  rcases hlong with rfl | rfl | rfl | rfl | rfl <;> rfl

/-- The reader takes the longest symbol. -/
theorem symbol?_eq_some {rest : List Char} (h : symbol? text = some (k, rest)) :
    k ∈ symbols ∧ text = k.spelling.toList ++ rest ∧ ∀ k' ∈ symbols,
      k'.spelling.toList <+: text → k'.spelling.toList.length ≤ k.spelling.toList.length := by
  have hfound : k ∈ symbols ∧ text = k.spelling.toList ++ rest := by
    unfold symbol? at h
    split at h <;> cases h <;> exact ⟨by decide, rfl⟩
  refine ⟨hfound.1, hfound.2, fun k' hk' hbegin => ?_⟩
  have hlength : ∀ k ∈ symbols, k.spelling.toList.length = 1 ∨ k.spelling.toList.length = 2 := by
    decide
  by_cases hshort : k'.spelling.toList.length = 1
  · have hk := hlength k hfound.1
    omega
  · obtain ⟨tail, rfl⟩ := hbegin
    rw [symbol?_of_length hk' hshort tail] at h
    cases h
    exact Nat.le_refl _

/-- The reader finds a symbol where one stands. -/
theorem symbol?_ne_none (hk : k ∈ symbols) (h : k.spelling.toList <+: text) :
    symbol? text ≠ none := by
  obtain ⟨rest, rfl⟩ := h
  intro hnone
  unfold symbol? at hnone
  split at hnone
  any_goals exact Option.some_ne_none _ hnone
  next harrow hequal hlessEqual hgreaterEqual hnotEqual hleftParen hrightParen hcomma hcolon hdot
    hplus htimes hdivide hpower hminus hassign hless hgreater =>
  cases k with
  | arrow => exact harrow rest rfl
  | equal => exact hequal rest rfl
  | lessEqual => exact hlessEqual rest rfl
  | greaterEqual => exact hgreaterEqual rest rfl
  | notEqual => exact hnotEqual rest rfl
  | leftParen => exact hleftParen rest rfl
  | rightParen => exact hrightParen rest rfl
  | comma => exact hcomma rest rfl
  | colon => exact hcolon rest rfl
  | dot => exact hdot rest rfl
  | plus => exact hplus rest rfl
  | times => exact htimes rest rfl
  | divide => exact hdivide rest rfl
  | power => exact hpower rest rfl
  | minus => exact hminus rest rfl
  | assign => exact hassign rest rfl
  | less => exact hless rest rfl
  | greater => exact hgreater rest rfl
  | _ => simp [symbols] at hk

/-- A mark begins a symbol. -/
theorem lexeme_of_mark {c : Char} {cs : List Char} (hc : initial c = .mark)
    (h : Lexeme k (c :: cs) content) :
    k ∈ symbols ∧ c :: cs = k.spelling.toList ∧ content = c :: cs := by
  have hk : initialOf k = .mark := by
    simpa [hc] using h.initial_eq.symm
  generalize c :: cs = lexeme at h
  cases h with
  | symbol h => exact ⟨h, rfl, rfl⟩
  | _ => cases hk

/-- Where a mark stands, a symbol is read, or nothing begins with it. -/
theorem scanSymbol_attempt (before : List Char) {c : Char} {cs : List Char}
    (hc : initial c = .mark) :
    Attempt before (c :: cs) (Cursor.scanSymbol c cs (.behind before)) := by
  unfold Cursor.scanSymbol
  split
  · next k rest hsymbol =>
    obtain ⟨hk, htext, hmaximal⟩ := symbol?_eq_some hsymbol
    have haccepted : Accepted k k.spelling.toList k.spelling.toList
        (k.spelling.toList ++ rest) := by
      refine ⟨⟨.symbol hk, List.prefix_append _ _, ?_⟩, ?_⟩
      · intro k' lexeme' content' hlexeme hbegin
        rw [← htext] at hbegin
        obtain ⟨ds, rfl, -⟩ := hlexeme.of_prefix hbegin
        obtain ⟨hk', heq, -⟩ := lexeme_of_mark hc hlexeme
        rw [heq] at hbegin ⊢
        exact hmaximal k' hk' hbegin
      · rintro rfl
        exact absurd hk (by decide)
    rw [accept_eq, htext]
    exact .token haccepted
  · next hnone =>
    have hfaulty : Faulty before [c] cs (.unexpectedCharacter (.behind before) c) := by
      refine .unexpectedCharacter ?_ ?_ ?_ ?_
      · grind [initial]
      · grind [initial]
      · rintro rfl
        exact absurd hc (by decide)
      · intro k lexeme content hlexeme hbegin
        obtain ⟨ds, rfl, -⟩ := hlexeme.of_prefix hbegin
        obtain ⟨hk, heq, -⟩ := lexeme_of_mark hc hlexeme
        rw [heq] at hbegin
        exact symbol?_ne_none hk hbegin hnone
    rw [← Position.behind_concat]
    exact .fault hfaulty

/-! ### All attempts -/

/-- The text does not begin with layout. -/
def NoLayout (text : List Char) : Prop :=
  ∀ c ∈ text.head?, initial c ≠ .layout

/-- Where no layout stands, the reader makes the attempt that the grammar says. -/
theorem scanLexeme_attempt (before : List Char) (h : NoLayout text) :
    Attempt before text (Cursor.scanLexeme ⟨text, .behind before⟩) := by
  cases text with
  | nil => exact .finish
  | cons c cs =>
    have hlayout : initial c ≠ .layout := h c rfl
    unfold Cursor.scanLexeme
    dsimp only
    split
    · next hquote =>
      rw [hquote]
      exact scanString_attempt before cs
    · split
      · next hdigit => exact scanNumber_attempt before (initial_of_isDigit hdigit)
      · split
        · next hstart => exact scanName_attempt before (initial_eq_letter_iff.2 hstart)
        · refine scanSymbol_attempt before ?_
          grind [initial]

/-- A lexeme is of one kind, and the token keeps one text of it. -/
theorem Lexeme.unique {k' : Token.Kind} {content' : List Char} (h : Lexeme k lexeme content)
    (h' : Lexeme k' lexeme content') : k = k' ∧ content = content' := by
  obtain ⟨c, cs, rfl, -, hlayout⟩ := h.exists_cons
  cases hc : initial c with
  | letter =>
    obtain ⟨rfl, -, rfl⟩ := (lexeme_iff_of_letter hc).1 h
    obtain ⟨rfl, -, rfl⟩ := (lexeme_iff_of_letter hc).1 h'
    exact ⟨rfl, rfl⟩
  | digit =>
    -- the digits of an integer hold no point
    have hpoint : ∀ {whole fraction}, Digits (whole ++ '.' :: fraction) → False := fun hdigits =>
      absurd (hdigits.2 '.' (by simp)) (by decide)
    obtain ⟨rfl, hk⟩ := lexeme_of_digit hc h
    obtain ⟨rfl, hk'⟩ := lexeme_of_digit hc h'
    refine ⟨?_, rfl⟩
    rcases hk with ⟨rfl, hint⟩ | ⟨rfl, whole, fraction, heq, -⟩ <;>
      rcases hk' with ⟨rfl, hint'⟩ | ⟨rfl, whole', fraction', heq', -⟩
    · rfl
    · exact (hpoint (heq' ▸ hint)).elim
    · exact (hpoint (heq ▸ hint')).elim
    · rfl
  | quote =>
    obtain rfl := eq_quote_of_initial hc
    obtain ⟨rfl, written, rfl, hwritten⟩ := lexeme_of_quote h
    obtain ⟨rfl, written', heq, hwritten'⟩ := lexeme_of_quote h'
    obtain rfl := List.append_cancel_right heq
    refine ⟨rfl, ?_⟩
    have hread := scanQuoted_append hwritten [] ['\''] .start
    rw [scanQuoted_append hwritten'] at hread
    simpa [scanQuoted] using hread.symm
  | mark =>
    obtain ⟨hk, heq, rfl⟩ := lexeme_of_mark hc h
    obtain ⟨hk', heq', rfl⟩ := lexeme_of_mark hc h'
    have hall : ∀ k ∈ symbols, ∀ k' ∈ symbols, k.spelling.toList = k'.spelling.toList → k = k' := by
      decide
    exact ⟨hall k hk k' hk' (heq.symm.trans heq'), rfl⟩
  | layout => exact absurd hc hlayout

/-- Only one lexeme is the longest one. -/
theorem Longest.unique {k' : Token.Kind} {lexeme' content' : List Char}
    (h : Longest k lexeme content text) (h' : Longest k' lexeme' content' text) :
    k = k' ∧ lexeme = lexeme' ∧ content = content' := by
  have hle := h.maximal _ _ _ h'.isLexeme h'.isBeginning
  have hle' := h'.maximal _ _ _ h.isLexeme h.isBeginning
  have hbegin := List.prefix_of_prefix_length_le h.isBeginning h'.isBeginning hle'
  obtain rfl := hbegin.eq_of_length (by omega)
  obtain ⟨rfl, rfl⟩ := h.isLexeme.unique h'.isLexeme
  exact ⟨rfl, rfl, rfl⟩

/-- What has to be given up is not layout, and is not accepted. -/
theorem Faulty.exists_cons {read rest : List Char} {e : LexError}
    (h : Faulty before read rest e) : ∃ c cs, read = c :: cs ∧ initial c ≠ .layout := by
  cases h with
  | @unexpectedCharacter c _ hblank hmark _ _ => exact ⟨c, [], rfl, by grind [initial]⟩
  | unterminatedString => exact ⟨_, _, rfl, by decide⟩
  | unknownEscape => exact ⟨_, _, rfl, by decide⟩
  | invalidNumber hlongest _ =>
    obtain ⟨c, cs, heq, -, hlayout⟩ := hlongest.isLexeme.exists_cons
    exact ⟨c, cs, heq, hlayout⟩

/-- Behind a quote, the reader makes every attempt that the grammar allows. -/
theorem Attempt.scanString_eq {cs : List Char} {s : Scan} (h : Attempt before ('\'' :: cs) s) :
    Cursor.scanString cs (.behind before) = s := by
  generalize htext : '\'' :: cs = text at h
  cases h with
  | finish => cases htext
  | fault hfaulty => exact hfaulty.scanString_eq htext.symm
  | token haccepted => exact haccepted.scanString_eq htext.symm

/-- An error other than that of a text literal leaves no lexeme to accept. -/
theorem Faulty.not_accepted {read rest : List Char} {e : LexError}
    (h : Faulty before read rest e) (hquote : read.head? ≠ some '\'') :
    ¬ Accepted k lexeme content (read ++ rest) := by
  intro haccepted
  cases h with
  | unexpectedCharacter _ _ _ hnone => exact hnone _ _ _ haccepted.isLexeme haccepted.isBeginning
  | unterminatedString => exact hquote rfl
  | unknownEscape => exact hquote rfl
  | invalidNumber hlongest hlarge =>
    obtain ⟨rfl, rfl, -⟩ := hlongest.unique haccepted.toLongest
    have hle := haccepted.inRange rfl
    omega

/-- There is only one error at a place other than those of text literals. -/
theorem Faulty.unique {read rest read' rest' : List Char} {e e' : LexError}
    (h : Faulty before read rest e) (h' : Faulty before read' rest' e')
    (htext : read ++ rest = read' ++ rest') (hquote : read.head? ≠ some '\'') :
    read = read' ∧ e = e' := by
  have hquote' : read'.head? ≠ some '\'' := by
    obtain ⟨c, cs, rfl, -⟩ := h.exists_cons
    obtain ⟨c', cs', rfl, -⟩ := h'.exists_cons
    obtain rfl := (List.cons.inj htext).1
    exact hquote
  cases h with
  | unexpectedCharacter _ _ _ hnone =>
    cases h' with
    | unexpectedCharacter => cases htext; exact ⟨rfl, rfl⟩
    | invalidNumber hlongest _ =>
      rw [← htext] at hlongest
      exact absurd hlongest.isBeginning (hnone _ _ _ hlongest.isLexeme)
    | _ => exact absurd rfl hquote'
  | invalidNumber hlongest _ =>
    cases h' with
    | unexpectedCharacter _ _ _ hnone =>
      rw [htext] at hlongest
      exact absurd hlongest.isBeginning (hnone _ _ _ hlongest.isLexeme)
    | invalidNumber hlongest' _ =>
      obtain ⟨-, rfl, -⟩ := hlongest.unique (htext ▸ hlongest')
      exact ⟨rfl, rfl⟩
    | _ => exact absurd rfl hquote'
  | _ => exact absurd rfl hquote

/-- Only one attempt can be made at a place. -/
theorem Attempt.unique {s s' : Scan} (h : Attempt before text s) (h' : Attempt before text s') :
    s = s' := by
  by_cases hquote : text.head? = some '\''
  · obtain ⟨cs, rfl⟩ : ∃ cs, text = '\'' :: cs := by
      cases text with
      | nil => cases hquote
      | cons c cs => exact ⟨cs, by rw [Option.some.inj hquote]⟩
    exact h.scanString_eq.symm.trans h'.scanString_eq
  · have hread : ∀ {read rest e}, Faulty before read rest e → text = read ++ rest →
        read.head? ≠ some '\'' := by
      intro read rest e hfaulty htext
      obtain ⟨c, cs, rfl, -⟩ := hfaulty.exists_cons
      rwa [htext] at hquote
    generalize htext : text = text' at h'
    cases h with
    | finish =>
      cases h' with
      | finish => rfl
      | fault hfaulty =>
        obtain ⟨c, cs, rfl, -⟩ := hfaulty.exists_cons
        cases htext
      | token haccepted =>
        obtain ⟨c, cs, rfl, -, -⟩ := haccepted.isLexeme.exists_cons
        cases htext
    | fault hfaulty =>
      have hfirst := hread hfaulty rfl
      cases h' with
      | finish =>
        obtain ⟨c, cs, rfl, -⟩ := hfaulty.exists_cons
        cases htext
      | fault hfaulty' =>
        obtain ⟨rfl, rfl⟩ := hfaulty.unique hfaulty' htext hfirst
        rw [List.append_cancel_left htext]
      | token haccepted =>
        rw [← htext] at haccepted
        exact absurd haccepted (hfaulty.not_accepted hfirst)
    | token haccepted =>
      cases h' with
      | finish =>
        obtain ⟨c, cs, rfl, -, -⟩ := haccepted.isLexeme.exists_cons
        cases htext
      | fault hfaulty =>
        rw [htext] at haccepted
        exact absurd haccepted (hfaulty.not_accepted (hread hfaulty htext))
      | token haccepted' =>
        rw [← htext] at haccepted'
        obtain ⟨rfl, rfl, rfl⟩ := haccepted.toLongest.unique haccepted'.toLongest
        rw [List.append_cancel_left htext]

end Lexical

end SnapshotScript
