import Mathlib.Algebra.Ring.Int.Defs
import SnapshotScript.Proofs.Lexical.Decomposition
import SnapshotScript.Proofs.Session.Course

/-!
# When a session asks for more

A session counts the parentheses of each line by itself, and the reader those of the whole text.
The two agree as long as every text literal ends on the line on which it begins: then a lexeme
changes the balance by what it is worth (`Lexeme.lineBalance_append`), and layout leaves it as it
is.

Where a text literal goes on behind the end of a line the session has lost track of it, and the rest
of the literal counts as if it stood outside, and what follows it as if it stood inside.
-/

namespace SnapshotScript

/-! ### The balance of lines -/

/-- What was counted before is added to a balance. -/
theorem parenBalance_add (before sum : Int) (quoted : Bool) (cs : List Char) :
    parenBalance (before + sum) quoted cs = before + parenBalance sum quoted cs := by
  induction sum, quoted, cs using parenBalance.induct
  all_goals simp_all [parenBalance, Int.add_assoc, Int.add_sub_assoc]

/-- What a character is worth outside of text literals and comments. -/
def parenWorth (c : Char) : Int :=
  if c = '(' then 1 else if c = ')' then -1 else 0

/-- The balance of the lines of a text, each of which is read by itself; `quoted` tells whether a
text literal is open at the beginning. -/
def lineBalance (quoted : Bool) (text : List Char) : Int :=
  match text.splitOn '\n' with
  | [] => 0
  | line :: lines => parenBalance 0 quoted line + (lines.map (parenBalance 0 false)).sum

/-- Where no text literal is open, the first line counts as the others do. -/
theorem lineBalance_eq_sum (text : List Char) :
    lineBalance false text = ((text.splitOn '\n').map (parenBalance 0 false)).sum := by
  unfold lineBalance
  split
  · next h => rw [h]; rfl
  · next h => rw [h, List.map_cons, List.sum_cons]

/-- A line more adds its own balance. -/
theorem lineBalance_append_line (text : List Char) {line : List Char} (h : '\n' ∉ line) :
    lineBalance false (text ++ '\n' :: line) =
      lineBalance false text + parenBalance 0 false line := by
  rw [lineBalance_eq_sum, List.splitOn_append_cons_self, List.splitOn_eq_singleton h,
    List.map_append, List.sum_append, ← lineBalance_eq_sum]
  simp

/-- A line alone has its own balance. -/
theorem lineBalance_line (quoted : Bool) {line : List Char} (h : '\n' ∉ line) :
    lineBalance quoted line = parenBalance 0 quoted line := by
  rw [lineBalance, List.splitOn_eq_singleton h]
  simp

/-- The next line begins outside of text literals. -/
theorem lineBalance_lineFeed (quoted : Bool) (cs : List Char) :
    lineBalance quoted ('\n' :: cs) = lineBalance false cs := by
  rw [lineBalance, List.splitOn_cons_eq_if_modifyHead, if_pos (beq_self_eq_true _)]
  simp [parenBalance, lineBalance_eq_sum]

/-- A character other than a line feed belongs to the first line. -/
theorem exists_splitOn_cons {c : Char} (hc : c ≠ '\n') (cs : List Char) :
    ∃ line lines, cs.splitOn '\n' = line :: lines ∧
      (c :: cs).splitOn '\n' = (c :: line) :: lines := by
  obtain ⟨line, lines, hcs⟩ := List.exists_cons_of_ne_nil (List.splitOn_ne_nil '\n' cs)
  refine ⟨line, lines, hcs, ?_⟩
  rw [List.splitOn_cons_eq_if_modifyHead, if_neg (by simpa using hc), hcs]
  rfl

/-- Outside of text literals and comments, each character counts for itself. -/
theorem lineBalance_cons {c : Char} (hquote : c ≠ '\'') (hmark : c ≠ '#') (cs : List Char) :
    lineBalance false (c :: cs) = parenWorth c + lineBalance false cs := by
  by_cases hc : c = '\n'
  · rw [hc, lineBalance_lineFeed]
    exact (Int.zero_add _).symm
  · obtain ⟨line, lines, hcs, hcons⟩ := exists_splitOn_cons hc cs
    rw [lineBalance, lineBalance, hcs, hcons]
    dsimp only
    have hadd := parenBalance_add (parenWorth c) 0 false line
    rw [← Int.add_assoc, ← hadd]
    congr 1
    by_cases hopen : c = '('
    · rw [hopen]; rfl
    · by_cases hclose : c = ')'
      · rw [hclose]; rfl
      · rw [parenBalance.eq_9 _ _ _ hquote hmark hopen hclose]
        simp [parenWorth, hopen, hclose]

/-- A quote opens or closes a text literal. -/
theorem lineBalance_quote (quoted : Bool) (cs : List Char) :
    lineBalance quoted ('\'' :: cs) = lineBalance (!quoted) cs := by
  obtain ⟨line, lines, hcs, hcons⟩ := exists_splitOn_cons (show '\'' ≠ '\n' by decide) cs
  rw [lineBalance, lineBalance, hcs, hcons]
  cases quoted <;> rfl

/-- A line of comment counts for nothing. -/
theorem lineBalance_comment {text : List Char} (h : '\n' ∉ text) (cs : List Char) :
    lineBalance false ('#' :: (text ++ '\n' :: cs)) = lineBalance false cs ∧
      lineBalance false ('#' :: text) = 0 := by
  have hline : '\n' ∉ '#' :: text := by
    simpa using h
  constructor
  · rw [lineBalance_eq_sum, ← List.cons_append, List.splitOn_append_cons_self,
      List.splitOn_eq_singleton hline, List.map_append, List.sum_append, ← lineBalance_eq_sum]
    simp [parenBalance]
  · rw [lineBalance_line false hline, parenBalance]

/-! ### The balance of lexemes -/

namespace Lexical

variable {before text gap : List Char} {k : Token.Kind} {lexeme content : List Char}

/-- The inner part of a text literal that holds no line feed counts for nothing. -/
theorem Written.lineBalance_append {written : List Char} (h : Written written content)
    (hline : '\n' ∉ written) (cs : List Char) :
    lineBalance true (written ++ cs) = lineBalance true cs := by
  induction h with
  | nil => rfl
  | @plain c written _ hquote hbackslash _ ih =>
    rw [List.mem_cons, not_or] at hline
    obtain ⟨line, lines, hcs, hcons⟩ := exists_splitOn_cons (Ne.symm hline.1) (written ++ cs)
    rw [List.cons_append, ← ih hline.2, lineBalance, lineBalance, hcs, hcons]
    dsimp only
    rw [parenBalance.eq_5 _ _ _ (fun heq _ => hbackslash heq) (fun _ _ heq _ => hbackslash heq)
      hquote]
  | @escaped c d written _ hescape _ ih =>
    rw [List.mem_cons, not_or, List.mem_cons, not_or] at hline
    obtain ⟨line, lines, hcs, hcons⟩ := exists_splitOn_cons (Ne.symm hline.2.1) (written ++ cs)
    obtain ⟨line', lines', hcs', hcons'⟩ :=
      exists_splitOn_cons (Ne.symm hline.1) (c :: (written ++ cs))
    rw [hcons] at hcs'
    cases hcs'
    rw [List.cons_append, List.cons_append, ← ih hline.2.2, lineBalance, lineBalance, hcs, hcons']
    rfl

/-- Characters outside of text literals and comments count for themselves. -/
theorem lineBalance_append {cs : List Char} (hquote : '\'' ∉ cs) (hmark : '#' ∉ cs)
    (rest : List Char) :
    lineBalance false (cs ++ rest) = (cs.map parenWorth).sum + lineBalance false rest := by
  induction cs with
  | nil => simp
  | cons c cs ih =>
    rw [List.cons_append,
      lineBalance_cons (List.ne_of_not_mem_cons hquote).symm (List.ne_of_not_mem_cons hmark).symm,
      ih (List.not_mem_of_not_mem_cons hquote) (List.not_mem_of_not_mem_cons hmark),
      List.map_cons, List.sum_cons, Int.add_assoc]

/-- Layout counts for nothing. -/
theorem Layout.lineBalance_append (h : Layout gap text) :
    lineBalance false (gap ++ text) = lineBalance false text := by
  induction h with
  | nil => rfl
  | @blank c gap rest hblank _ ih =>
    have hne : ∀ d, isBlank d = false → c ≠ d := by
      intro d hd heq
      rw [heq, hd] at hblank
      cases hblank
    rw [List.cons_append, lineBalance_cons (hne _ (by decide)) (hne _ (by decide)), ih, parenWorth,
      if_neg (hne _ (by decide)), if_neg (hne _ (by decide)), Int.zero_add]
  | @comment line gap rest hline _ ih =>
    rw [List.cons_append, List.append_assoc, List.cons_append, (lineBalance_comment hline _).1, ih]
  | @lastComment line hline =>
    rw [List.append_nil, (lineBalance_comment hline []).2]
    rfl

/-- What a token is worth. -/
def kindWorth : Token.Kind → Int
  | .leftParen => 1
  | .rightParen => -1
  | _ => 0

/-- The parts of names and numbers are worth nothing. -/
theorem worth_of_isNamePart {c : Char} (h : isNamePart c = true ∨ c = '.') :
    (c ≠ '\'' ∧ c ≠ '#') ∧ parenWorth c = 0 := by
  have hne : ∀ d, isNamePart d = false → d ≠ '.' → c ≠ d := by
    rintro d hd hpoint rfl
    rcases h with h | h
    · rw [hd] at h
      cases h
    · exact hpoint h
  refine ⟨⟨hne _ (by decide) (by decide), hne _ (by decide) (by decide)⟩, ?_⟩
  rw [parenWorth, if_neg (hne _ (by decide) (by decide)), if_neg (hne _ (by decide) (by decide))]

/-- Words and numbers count for nothing. -/
theorem lineBalance_append_of_isNamePart {cs : List Char}
    (h : ∀ c ∈ cs, isNamePart c = true ∨ c = '.') (rest : List Char) :
    lineBalance false (cs ++ rest) = lineBalance false rest := by
  induction cs with
  | nil => rfl
  | cons c cs ih =>
    obtain ⟨hc, hcs⟩ := List.forall_mem_cons.1 h
    obtain ⟨⟨hquote, hmark⟩, hworth⟩ := worth_of_isNamePart hc
    rw [List.cons_append, lineBalance_cons hquote hmark, hworth, ih hcs, Int.zero_add]

/-- A symbol counts for what it is worth. -/
theorem lineBalance_append_symbol (hk : k ∈ symbols) (rest : List Char) :
    lineBalance false (k.spelling.toList ++ rest) = kindWorth k + lineBalance false rest := by
  have hall : ∀ k ∈ symbols, ('\'' ∉ k.spelling.toList ∧ '#' ∉ k.spelling.toList) ∧
      (k.spelling.toList.map parenWorth).sum = kindWorth k := by
    decide
  obtain ⟨⟨hquote, hmark⟩, hsum⟩ := hall k hk
  rw [lineBalance_append hquote hmark, hsum]

/-- A lexeme counts for what its token is worth, if it is no text literal that goes on over the end
of a line. -/
theorem Lexeme.lineBalance_append (h : Lexeme k lexeme content)
    (hstring : k = .string → '\n' ∉ lexeme) (rest : List Char) :
    lineBalance false (lexeme ++ rest) = kindWorth k + lineBalance false rest := by
  cases h with
  | @identifier c cs hstart hparts _ =>
    have hparts' : ∀ d ∈ c :: cs, isNamePart d = true ∨ d = '.' := by
      refine List.forall_mem_cons.2 ⟨.inl ?_, fun d hd => .inl (hparts d hd)⟩
      rw [isNamePart, hstart, Bool.true_or]
    rw [lineBalance_append_of_isNamePart hparts']
    exact (Int.zero_add _).symm
  | keyword word =>
    have hall : word.word.toList.all isNamePart = true := by cases word <;> decide
    rw [lineBalance_append_of_isNamePart fun d hd => .inl (List.all_eq_true.1 hall d hd)]
    exact (Int.zero_add _).symm
  | int hdigits =>
    have hparts : ∀ d ∈ lexeme, isNamePart d = true ∨ d = '.' := by
      intro d hd
      left
      rw [isNamePart, hdigits.2 d hd, Bool.or_true]
    rw [lineBalance_append_of_isNamePart hparts]
    exact (Int.zero_add _).symm
  | @float whole fraction hwhole hfraction =>
    have hparts : ∀ d ∈ whole ++ '.' :: fraction, isNamePart d = true ∨ d = '.' := by
      intro d hd
      rw [List.mem_append, List.mem_cons] at hd
      rcases hd with hd | rfl | hd
      · left
        rw [isNamePart, hwhole.2 d hd, Bool.or_true]
      · exact .inr rfl
      · left
        rw [isNamePart, hfraction.2 d hd, Bool.or_true]
    rw [lineBalance_append_of_isNamePart hparts]
    exact (Int.zero_add _).symm
  | @string written _ hwritten =>
    have hline : '\n' ∉ written := fun hmem => hstring rfl (by simp [hmem])
    rw [List.cons_append, List.append_assoc, lineBalance_quote, Bool.not_false,
      hwritten.lineBalance_append hline, List.singleton_append, lineBalance_quote]
    exact (Int.zero_add _).symm
  | symbol hk => exact lineBalance_append_symbol hk rest

/-- A lexeme whose token ends on the line on which it begins holds no line feed. -/
theorem lineFeed_not_mem_of_line_eq
    (h : (token before k lexeme content).first.line = (token before k lexeme content).last.line) :
    '\n' ∉ lexeme := by
  simp only [token, Position.behind, List.count_append] at h
  rw [← List.count_eq_zero]
  omega

/-- The balance of the lines of a text is what its tokens are worth, if every text literal ends on
the line on which it begins. -/
theorem Tokenizes.lineBalance_eq {result : Except LexError (List Token)}
    (h : Tokenizes before text result) :
    ∀ tokens, result = .ok tokens →
      (∀ t ∈ tokens, t.kind = .string → t.first.line = t.last.line) →
      lineBalance false text = (tokens.map fun t => kindWorth t.kind).sum := by
  induction h with
  | finish hgap =>
    rintro tokens ⟨rfl⟩ -
    have hbalance := hgap.lineBalance_append
    rw [List.append_nil] at hbalance
    rw [hbalance]
    rfl
  | fault => exact nofun
  | @token before gap k lexeme content rest result hgap haccepted _ ih =>
    intro tokens htokens hstrings
    cases result with
    | error e => cases htokens
    | ok tokens' =>
      cases htokens
      obtain ⟨hfirst, hrest⟩ := List.forall_mem_cons.1 hstrings
      have hlexeme : k = .string → '\n' ∉ lexeme := fun hk =>
        lineFeed_not_mem_of_line_eq (hfirst hk)
      rw [hgap.lineBalance_append, haccepted.isLexeme.lineBalance_append hlexeme,
        ih tokens' rfl hrest, List.map_cons, List.sum_cons]
      rfl

/-- Tokens are worth the opening parentheses among them less the closing ones. -/
theorem sum_kindWorth (tokens : List Token) :
    (tokens.map fun t => kindWorth t.kind).sum =
      (tokens.map Token.kind).count .leftParen - (tokens.map Token.kind).count .rightParen := by
  induction tokens with
  | nil => rfl
  | cons t tokens ih =>
    rw [List.map_cons, List.sum_cons, ih, List.map_cons, List.count_cons, List.count_cons]
    by_cases hopen : t.kind = .leftParen
    · simp [hopen, kindWorth]
      omega
    · by_cases hclose : t.kind = .rightParen
      · simp [hclose, kindWorth]
        omega
      · have hworth : kindWorth t.kind = 0 := by
          unfold kindWorth
          split <;> simp_all
        simp [hopen, hclose, hworth]

end Lexical

/-! ### The balance of a session -/

/-- A line adds its own balance to that of the lines that wait. -/
theorem Pending.balance_add (p : Pending) (line : String) :
    (p.add line).balance = p.balance + parenBalance 0 false line.toList := by
  rw [← parenBalance_add, Int.add_zero]
  rfl

/-- The lines that wait are counted. -/
def Pending.IsCounted (p : Pending) : Prop :=
  p.balance = lineBalance false p.text.toList

/-- A line more is counted, too. -/
theorem Pending.IsCounted.add {p : Pending} (h : p.IsCounted) {line : String}
    (hline : '\n' ∉ line.toList) : (p.add line).IsCounted := by
  unfold IsCounted at h ⊢
  rw [p.balance_add, h]
  by_cases hempty : p.text = ""
  · simp [Pending.add, hempty, lineBalance_line, hline, parenBalance]
  · have htext : (p.add line).text = p.text ++ "\n" ++ line := by
      simp [Pending.add, hempty]
    rw [htext, String.toList_append, String.toList_append, List.append_assoc,
      ← lineBalance_append_line _ hline]
    rfl

namespace Session

/-- In every session, the lines that wait are counted. -/
theorem isCounted_of_after? {depth : Nat} {lines : List String} {s : Session}
    (h : after? depth lines = some s) :
    (∀ line ∈ lines, '\n' ∉ line.toList) → s.pending.IsCounted := by
  have hempty : Pending.empty.IsCounted := rfl
  refine after?_induction
    (P := fun lines s => (∀ line ∈ lines, '\n' ∉ line.toList) → s.pending.IsCounted)
    (fun _ => hempty) ?_ h
  intro lines s line written s' _ hs hfeed hlines
  have hcounted := hs fun l hl => hlines l (List.mem_append_left _ hl)
  have hline := hlines line (by simp)
  unfold feed at hfeed
  split at hfeed
  · cases hfeed
  · dsimp only at hfeed
    split at hfeed
    · cases hfeed
      exact hcounted.add hline
    · cases hfeed
      exact hempty

end Session

/-- A session that is given a line asks for one more just in the case that there are more opening
than closing parentheses among the tokens of the lines that wait, and evaluates these lines at once
otherwise.  For this every text literal has to end on the line on which it begins. -/
theorem continuation_iff_open {depth : Nat} {bytes : List UInt8} {read : List String}
    {line : String} {rest : List (Option String)} {s : Session} {tokens : List Token}
    (hinput : (byteLines bytes).map decodeText? = read.map some ++ some line :: rest)
    (hs : Session.after? depth read = some s) (hexit : s.pending.isExit line = false)
    (htokens : tokenize (s.pending.add line).text = .ok tokens)
    (hstrings : ∀ t ∈ tokens, t.kind = .string → t.first.line = t.last.line) :
    s.feed line =
      if (tokens.map Token.kind).count .rightParen < (tokens.map Token.kind).count .leftParen then
        some ([.shown continuationPrompt], ⟨s.interpreter, s.pending.add line⟩)
      else
        let (written, i) := Session.evaluateText s.interpreter (s.pending.add line).text
        some (written ++ [.shown prompt], ⟨i, .empty⟩) := by
  have hlines : ∀ l, some l ∈ (byteLines bytes).map decodeText? → '\n' ∉ l.toList :=
    fun l hl => Session.lineFeed_not_mem_of_input hl
  rw [hinput] at hlines
  have hline : '\n' ∉ line.toList := hlines line (by simp)
  have hread : ∀ l ∈ read, '\n' ∉ l.toList := fun l hl => hlines l (by simp [hl])
  have hbalance : (s.pending.add line).balance =
      (tokens.map Token.kind).count .leftParen - (tokens.map Token.kind).count .rightParen := by
    have hcounted := (Session.isCounted_of_after? hs hread).add hline
    have htokenizes := Lexical.tokenizes_of_tokenize htokens
    rw [hcounted, htokenizes.lineBalance_eq tokens rfl hstrings, Lexical.sum_kindWorth]
  have hopen : (s.pending.add line).isOpen = true ↔
      (tokens.map Token.kind).count .rightParen < (tokens.map Token.kind).count .leftParen := by
    rw [Pending.isOpen, hbalance, decide_eq_true_iff]
    omega
  rw [Session.feed, hexit, if_neg Bool.false_ne_true]
  dsimp only
  by_cases hmore : (s.pending.add line).isOpen = true
  · rw [if_pos hmore, if_pos (hopen.1 hmore)]
  · rw [if_neg hmore, if_neg (fun hlt => hmore (hopen.2 hlt))]

/-- Two parentheses are open after the second of these lines is read, and one is closed. -/
theorem continuation_iff_open_sum :
    ∃ s : Session, Session.after? 10 ["(1"] = some s ∧
      s.feed "+ (2)" =
        some ([.shown continuationPrompt], ⟨s.interpreter, s.pending.add "+ (2)"⟩) := by
  have hinput : (byteLines "(1\n+ (2)\n".toUTF8.data.toList).map decodeText? =
      ["(1"].map some ++ some "+ (2)" :: [] := by
    decide
  have hs : Session.after? 10 ["(1"] = some ⟨.new 10, ⟨"(1", 1⟩⟩ := rfl
  have htokens : tokenize (Pending.add ⟨"(1", 1⟩ "+ (2)").text = .ok
      [⟨.leftParen, "(", ⟨1, 1⟩, ⟨1, 2⟩⟩, ⟨.int, "1", ⟨1, 2⟩, ⟨1, 3⟩⟩,
        ⟨.plus, "+", ⟨2, 1⟩, ⟨2, 2⟩⟩, ⟨.leftParen, "(", ⟨2, 3⟩, ⟨2, 4⟩⟩,
        ⟨.int, "2", ⟨2, 4⟩, ⟨2, 5⟩⟩, ⟨.rightParen, ")", ⟨2, 5⟩, ⟨2, 6⟩⟩, .endAt ⟨2, 6⟩] := rfl
  refine ⟨_, hs, ?_⟩
  rw [continuation_iff_open hinput hs rfl htokens (by decide), if_pos (by decide)]

/-- The session does not know that a text literal went on over the end of a line: it asks for more
although all parentheses among the tokens are closed. -/
theorem continuation_of_closed_text :
    ∃ s : Session, ∃ tokens : List Token,
      Session.after? 10 ["print('a"] = some s ∧ s.pending.isExit "b')" = false ∧
      tokenize (s.pending.add "b')").text = .ok tokens ∧
      (tokens.map Token.kind).count .leftParen = 1 ∧ (tokens.map Token.kind).count .rightParen = 1 ∧
      s.feed "b')" = some ([.shown continuationPrompt], ⟨s.interpreter, s.pending.add "b')"⟩) := by
  refine ⟨⟨.new 10, ⟨"print('a", 1⟩⟩, _, rfl, rfl, rfl, by decide, by decide, rfl⟩

end SnapshotScript
