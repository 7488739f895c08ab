import Mathlib.Logic.Function.Iterate
import SnapshotScript.Proofs.Lexical.Decomposition

/-!
# Progress of the reader

A reader may go on behind an error, and then it begins in the middle of a lexeme.  So nothing is
asked here of the place at which an attempt begins, except that the cursor knows its position.  From
every such place an attempt either passes characters, or it finds only layout and comes to the end
of the text, where it stays (`scan_cases`).  Hence the end is reached after no more attempts than
there are characters, and one (`scanning_progress`).
-/

namespace SnapshotScript

open Lexical

namespace Cursor

/-! ### One attempt -/

/-- The cursor stands behind the characters `read` of a text. -/
structure StandsBehind (source read : List Char) (cursor : Cursor) : Prop where
  text : source = read ++ cursor.rest
  position : cursor.position = .behind read

variable {source read : List Char} {cursor : Cursor}

/-- The end of the text, as an attempt finds it. -/
def atEnd (source : List Char) : Scan :=
  ⟨.ok (.endAt (.behind source)), ⟨[], .behind source⟩⟩

/-- A cursor is what it stands behind. -/
theorem StandsBehind.eq_mk (h : cursor.StandsBehind source read) :
    cursor = ⟨cursor.rest, .behind read⟩ := by
  rw [← h.position]

/-- Where only layout is left, an attempt finds the end of the text. -/
theorem StandsBehind.scan_eq_atEnd (h : cursor.StandsBehind source read)
    (hlayout : Layout cursor.rest []) : cursor.scan = atEnd source := by
  have hfinish : Attempt (read ++ cursor.rest) [] (atEnd source) := by
    rw [← h.text]
    exact .finish
  have hscan := scan_eq hlayout nofun hfinish
  rw [List.append_nil, ← h.eq_mk] at hscan
  exact hscan

/-- An attempt finds the end of the text if only layout is left.  Otherwise it passes characters,
and what it finds is not the end. -/
theorem StandsBehind.scan_cases (h : cursor.StandsBehind source read) :
    (Layout cursor.rest [] ∧ cursor.scan = atEnd source) ∨
      (¬ Layout cursor.rest [] ∧ (∀ t, cursor.scan.outcome = .ok t → t.kind ≠ .endOfInput) ∧
        ∃ passed, passed ≠ [] ∧ cursor.rest = passed ++ cursor.scan.next.rest ∧
          cursor.scan.next.StandsBehind source (read ++ passed)) := by
  obtain ⟨gap, rest, hrest, hgap, hno⟩ := exists_layout cursor.rest
  have hattempt := scanLexeme_attempt (read ++ gap) hno
  have hscan := scan_eq hgap hno hattempt
  rw [← hrest, ← h.eq_mk] at hscan
  -- What an attempt does that does not find the end.
  have hpasses {lexeme tail : List Char} {outcome : Except LexError Token} (hlexeme : lexeme ≠ [])
      (hsplit : rest = lexeme ++ tail)
      (hresult : cursor.scan = ⟨outcome, ⟨tail, .behind (read ++ gap ++ lexeme)⟩⟩)
      (houtcome : ∀ t, outcome = .ok t → t.kind ≠ .endOfInput) :
      ¬ Layout cursor.rest [] ∧ (∀ t, cursor.scan.outcome = .ok t → t.kind ≠ .endOfInput) ∧
        ∃ passed, passed ≠ [] ∧ cursor.rest = passed ++ cursor.scan.next.rest ∧
          cursor.scan.next.StandsBehind source (read ++ passed) := by
    have hpassed : cursor.rest = gap ++ lexeme ++ tail := by
      rw [hrest, hsplit, List.append_assoc]
    rw [hresult]
    refine ⟨fun hlayout => ?_, houtcome, gap ++ lexeme, by simp [hlexeme], hpassed, ?_, ?_⟩
    · have hend := h.scan_eq_atEnd hlayout
      rw [hresult] at hend
      exact houtcome _ (congrArg Scan.outcome hend) rfl
    · rw [h.text, hpassed, List.append_assoc read]
    · rw [List.append_assoc]
  generalize scanLexeme ⟨rest, .behind (read ++ gap)⟩ = s at hattempt hscan
  cases hattempt with
  | finish =>
    rw [List.append_nil] at hrest
    have hlayout : Layout cursor.rest [] := by rwa [hrest]
    exact .inl ⟨hlayout, h.scan_eq_atEnd hlayout⟩
  | fault hfaulty =>
    obtain ⟨c, cs, rfl, -⟩ := hfaulty.exists_cons
    exact .inr (hpasses (List.cons_ne_nil c cs) rfl hscan nofun)
  | token haccepted =>
    have hlexeme := haccepted.isLexeme
    obtain ⟨c, cs, rfl, -⟩ := hlexeme.exists_cons
    refine .inr (hpasses (List.cons_ne_nil c cs) rfl hscan fun t ht => ?_)
    cases ht
    exact hlexeme.ne_endOfInput

/-! ### Any number of attempts -/

/-- The cursor after `count` attempts to read a token, each from where the one before stopped. -/
def after (count : Nat) (cursor : Cursor) : Cursor :=
  (fun c => c.scan.next)^[count] cursor

theorem after_succ (count : Nat) (cursor : Cursor) :
    cursor.after (count + 1) = (cursor.after count).scan.next :=
  Function.iterate_succ_apply' ..

/-- The results of several attempts are those of the single ones. -/
theorem scanTimes_eq (count : Nat) (cursor : Cursor) :
    scanTimes count cursor = (List.range count).map fun n => (cursor.after n).scan.outcome := by
  induction count generalizing cursor with
  | zero => rfl
  | succ count ih =>
    rw [scanTimes, List.range_succ_eq_map, List.map_cons, List.map_map, ih]
    rfl

/-- The cursor knows its position before the first attempt. -/
theorem standsBehind_ofText (source : String) :
    (ofText source).StandsBehind source.toList [] :=
  ⟨rfl, rfl⟩

/-- The cursor knows its position after every attempt. -/
theorem StandsBehind.next (h : cursor.StandsBehind source read) :
    ∃ read', cursor.scan.next.StandsBehind source read' := by
  rcases h.scan_cases with ⟨-, hend⟩ | ⟨-, -, passed, -, -, hnext⟩
  · refine ⟨source, ?_⟩
    rw [hend]
    exact ⟨(List.append_nil source).symm, rfl⟩
  · exact ⟨read ++ passed, hnext⟩

/-- The cursor knows its position after any number of attempts. -/
theorem StandsBehind.after (h : cursor.StandsBehind source read) (count : Nat) :
    ∃ read', (cursor.after count).StandsBehind source read' := by
  induction count with
  | zero => exact ⟨read, h⟩
  | succ count ih =>
    obtain ⟨read', h'⟩ := ih
    rw [after_succ]
    exact h'.next

/-- Once only layout is left, no more than that is left after further attempts. -/
theorem StandsBehind.layout_after (h : cursor.StandsBehind source read)
    (hlayout : Layout cursor.rest []) (count : Nat) : Layout (cursor.after count).rest [] := by
  induction count with
  | zero => exact hlayout
  | succ count ih =>
    obtain ⟨read', h'⟩ := h.after count
    rw [after_succ, h'.scan_eq_atEnd ih]
    exact .nil

/-- Each attempt takes at least one of the characters, until only layout is left. -/
theorem StandsBehind.length_after (h : cursor.StandsBehind source read) (count : Nat) :
    Layout (cursor.after count).rest [] ∨
      (cursor.after count).rest.length + count ≤ cursor.rest.length := by
  induction count with
  | zero => exact .inr (Nat.le_refl _)
  | succ count ih =>
    obtain ⟨read', h'⟩ := h.after count
    rw [after_succ]
    rcases h'.scan_cases with ⟨-, hend⟩ | ⟨hmore, -, passed, hne, hpassed, -⟩
    · rw [hend]
      exact .inl .nil
    · have hle := ih.resolve_left hmore
      have hpos := List.length_pos_iff.2 hne
      have hlength := congrArg List.length hpassed
      rw [List.length_append] at hlength
      exact .inr (by omega)

/-- As many attempts as there are characters leave only layout. -/
theorem StandsBehind.layout_of_length_le (h : cursor.StandsBehind source read) {count : Nat}
    (hcount : cursor.rest.length ≤ count) : Layout (cursor.after count).rest [] := by
  rcases h.length_after count with hlayout | hlength
  · exact hlayout
  · have hnil : (cursor.after count).rest = [] := List.length_eq_zero_iff.1 (by omega)
    rw [hnil]
    exact .nil

/-- Where the reading of a text has come after `n` attempts. -/
def reached (source : String) (n : Nat) : Cursor :=
  (ofText source).after n

end Cursor

open Cursor (reached)

/-- On every text, and after any number `n` of attempts, of which some may have failed, the cursor
stands behind some of the characters and at their position.  The next attempt passes at least one
more character, or it finds the end of the text.  It finds the end exactly if only layout is left,
and so do then all later attempts, with the same token.  As many attempts as there are characters,
and one more, find the end. -/
theorem scanning_progress (source : String) (n : Nat) :
    Cursor.scanTimes n (.ofText source) =
      (List.range n).map (fun k => (reached source k).scan.outcome) ∧
    (∃ read, source.toList = read ++ (reached source n).rest ∧
      (reached source n).position = .behind read) ∧
    ((∃ passed, passed ≠ [] ∧
        (reached source n).rest = passed ++ (reached source (n + 1)).rest) ∨
      (reached source n).scan.outcome = .ok (.endAt (.behind source.toList)) ∧
        (reached source (n + 1)).rest = []) ∧
    ((∃ t, (reached source n).scan.outcome = .ok t ∧ t.kind = .endOfInput) ↔
      Layout (reached source n).rest []) ∧
    (Layout (reached source n).rest [] → ∀ later, n ≤ later →
      (reached source later).scan.outcome = .ok (.endAt (.behind source.toList))) ∧
    .ok (.endAt (.behind source.toList)) ∈
      Cursor.scanTimes (source.length + 1) (.ofText source) := by
  have hstart := Cursor.standsBehind_ofText source
  obtain ⟨read, hread⟩ := hstart.after n
  have heof : ∀ k, Layout (reached source k).rest [] →
      (reached source k).scan.outcome = .ok (.endAt (.behind source.toList)) := by
    intro k hlayout
    obtain ⟨read', h'⟩ := hstart.after k
    exact congrArg Scan.outcome (h'.scan_eq_atEnd hlayout)
  refine ⟨Cursor.scanTimes_eq n _, ⟨read, hread.text, hread.position⟩, ?_, ?_, ?_, ?_⟩
  · have hnext : reached source (n + 1) = (reached source n).scan.next := Cursor.after_succ n _
    rw [hnext]
    rcases hread.scan_cases with ⟨-, hend⟩ | ⟨-, -, passed, hne, hpassed, -⟩
    · exact .inr ⟨congrArg Scan.outcome hend, congrArg (fun s => s.next.rest) hend⟩
    · exact .inl ⟨passed, hne, hpassed⟩
  · constructor
    · rintro ⟨t, ht, hkind⟩
      rcases hread.scan_cases with ⟨hlayout, -⟩ | ⟨-, hother, -⟩
      · exact hlayout
      · exact absurd hkind (hother t ht)
    · exact fun hlayout => ⟨_, heof n hlayout, rfl⟩
  · intro hlayout later hle
    obtain ⟨more, rfl⟩ := Nat.exists_eq_add_of_le hle
    have hadd : reached source (n + more) = (reached source n).after more := by
      rw [Nat.add_comm]
      exact Function.iterate_add_apply _ more n _
    exact heof _ (hadd ▸ hread.layout_after hlayout more)
  · rw [Cursor.scanTimes_eq]
    have hlength : (Cursor.ofText source).rest.length ≤ source.length :=
      (String.length_toList).le
    have hend := heof source.length (hstart.layout_of_length_le hlength)
    exact List.mem_map.2 ⟨source.length, List.mem_range.2 (Nat.lt_succ_self _), hend⟩

end SnapshotScript
