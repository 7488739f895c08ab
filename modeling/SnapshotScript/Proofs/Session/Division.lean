import Mathlib.Data.List.Basic
import SnapshotScript.Proofs.Results
import SnapshotScript.Proofs.Session.Continuation

/-!
# How a session divides its lines

The lines of a session are evaluated in groups.  A group goes on until as many parentheses have been
closed as have been opened, so it is the shortest run of lines of which this is true (`IsGroup`).
The word `exit` ends the session between two groups and is an ordinary line within one.

`Division` is the division of all lines into groups, those that wait for their continuation when the
input ends, and those that are not read any more.  Every sequence of lines has exactly one, and what
a session writes and evaluates is told by it (`session_evaluates_groups`).
-/

namespace SnapshotScript

namespace Session

/-! ### Runs of lines -/

/-- The parentheses that lines open, less those that they close. -/
def linesBalance (lines : List String) : Int :=
  (lines.map fun line => parenBalance 0 false line.toList).sum

/-- Lines that are to be evaluated together. -/
def joinLines (lines : List String) : String :=
  "\n".intercalate lines

/-- The line says that the session ends, if it stands between groups. -/
def SaysExit (line : String) : Prop :=
  trimBlank line.toList = "exit".toList

/-- The first of the lines, if there is one, does not say that the session ends. -/
def GoesOn (lines : List String) : Prop :=
  ∀ line ∈ lines.head?, ¬ SaysExit line

/-- Each of the lines leaves a parenthesis open. -/
def IsOpen (lines : List String) : Prop :=
  ∀ run, run <+: lines → run ≠ [] → 0 < linesBalance run

/-- The lines are the shortest nonempty run that leaves no parenthesis open. -/
structure IsGroup (group : List String) : Prop where
  ne_nil : group ≠ []
  isClosed : linesBalance group ≤ 0
  shortest : ∀ run, run <+: group → run ≠ [] → linesBalance run ≤ 0 → run = group

/-- The lines of a session, divided into groups. -/
@[ext]
structure Division where
  /-- The groups that are evaluated. -/
  groups : List (List String)
  /-- The lines of a group that has not ended yet. -/
  waiting : List String
  /-- The lines that are not read any more. -/
  unread : List String
  isGroup : ∀ group ∈ groups, IsGroup group ∧ GoesOn group
  isWaiting : IsOpen waiting ∧ GoesOn waiting
  /-- All lines are read, unless one that is not within a group says that the session ends. -/
  isUnread : unread = [] ∨ waiting = [] ∧ ∃ line ∈ unread.head?, SaysExit line

/-- All lines in their order. -/
def Division.lines (d : Division) : List String :=
  d.groups.flatten ++ d.waiting ++ d.unread

/-! ### What is written -/

/-- What a session writes for groups of lines: for each group, a prompt at each of its lines but
the last one asks for the next line, and after its evaluation a prompt asks for the next group. -/
def writtenFor (i : Interpreter) : List (List String) → List Output
  | [] => []
  | group :: groups =>
    let (written, i) := evaluateText i (joinLines group)
    List.replicate (group.length - 1) (.shown continuationPrompt) ++
      (written ++ .shown prompt :: writtenFor i groups)

/-- What groups of lines come to, each of which is evaluated in the state that those before it have
left. -/
def outcomes (i : Interpreter) : List (List String) → List (Except Failure Value)
  | [] => []
  | group :: groups =>
    (i.evaluateSource (joinLines group)).1 :: outcomes (evaluateText i (joinLines group)).2 groups

/-- The steps that are allowed suffice for each group.  Where they do not, the program goes on and
the session never reads another line. -/
def Division.Ends (d : Division) (i : Interpreter) : Prop :=
  .error .exhausted ∉ outcomes i d.groups

/-- What a session writes for its lines behind the first prompt. -/
def Division.written (d : Division) (i : Interpreter) : List Output :=
  writtenFor i d.groups ++ List.replicate d.waiting.length (.shown continuationPrompt)

/-- What a session writes for lines, together with the texts that it evaluates. -/
def account (s : Session) : List String → List Output × List String
  | [] => ([], [])
  | line :: lines =>
    if s.pending.isExit line then ([], [])
    else
      let pending := s.pending.add line
      if pending.isOpen then
        let (more, texts) := account { s with pending } lines
        (.shown continuationPrompt :: more, texts)
      else
        let (written, i) := evaluateText s.interpreter pending.text
        let (more, texts) := account ⟨i, .empty⟩ lines
        (written ++ .shown prompt :: more, pending.text :: texts)

variable {s : Session} {i : Interpreter} {line : String} {lines run rest : List String}

/-- A line that ends the session ends its account. -/
theorem account_of_isExit (hexit : s.pending.isExit line = true) :
    account s (line :: lines) = ([], []) := by
  rw [account, if_pos hexit]

/-- A line that leaves a parenthesis open is answered by a prompt. -/
theorem account_of_isOpen (hexit : s.pending.isExit line = false)
    (hopen : (s.pending.add line).isOpen = true) :
    account s (line :: lines) =
      (.shown continuationPrompt :: (account ⟨s.interpreter, s.pending.add line⟩ lines).1,
        (account ⟨s.interpreter, s.pending.add line⟩ lines).2) := by
  rw [account, hexit, if_neg Bool.false_ne_true]
  dsimp only
  rw [if_pos hopen]

/-- A line that leaves no parenthesis open lets the session evaluate all lines that wait. -/
theorem account_of_isClosed (hexit : s.pending.isExit line = false)
    (hopen : (s.pending.add line).isOpen = false) :
    account s (line :: lines) =
      let (written, i) := evaluateText s.interpreter (s.pending.add line).text
      (written ++ .shown prompt :: (account ⟨i, .empty⟩ lines).1,
        (s.pending.add line).text :: (account ⟨i, .empty⟩ lines).2) := by
  rw [account, hexit, if_neg Bool.false_ne_true]
  dsimp only
  rw [hopen, if_neg Bool.false_ne_true]

/-- The account tells what the session writes. -/
theorem feedAll_eq_account (written : List (List Output)) (s : Session) (lines : List String) :
    feedAll written s (lines.map some) =
      (written.reverse.flatten ++ (account s lines).1, none) := by
  induction lines generalizing written s with
  | nil => simp [feedAll, account]
  | cons line lines ih =>
    rw [List.map_cons, feedAll, feed]
    cases hexit : s.pending.isExit line with
    | true => simp [account_of_isExit hexit]
    | false =>
      cases hopen : (s.pending.add line).isOpen with
      | true => simp [account_of_isOpen hexit hopen, hopen, ih]
      | false => simp [account_of_isClosed hexit hopen, hopen, ih]

/-! ### Lines that wait -/

/-- The lines wait for their continuation. -/
def pendingOf (lines : List String) : Pending :=
  ⟨joinLines lines, linesBalance lines⟩

theorem linesBalance_concat (lines : List String) (line : String) :
    linesBalance (lines ++ [line]) = linesBalance lines + parenBalance 0 false line.toList := by
  simp [linesBalance]

theorem joinLines_concat (hne : lines ≠ []) (line : String) :
    joinLines (lines ++ [line]) = joinLines lines ++ "\n" ++ line := by
  unfold joinLines
  induction lines with
  | nil => exact absurd rfl hne
  | cons first lines ih =>
    cases lines with
    | nil => simp [String.intercalate_cons_cons]
    | cons second lines =>
      have hrest := ih (List.cons_ne_nil _ _)
      simp only [List.cons_append, String.intercalate_cons_cons] at hrest ⊢
      rw [hrest]
      simp only [String.append_assoc]

/-- The first line of some lines is the first one of all lines. -/
theorem GoesOn.left (h : GoesOn (lines ++ rest)) : GoesOn lines := by
  intro line hline
  cases lines with
  | nil => cases hline
  | cons first lines => exact h line hline

/-- No lines leave nothing open. -/
theorem isOpen_nil : IsOpen [] :=
  fun _ hrun hne => absurd (List.prefix_nil.1 hrun) hne

/-- Lines are open if those before the last one are and all of them together leave a parenthesis
open. -/
theorem isOpen_concat_iff :
    IsOpen (lines ++ [line]) ↔ IsOpen lines ∧ 0 < linesBalance (lines ++ [line]) := by
  constructor
  · intro h
    refine ⟨fun run hrun => h run (hrun.trans (List.prefix_append _ _)), ?_⟩
    exact h _ List.prefix_rfl (by simp)
  · rintro ⟨hopen, hbalance⟩ run hrun hne
    rcases List.prefix_concat_iff.1 hrun with rfl | hrun
    · exact hbalance
    · exact hopen run hrun hne

/-- Lines that leave a parenthesis open are no empty text. -/
theorem joinLines_eq_empty_iff (h : IsOpen lines) : joinLines lines = "" ↔ lines = [] := by
  refine ⟨fun hempty => ?_, fun hnil => hnil ▸ rfl⟩
  cases lines with
  | nil => rfl
  | cons first rest =>
    -- the first line holds a parenthesis, or it would be a group by itself
    have hfirst : first ≠ "" := by
      rintro rfl
      exact absurd (h [""] ⟨rest, rfl⟩ (List.cons_ne_nil _ _)) (by decide)
    cases rest with
    | nil => exact absurd (String.intercalate_singleton.symm.trans hempty) hfirst
    | cons second rest =>
      rw [joinLines, String.intercalate_cons_cons] at hempty
      simp_all

/-- A line is added to the lines that wait. -/
theorem add_pendingOf (h : IsOpen lines) (line : String) :
    (pendingOf lines).add line = pendingOf (lines ++ [line]) := by
  have hbalance : ((pendingOf lines).add line).balance = linesBalance (lines ++ [line]) :=
    ((pendingOf lines).balance_add line).trans (linesBalance_concat lines line).symm
  have htext : ((pendingOf lines).add line).text = joinLines (lines ++ [line]) := by
    by_cases hnil : lines = []
    · subst hnil
      rfl
    · have hne : joinLines lines ≠ "" := mt (joinLines_eq_empty_iff h).1 hnil
      rw [joinLines_concat hnil]
      simp [Pending.add, pendingOf, hne]
  exact Pending.mk.injEq .. ▸ ⟨htext, hbalance⟩

/-- A line ends the session if it says so and no line waits. -/
theorem isExit_pendingOf (h : IsOpen lines) :
    (pendingOf lines).isExit line = true ↔ lines = [] ∧ SaysExit line := by
  rw [← joinLines_eq_empty_iff h]
  simp [Pending.isExit, pendingOf, SaysExit]

/-- A line does not end the session if all lines up to this one go on. -/
theorem isExit_pendingOf_of_goesOn (h : IsOpen lines) (hgoes : GoesOn (lines ++ [line])) :
    (pendingOf lines).isExit line = false := by
  rw [← Bool.not_eq_true, isExit_pendingOf h]
  rintro ⟨rfl, hsays⟩
  exact hgoes line rfl hsays

/-- Lines that leave a parenthesis open are answered by prompts. -/
theorem account_append_of_isOpen (h : IsOpen (lines ++ run))
    (hgoes : GoesOn (lines ++ run)) :
    account ⟨i, pendingOf lines⟩ (run ++ rest) =
      (List.replicate run.length (.shown continuationPrompt) ++
        (account ⟨i, pendingOf (lines ++ run)⟩ rest).1,
        (account ⟨i, pendingOf (lines ++ run)⟩ rest).2) := by
  induction run generalizing lines with
  | nil => simp
  | cons line run ih =>
    have hsplit : lines ++ line :: run = lines ++ [line] ++ run := by simp
    rw [hsplit] at h hgoes ⊢
    have hline : IsOpen (lines ++ [line]) := fun run' hrun' =>
      h run' (hrun'.trans (List.prefix_append _ _))
    obtain ⟨hlines, hbalance⟩ := isOpen_concat_iff.1 hline
    have hexit := isExit_pendingOf_of_goesOn hlines hgoes.left
    have hadd := add_pendingOf hlines line
    have hopen : ((pendingOf lines).add line).isOpen = true := by
      rw [hadd]
      exact decide_eq_true hbalance
    have hstep := @account_of_isOpen ⟨i, pendingOf lines⟩ line (run ++ rest) hexit hopen
    rw [List.cons_append, hstep, hadd, ih h hgoes]
    rfl

/-! ### Groups -/

/-- Lines are a group if those before the last one leave a parenthesis open, and all of them
together do not. -/
theorem isGroup_concat_iff :
    IsGroup (lines ++ [line]) ↔ IsOpen lines ∧ linesBalance (lines ++ [line]) ≤ 0 := by
  constructor
  · intro h
    refine ⟨fun run hrun hne => ?_, h.isClosed⟩
    by_contra hclosed
    have hall := h.shortest run (hrun.trans (List.prefix_append _ _)) hne (Int.not_lt.1 hclosed)
    have hle := hrun.length_le
    rw [hall, List.length_append, List.length_singleton] at hle
    omega
  · rintro ⟨hopen, hbalance⟩
    refine ⟨by simp, hbalance, fun run hrun hne hclosed => ?_⟩
    rcases List.prefix_concat_iff.1 hrun with heq | hshorter
    · exact heq
    · exact absurd (hopen run hshorter hne) (Int.not_lt.2 hclosed)

/-- A group is evaluated behind its last line. -/
theorem account_append_of_isGroup {group : List String} (h : IsGroup group)
    (hgoes : GoesOn group) :
    account ⟨i, .empty⟩ (group ++ rest) =
      let (written, i) := evaluateText i (joinLines group)
      (List.replicate (group.length - 1) (.shown continuationPrompt) ++
        (written ++ .shown prompt :: (account ⟨i, .empty⟩ rest).1),
        joinLines group :: (account ⟨i, .empty⟩ rest).2) := by
  obtain ⟨lines, line, rfl⟩ := List.eq_nil_or_concat' group |>.resolve_left h.ne_nil
  obtain ⟨hopen, -⟩ := isGroup_concat_iff.1 h
  have hwait := @account_append_of_isOpen i [] lines (line :: rest) hopen hgoes.left
  have hexit := isExit_pendingOf_of_goesOn hopen hgoes
  have hadd := add_pendingOf hopen line
  have hclosed : ((pendingOf lines).add line).isOpen = false := by
    rw [hadd]
    exact decide_eq_false (Int.not_lt.2 h.isClosed)
  have hstep := @account_of_isClosed ⟨i, pendingOf lines⟩ line rest hexit hclosed
  rw [List.append_assoc, List.singleton_append]
  refine hwait.trans ?_
  rw [List.nil_append, hstep, hadd, List.length_append, List.length_singleton, Nat.add_sub_cancel]
  rfl

/-! ### Divisions -/

/-- A division tells the whole account of a session. -/
theorem Division.account_eq (d : Division) (i : Interpreter) :
    account ⟨i, .empty⟩ d.lines = (d.written i, d.groups.map joinLines) := by
  obtain ⟨groups, waiting, unread, hgroups, ⟨hopen, hgoes⟩, hunread⟩ := d
  unfold Division.written Division.lines
  dsimp only
  induction groups generalizing i with
  | nil =>
    have hwait := @account_append_of_isOpen i [] waiting unread hopen hgoes
    rcases hunread with rfl | ⟨rfl, line, hline, hsays⟩
    · refine hwait.trans ?_
      simp [account, writtenFor]
    · obtain ⟨more, rfl⟩ := List.head?_eq_some_iff.1 hline
      have hends : (pendingOf []).isExit line = true := (isExit_pendingOf isOpen_nil).2 ⟨rfl, hsays⟩
      exact account_of_isExit hends
  | cons group groups ih =>
    obtain ⟨⟨hgroup, hstarts⟩, hgroups⟩ := List.forall_mem_cons.1 hgroups
    have hrest := ih (evaluateText i (joinLines group)).2 hgroups
    rw [List.append_assoc] at hrest
    rw [List.flatten_cons, List.append_assoc, List.append_assoc,
      account_append_of_isGroup hgroup hstarts, writtenFor]
    dsimp only
    rw [hrest]
    simp

/-- Lines behind open ones can be divided. -/
theorem exists_division_append (hopen : IsOpen run) (hgoes : GoesOn run) (lines : List String) :
    ∃ d : Division, d.lines = run ++ lines := by
  induction lines generalizing run with
  | nil => exact ⟨⟨[], run, [], nofun, ⟨hopen, hgoes⟩, .inl rfl⟩, rfl⟩
  | cons line lines ih =>
    by_cases hexit : run = [] ∧ SaysExit line
    · obtain ⟨rfl, hsays⟩ := hexit
      exact ⟨⟨[], [], line :: lines, nofun, ⟨hopen, hgoes⟩, .inr ⟨rfl, line, rfl, hsays⟩⟩, rfl⟩
    · have hsplit : run ++ line :: lines = run ++ [line] ++ lines := by simp
      have hgoes' : GoesOn (run ++ [line]) := by
        cases run with
        | nil =>
          rintro _ ⟨rfl⟩ hsays
          exact hexit ⟨rfl, hsays⟩
        | cons first run => exact hgoes
      rw [hsplit]
      by_cases hbalance : 0 < linesBalance (run ++ [line])
      · exact ih (isOpen_concat_iff.2 ⟨hopen, hbalance⟩) hgoes'
      · -- the lines are a group, and a new one begins behind them
        have hgroup : IsGroup (run ++ [line]) :=
          isGroup_concat_iff.2 ⟨hopen, Int.not_lt.1 hbalance⟩
        obtain ⟨d, rfl⟩ := ih isOpen_nil nofun
        refine ⟨⟨(run ++ [line]) :: d.groups, d.waiting, d.unread,
          List.forall_mem_cons.2 ⟨⟨hgroup, hgoes'⟩, d.isGroup⟩, d.isWaiting, d.isUnread⟩, ?_⟩
        simp [Division.lines]

/-- Lines begin with one group at most. -/
theorem IsGroup.eq_of_prefix {group group' : List String} (h : IsGroup group)
    (h' : IsGroup group') (hlines : group <+: lines) (hlines' : group' <+: lines) :
    group = group' := by
  rcases List.prefix_or_prefix_of_prefix hlines hlines' with hbegin | hbegin
  · exact h'.shortest group hbegin h.ne_nil h.isClosed
  · exact (h.shortest group' hbegin h'.ne_nil h'.isClosed).symm

/-- Where there are no groups, either all lines wait or none is read. -/
theorem Division.cases_of_groups_eq_nil {d : Division} (h : d.groups = []) :
    (d.waiting = d.lines ∧ d.unread = [] ∧ IsOpen d.lines ∧ GoesOn d.lines) ∨
      (d.waiting = [] ∧ d.unread = d.lines ∧ ¬ GoesOn d.lines) := by
  have hlines : d.lines = d.waiting ++ d.unread := by
    rw [Division.lines, h, List.flatten_nil, List.nil_append]
  rcases d.isUnread with hunread | ⟨hwaiting, line, hline, hsays⟩
  · rw [hunread, List.append_nil] at hlines
    rw [hlines]
    exact .inl ⟨rfl, hunread, d.isWaiting⟩
  · rw [hwaiting, List.nil_append] at hlines
    rw [hlines]
    exact .inr ⟨hwaiting, rfl, fun hgoes => hgoes line hline hsays⟩

/-- Lines that begin with a group are divided into groups. -/
theorem Division.groups_ne_nil {d : Division} {group : List String} (h : IsGroup group)
    (hgoes : GoesOn group) (hlines : group <+: d.lines) : d.groups ≠ [] := by
  intro hnil
  rcases d.cases_of_groups_eq_nil hnil with ⟨-, -, hopen, -⟩ | ⟨-, -, hexit⟩
  · exact absurd (hopen group hlines h.ne_nil) (Int.not_lt.2 h.isClosed)
  · obtain ⟨first, rest, rfl⟩ := List.exists_cons_of_ne_nil h.ne_nil
    obtain ⟨more, hmore⟩ := hlines
    exact hexit (hmore ▸ hgoes)

/-- The lines behind the first group are divided, too. -/
theorem Division.exists_tail {d : Division} {group : List String} {groups : List (List String)}
    (h : d.groups = group :: groups) :
    ∃ more : Division, more.groups = groups ∧ more.waiting = d.waiting ∧
      more.unread = d.unread ∧ d.lines = group ++ more.lines := by
  have hgroups : ∀ g ∈ groups, IsGroup g ∧ GoesOn g := fun g hg =>
    d.isGroup g (h ▸ List.mem_cons_of_mem _ hg)
  refine ⟨⟨groups, d.waiting, d.unread, hgroups, d.isWaiting, d.isUnread⟩, rfl, rfl, rfl, ?_⟩
  simp [Division.lines, h]

/-- Lines are divided in one way only. -/
theorem Division.eq_of_lines {d d' : Division} (h : d.lines = d'.lines) : d = d' := by
  generalize hgroups : d.groups = groups
  induction groups generalizing d d' with
  | nil =>
    have hgroups' : d'.groups = [] := by
      by_contra hne
      obtain ⟨group, groups, hcons⟩ := List.exists_cons_of_ne_nil hne
      obtain ⟨hgroup, hstarts⟩ := d'.isGroup group (hcons ▸ List.mem_cons_self)
      obtain ⟨more, -, -, -, hlines⟩ := exists_tail hcons
      exact groups_ne_nil hgroup hstarts ⟨more.lines, hlines.symm.trans h.symm⟩ hgroups
    rcases cases_of_groups_eq_nil hgroups with ⟨hwait, hread, -, hgoes⟩ | ⟨hwait, hread, hexit⟩ <;>
      rcases cases_of_groups_eq_nil hgroups' with
        ⟨hwait', hread', -, hgoes'⟩ | ⟨hwait', hread', hexit'⟩
    · exact Division.ext (hgroups.trans hgroups'.symm) (by rw [hwait, hwait', h])
        (hread.trans hread'.symm)
    · exact absurd (h ▸ hgoes) hexit'
    · exact absurd (h ▸ hgoes') hexit
    · exact Division.ext (hgroups.trans hgroups'.symm) (hwait.trans hwait'.symm)
        (by rw [hread, hread', h])
  | cons group groups ih =>
    obtain ⟨hgroup, hstarts⟩ := d.isGroup group (hgroups ▸ List.mem_cons_self)
    obtain ⟨more, hmore, hwait, hread, hlines⟩ := exists_tail hgroups
    have hbegin : group <+: d'.lines := ⟨more.lines, hlines.symm.trans h⟩
    obtain ⟨group', groups', hgroups'⟩ :=
      List.exists_cons_of_ne_nil (groups_ne_nil hgroup hstarts hbegin)
    obtain ⟨hgroup', -⟩ := d'.isGroup group' (hgroups' ▸ List.mem_cons_self)
    obtain ⟨more', hmore', hwait', hread', hlines'⟩ := exists_tail hgroups'
    obtain rfl := hgroup.eq_of_prefix hgroup' hbegin ⟨more'.lines, hlines'.symm⟩
    rw [hlines, hlines'] at h
    obtain rfl := ih (List.append_cancel_left h) hmore
    exact Division.ext (by rw [hgroups, hgroups', ← hmore, hmore']) (hwait.symm.trans hwait')
      (hread.symm.trans hread')

/-! ### What groups come to -/

/-- A text whose evaluation ends comes to a value, or to an error that has a position. -/
theorem value_or_position_of_evaluateSource {source : String}
    (h : (i.evaluateSource source).1 ≠ .error .exhausted) :
    (∃ v, (i.evaluateSource source).1 = .ok v) ∨
      ∃ e p, (i.evaluateSource source).1 = .error e ∧ e.position? = some p := by
  unfold Interpreter.evaluateSource at h ⊢
  split at h
  · next e _ => exact .inr ⟨.lexical e, e.position, rfl, rfl⟩
  · dsimp only at h ⊢
    split at h
    · next e _ => exact .inr ⟨.syntactic e, e.position, rfl, rfl⟩
    · unfold Interpreter.run at h ⊢
      dsimp only at h ⊢
      split at h
      · exact .inl ⟨_, rfl⟩
      · exact .inl ⟨_, rfl⟩
      · next e _ _ => exact .inr ⟨.runtime e, e.position, rfl, rfl⟩
      · exact absurd rfl h

/-- Groups whose evaluation ends come to values, or to errors that have positions. -/
theorem value_or_position_of_mem_outcomes {groups : List (List String)}
    (h : .error .exhausted ∉ outcomes i groups) {r : Except Failure Value}
    (hr : r ∈ outcomes i groups) :
    (∃ v, r = .ok v) ∨ ∃ e p, r = .error e ∧ e.position? = some p := by
  induction groups generalizing i with
  | nil => cases hr
  | cons group groups ih =>
    obtain ⟨hfirst, hrest⟩ := not_or.1 (mt List.mem_cons.2 h)
    rcases List.mem_cons.1 hr with rfl | hr
    · exact value_or_position_of_evaluateSource (Ne.symm hfirst)
    · exact ih hrest hr

end Session

open Session in
/-- A session evaluates its lines in groups, each of which is the shortest nonempty run of lines
that leaves no parenthesis open.  Every sequence of lines is divided in one way into such groups,
those that wait for their continuation, and those behind a line that ends the session.  If the
evaluation of each group ends, then it comes to a value or to an error that has a position, and the
texts that are evaluated are the groups in their order.  There is a prompt at the beginning and
behind each evaluation, whatever it comes to, and a prompt at each line that leaves its group
open. -/
theorem session_evaluates_groups (depth : Nat) (lines : List String) :
    ∃ d : Division, d.lines = lines ∧ (∀ d' : Division, d'.lines = lines → d' = d) ∧
      (d.Ends (.new depth) →
        run depth (lines.map some) = (.shown prompt :: (account (.new depth) lines).1, none) ∧
        account (.new depth) lines = (d.written (.new depth), d.groups.map joinLines) ∧
        ∀ r ∈ outcomes (.new depth) d.groups,
          (∃ v, r = .ok v) ∨ ∃ e p, r = .error e ∧ e.position? = some p) := by
  obtain ⟨d, hlines⟩ := exists_division_append isOpen_nil nofun lines
  rw [List.nil_append] at hlines
  refine ⟨d, hlines, fun d' hlines' => Division.eq_of_lines (hlines'.trans hlines.symm),
    fun hends => ⟨?_, ?_, fun r hr => value_or_position_of_mem_outcomes hends hr⟩⟩
  · exact feedAll_eq_account [[.shown prompt]] (.new depth) lines
  · rw [← hlines]
    exact d.account_eq (.new depth)

open Session in
/-- A session evaluates two lines together and a line that fails.  Then it ends, and a line is left
that it does not read. -/
theorem session_evaluates_groups_before_exit :
    ∃ d : Division, d.lines = ["(1", "+ 2)", "null + 1", "exit", "3"] ∧ d.Ends (.new 1000) ∧
      d.unread = ["exit", "3"] ∧
      account (.new 1000) ["(1", "+ 2)", "null + 1", "exit", "3"] =
        (d.written (.new 1000), ["(1\n+ 2)", "null + 1"]) := by
  have hopen : IsOpen ["(1"] := isOpen_concat_iff.2 ⟨isOpen_nil, by decide⟩
  have hsum : IsGroup ["(1", "+ 2)"] := isGroup_concat_iff.2 ⟨hopen, by decide⟩
  have hfault : IsGroup ["null + 1"] := isGroup_concat_iff.2 ⟨isOpen_nil, by decide⟩
  have hgoes : ∀ line rest, trimBlank line.toList ≠ "exit".toList → GoesOn (line :: rest) := by
    rintro line rest hline _ ⟨rfl⟩
    exact hline
  let expected : Division :=
    { groups := [["(1", "+ 2)"], ["null + 1"]]
      waiting := []
      unread := ["exit", "3"]
      isGroup := List.forall_mem_cons.2 ⟨⟨hsum, hgoes _ _ (by decide)⟩,
        List.forall_mem_singleton.2 ⟨hfault, hgoes _ _ (by decide)⟩⟩
      isWaiting := ⟨isOpen_nil, nofun⟩
      isUnread := .inr ⟨rfl, "exit", rfl, rfl⟩ }
  have hends : expected.Ends (.new 1000) := by
    have herrors : (outcomes (.new 1000) [["(1", "+ 2)"], ["null + 1"]]).map errorOf? =
        [none, some (.runtime ⟨.binaryOperands .add "null" "int", ⟨1, 6⟩, []⟩)] := by
      decide +kernel
    intro hmem
    have herror := List.mem_map_of_mem (f := errorOf?) hmem
    rw [herrors] at herror
    exact absurd herror (by decide)
  obtain ⟨d, hlines, hunique, hcourse⟩ :=
    session_evaluates_groups 1000 ["(1", "+ 2)", "null + 1", "exit", "3"]
  obtain rfl := hunique expected rfl
  obtain ⟨-, haccount, -⟩ := hcourse hends
  exact ⟨expected, hlines, hends, rfl, haccount⟩

end SnapshotScript
