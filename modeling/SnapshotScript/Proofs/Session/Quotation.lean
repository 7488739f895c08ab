import SnapshotScript.Proofs.Failure.Origin
import SnapshotScript.Proofs.Failure.Places
import SnapshotScript.Proofs.Session.Course

/-!
# The lines that reports quote

The expression at which a session fails has been read by the session: it stands in the text that is
being evaluated or in one that was evaluated before, from which a function is left.  The position of
the fault names a line of that text.  A report always quotes the text that is being evaluated,
though, and so it shows the right line if the expression stands there.

A function of an earlier text is quoted wrongly: the line with the same number of another text is
shown, and the mark below it may stand behind its end (`quotation_of_earlier_text`).
-/

namespace SnapshotScript

namespace Session

/-- A session that is fed the lines evaluates the text at some line, up to the last one. -/
def Evaluates (depth : Nat) (lines : List String) (text : String) : Prop :=
  ∃ read line s, read ++ [line] <+: lines ∧ after? depth read = some s ∧
    s.pending.isExit line = false ∧ (s.pending.add line).isOpen = false ∧
    text = (s.pending.add line).text

/-- The expression stands in a text that a session evaluates when it is fed the lines. -/
def HasRead (depth : Nat) (lines : List String) (n : Expr) : Prop :=
  ∃ text, Evaluates depth lines text ∧ n.IsFrom text

variable {depth : Nat} {lines read : List String} {line : String} {s : Session} {n : Expr}

/-- With one line more, a text is evaluated that has been before, or the one that this line ends. -/
theorem evaluates_concat {text : String} :
    Evaluates depth (read ++ [line]) text ↔ Evaluates depth read text ∨
      ∃ s, after? depth read = some s ∧ s.pending.isExit line = false ∧
        (s.pending.add line).isOpen = false ∧ text = (s.pending.add line).text := by
  constructor
  · rintro ⟨before, last, s, hbegin, hs⟩
    rcases List.prefix_concat_iff.1 hbegin with heq | hearlier
    · obtain ⟨rfl, hlast⟩ := List.append_inj' heq rfl
      cases hlast
      exact .inr ⟨s, hs⟩
    · exact .inl ⟨before, last, s, hearlier, hs⟩
  · rintro (⟨before, last, s, hbegin, hs⟩ | ⟨s, hs⟩)
    · exact ⟨before, last, s, hbegin.trans (List.prefix_append _ _), hs⟩
    · exact ⟨read, line, s, List.prefix_rfl, hs⟩

/-- The first line alone is the first text, if it is one. -/
theorem evaluates_singleton {text : String} (h : Evaluates depth [line] text) :
    text = (Pending.empty.add line).text := by
  have hconcat : Evaluates depth ([] ++ [line]) text := h
  rcases evaluates_concat.1 hconcat with ⟨before, last, s, hbegin, -⟩ | ⟨s, hs, -, -, htext⟩
  · simp at hbegin
  · cases hs
    exact htext

/-- What has been read stays read. -/
theorem HasRead.mono (h : HasRead depth read n) (hlines : read <+: lines) :
    HasRead depth lines n := by
  obtain ⟨text, ⟨before, line, s, hbegin, hs⟩, hn⟩ := h
  exact ⟨text, ⟨before, line, s, hbegin.trans hlines, hs⟩, hn⟩

/-- With an expression, those inside of it are read. -/
theorem HasRead.child {c : Expr} (h : HasRead depth lines n) (hc : c ∈ n.children) :
    HasRead depth lines c := by
  obtain ⟨text, htext, program, hprogram, hn⟩ := h
  exact ⟨text, htext, program, hprogram, hn.child hc⟩

/-- A text that is evaluated leaves functions that the session has read, and fails at an expression
that it has read. -/
theorem evaluate_runs (hs : after? depth read = some s)
    (hruns : s.interpreter.machine.Runs (HasRead depth read))
    (hexit : s.pending.isExit line = false) (hclosed : (s.pending.add line).isOpen = false) :
    let text := (s.pending.add line).text
    (s.interpreter.evaluateSource text).2.machine.Runs (HasRead depth (read ++ [line])) ∧
      ∀ e, (s.interpreter.evaluateSource text).1 = .error (.runtime e) →
        ∃ n, s.interpreter.culprit? text = some n ∧ HasRead depth (read ++ [line]) n ∧
          e.position ∈ n.faultPositions := by
  have hbefore : s.interpreter.machine.Runs (HasRead depth (read ++ [line])) :=
    hruns.mono fun e he => he.mono (List.prefix_append _ _)
  refine Interpreter.evaluateSource_runs (fun e c => HasRead.child) hbefore fun program hparse => ?_
  have hevaluates : Evaluates depth (read ++ [line]) (s.pending.add line).text :=
    evaluates_concat.2 (.inr ⟨s, hs, hexit, hclosed, rfl⟩)
  exact ⟨_, hevaluates, program, hparse, .refl⟩

/-- All functions of a session are ones that it has read. -/
theorem runs_of_after? (h : after? depth lines = some s) :
    s.interpreter.machine.Runs (HasRead depth lines) := by
  refine after?_induction
    (P := fun lines s => s.interpreter.machine.Runs (HasRead depth lines))
    Machine.initial_runs ?_ h
  intro lines s line written s' hs hruns hfeed
  unfold feed at hfeed
  split at hfeed
  · cases hfeed
  · next hexit =>
    dsimp only at hfeed
    split at hfeed
    · cases hfeed
      exact hruns.mono fun e he => he.mono (List.prefix_append _ _)
    · next hopen =>
      cases hfeed
      obtain ⟨hafter, -⟩ := evaluate_runs hs hruns (by simpa using hexit) (by simpa using hopen)
      exact hafter.of_eq rfl rfl

end Session

/-- The report of a fault whose position names a line of the text quotes that line, with a mark
below the column. -/
theorem report_eq {e : RuntimeError} {text : String} {quoted : List Char} (source : String)
    (h : line? (e.position.line - 1) text.toList = some quoted) :
    (Failure.runtime e).report source text =
      Report.location source e.position ++ " Error: " ++ e.message ++ "\n" ++
        ("    " ++ String.ofList quoted ++ "\n    " ++
          String.ofList (List.replicate (e.position.column - 1) ' ') ++ "^\n") ++
        Report.traceback source e.trace := by
  have hquotation : Report.quotation text e.position =
      "    " ++ String.ofList quoted ++ "\n    " ++
        String.ofList (List.replicate (e.position.column - 1) ' ') ++ "^\n" := by
    unfold Report.quotation
    rw [h]
    rfl
  rw [← hquotation]
  rfl

/-- Whenever the text that a session evaluates fails, it does so at an expression that the session
has read.  The fault is at a position of this expression, and thus on a line of each text from which
the expression may have been read.  So if this is the text that is evaluated, the report quotes the
line that the position names, and the mark stands below a character of the line. -/
theorem quotation_of_failing_text {depth : Nat} {read : List String} {line : String} {s : Session}
    {e : RuntimeError} (hs : Session.after? depth read = some s)
    (hexit : s.pending.isExit line = false) (hclosed : (s.pending.add line).isOpen = false)
    (he : (s.interpreter.evaluateSource (s.pending.add line).text).1 = .error (.runtime e)) :
    ∃ n, s.interpreter.culprit? (s.pending.add line).text = some n ∧
      e.position ∈ n.faultPositions ∧ Session.HasRead depth (read ++ [line]) n ∧
      (∀ text, n.IsFrom text → e.position.IsOn text.toList) ∧
      (n.IsFrom (s.pending.add line).text → ∃ quoted written i,
        line? (e.position.line - 1) (s.pending.add line).text.toList = some quoted ∧
        e.position.column ≤ quoted.length ∧
        s.feed line = some
          (written ++
            [.reported
              (Report.location sessionSource e.position ++ " Error: " ++ e.message ++ "\n" ++
                ("    " ++ String.ofList quoted ++ "\n    " ++
                  String.ofList (List.replicate (e.position.column - 1) ' ') ++ "^\n") ++
                Report.traceback sessionSource e.trace),
              .shown prompt],
            ⟨i, .empty⟩)) := by
  obtain ⟨-, hfailed⟩ := Session.evaluate_runs hs (Session.runs_of_after? hs) hexit hclosed
  obtain ⟨n, hculprit, hread, hp⟩ := hfailed e he
  refine ⟨n, hculprit, hp, hread, fun text hn => hn.isOn hp, fun hn => ?_⟩
  obtain ⟨-, -, quoted, hquoted, hcolumn⟩ := hn.isOn hp
  let after := s.interpreter.evaluateSource (s.pending.add line).text
  refine ⟨quoted, after.2.takeJournal.1.map Event.output, after.2.takeJournal.2, hquoted, hcolumn,
    ?_⟩
  have hreported : Session.evaluateText s.interpreter (s.pending.add line).text =
      (after.2.takeJournal.1.map Event.output ++
        [.reported ((Failure.runtime e).report sessionSource (s.pending.add line).text)],
      after.2.takeJournal.2) := by
    unfold Session.evaluateText
    dsimp only
    rw [he]
  rw [← report_eq sessionSource hquoted, Session.feed, hexit, if_neg Bool.false_ne_true]
  dsimp only
  rw [hclosed, if_neg Bool.false_ne_true, hreported]
  simp

/-- A function that fails in the text in which it is defined is quoted as it stands there. -/
theorem quotation_of_failing_text_first :
    ∃ n written i,
      (Session.new 1000).interpreter.culprit? "(fun f(x) -> x + 'a'  f(1))" = some n ∧
      n.IsFrom "(fun f(x) -> x + 'a'  f(1))" ∧
      (Session.new 1000).feed "(fun f(x) -> x + 'a'  f(1))" = some
        (written ++
          [.reported
            ("[<stdin>:1:16] Error: TypeError: Unsupported operand types for +: 'int' and 'str'" ++
              "\n    (fun f(x) -> x + 'a'  f(1))\n                   ^\n" ++
              "Traceback (most recent call last):\n  [<stdin>:1:23] in f\n"),
            .shown prompt], ⟨i, .empty⟩) := by
  have hs : Session.after? 1000 [] = some (.new 1000) := rfl
  have hexit : (Session.new 1000).pending.isExit "(fun f(x) -> x + 'a'  f(1))" = false := by decide
  have hclosed : ((Session.new 1000).pending.add "(fun f(x) -> x + 'a'  f(1))").isOpen = false := by
    decide
  have he : ((Session.new 1000).interpreter.evaluateSource "(fun f(x) -> x + 'a'  f(1))").1 =
      .error (.runtime ⟨.binaryOperands .add "int" "str", ⟨1, 16⟩, [⟨"f", ⟨1, 23⟩⟩]⟩) :=
    eq_error_of_errorOf? (by decide +kernel)
  obtain ⟨n, hculprit, -, ⟨origin, horigin, hn⟩, -, hreport⟩ :=
    quotation_of_failing_text hs hexit hclosed he
  rw [Session.evaluates_singleton horigin] at hn
  obtain ⟨quoted, written, i, hquoted, -, hfed⟩ := hreport hn
  have hline : quoted = "(fun f(x) -> x + 'a'  f(1))".toList :=
    Option.some.inj (hquoted.symm.trans (by decide))
  subst hline
  exact ⟨n, written, i, hculprit, hn, hfed⟩

/-- The report quotes the text that is evaluated, although the expression that fails only stands in
the text before it.  The mark is far behind the end of the line. -/
theorem quotation_of_earlier_text :
    ∃ s n, Session.after? 1000 ["fun f(x) -> x + 'a'"] = some s ∧
      s.interpreter.culprit? "f(1)" = some n ∧
      n.IsFrom "fun f(x) -> x + 'a'" ∧ ¬ n.IsFrom "f(1)" ∧
      (s.feed "f(1)").map (fun r => Output.collect (Output.toErrors .silent) r.1) = some
        ("[<stdin>:1:15] Error: TypeError: Unsupported operand types for +: 'int' and 'str'" ++
          "\n    f(1)\n                  ^\n" ++
          "Traceback (most recent call last):\n  [<stdin>:1:1] in f\n") := by
  have hfacts : (Session.after? 1000 ["fun f(x) -> x + 'a'"]).map (fun s =>
      (s.pending, errorOf? (s.interpreter.evaluateSource "f(1)").1,
        (s.feed "f(1)").map fun r => Output.collect (Output.toErrors .silent) r.1)) =
      some (.empty, some (.runtime ⟨.binaryOperands .add "int" "str", ⟨1, 15⟩, [⟨"f", ⟨1, 1⟩⟩]⟩),
        some ("[<stdin>:1:15] Error: TypeError: Unsupported operand types for +: 'int' and 'str'" ++
          "\n    f(1)\n                  ^\n" ++
          "Traceback (most recent call last):\n  [<stdin>:1:1] in f\n")) := by
    decide +kernel
  obtain ⟨s, hs, hfacts⟩ := Option.map_eq_some_iff.1 hfacts
  simp only [Prod.mk.injEq] at hfacts
  obtain ⟨hpending, hfailure, hreport⟩ := hfacts
  have hexit : s.pending.isExit "f(1)" = false := by
    rw [hpending]
    decide
  have hclosed : (s.pending.add "f(1)").isOpen = false := by
    rw [hpending]
    decide
  have htext : (s.pending.add "f(1)").text = "f(1)" := by
    rw [hpending]
    rfl
  obtain ⟨-, hfailed⟩ := Session.evaluate_runs hs (Session.runs_of_after? hs) hexit hclosed
  rw [htext] at hfailed
  obtain ⟨n, hculprit, ⟨origin, horigin, hn⟩, hp⟩ := hfailed _ (eq_error_of_errorOf? hfailure)
  have hother : ¬ n.IsFrom "f(1)" := by
    intro hfrom
    obtain ⟨-, -, quoted, hquoted, hcolumn⟩ := hfrom.isOn hp
    have hline : quoted = "f(1)".toList := Option.some.inj (hquoted.symm.trans (by decide))
    subst hline
    exact absurd hcolumn (by decide)
  refine ⟨s, n, hs, hculprit, ?_, hother, hreport⟩
  rcases Session.evaluates_concat.1 horigin with hfirst | ⟨s', hs', -, -, rfl⟩
  · rwa [Session.evaluates_singleton hfirst] at hn
  · rw [hs] at hs'
    cases hs'
    rw [htext] at hn
    exact absurd hn hother

end SnapshotScript
