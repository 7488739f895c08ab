import SnapshotScript.Proofs.Grammar.Agreement
import SnapshotScript.Proofs.Grammar.Material
import SnapshotScript.Proofs.Instance.Matching

/-!
# Instances of programs match their declaration

Programs that are read from source texts are well formed, since the grammar allows only distinct
names of fields.  Hence instances match their declaration at every moment, whatever texts are
evaluated.
-/

namespace SnapshotScript

/-- A tree whose nodes declare fields with distinct names is well formed. -/
theorem Expr.WellFormed.of_drawn {T : Token → Prop} {e : Expr}
    (h : e.Everywhere (Grammar.Drawn T)) : e.WellFormed := by
  induction h with
  | node hn _ ih => exact .node hn.fields ih

/-- Programs that are read are well formed. -/
theorem parseSource_wellFormed {source : String} {program : Expr}
    (h : parseSource source = .ok program) : program.WellFormed := by
  obtain ⟨tokens, -, hparse⟩ := parseSource_eq_ok_iff.1 h
  obtain ⟨items, hitems, rfl⟩ := derived_of_parseTokens hparse
  exact .node nofun fun item hitem =>
    .of_drawn (hitems.drawn (T := fun _ => True) (fun _ _ => trivial) item hitem)

/-- Observed source texts are read and evaluated one after another as without an observer. -/
theorem Interpreter.Observes.evaluateAll {t : Typing} {i : Interpreter Watch} {j : Interpreter}
    (h : i.Observes t j) (sources : List String) :
    (i.evaluateAll sources).1 = (j.evaluateAll sources).1 ∧
      ∃ t', (i.evaluateAll sources).2.Observes t' (j.evaluateAll sources).2 := by
  have hcode : ∀ source ∈ sources, ∀ program, parseSource source = .ok program →
      Watch.link.code t program := fun _ _ _ => parseSource_wellFormed
  obtain ⟨t', -, hresults, hend⟩ :=
    Watch.link_lawful.evaluateAll_simulates Watch.link_forgets ⟨h.machine, h.depth, h.steps⟩ hcode
  exact ⟨Watch.link_stationary.eq_of_results hresults,
    t', hend.machine, hend.depth, hend.steps⟩

/-- Source texts are read and evaluated one after another, whether they fail or not.  At every
moment, up to the one that the runs leave, instances match their declaration: the names of the
fields are distinct, there is one value for each field, and it conforms to the type of the field as
it is.  No access is to a field that the instance does not declare or does not have.  To observe the
runs does not change them. -/
theorem instances_match_declaration (depth steps : Nat) (sources : List String) :
    let observed := (Interpreter.mk Watch.initial depth steps).evaluateAll sources
    let run := (Interpreter.mk Machine.initial depth steps).evaluateAll sources
    let watch := observed.2.machine
    observed.1 = run.1 ∧ watch.machine = run.2.machine ∧ watch.toMoment ∈ watch.moments ∧
      (∀ moment ∈ watch.moments, moment.Matches) ∧ ∀ a ∈ watch.accesses, a.InRange := by
  have hinitial : Interpreter.Observes ⟨#[]⟩ ⟨Watch.initial, depth, steps⟩
      ⟨Machine.initial, depth, steps⟩ := ⟨Watch.initial_observes, rfl, rfl⟩
  obtain ⟨hresults, t, h⟩ := hinitial.evaluateAll sources
  have hw := h.machine
  exact ⟨hresults, hw.machine, hw.latest, hw.moments, hw.accesses⟩

end SnapshotScript
