import SnapshotScript.Proofs.Grammar.Beginnings
import SnapshotScript.Proofs.Printing.Constructs

/-!
# Forms and blocks that are printed

A form begins with a reserved word of its own and ends with an expression, so that it stands
without parentheses only as an item of a block.  The items of a block stand side by side, and where
one of them ends is told by the token with which the next one begins (`Continues.next_mem`).
-/

namespace SnapshotScript

namespace Printing

open Grammar

variable {s s' : Strength} {pieces pieces' : List Piece} {e : Expr} {p : Position}
  {ts : List Token} {text : String} {decimal : Float → String}

/-! ### Expressions before a reserved word -/

/-- What goes on with any phrase goes on with an expression. -/
theorem extensions_subset (N : Nonterminal) : extensions N ⊆ extensions .expression := by
  cases N <;> decide

/-- An atom is an expression where nothing goes on with it. -/
theorem derives_of_atom {t : Token} {rest : List Token} (h : Atom t.kind t ts e rest)
    (hnext : next rest ∉ extensions .expression) : Derives .expression (t :: ts) e rest := by
  have hoperator : ∀ N o, ¬ Infix N (next rest) o := fun N o ho =>
    hnext (extensions_subset N (infix_mem_extensions ho).1)
  have hfactor : Derives .factor (t :: ts) e rest :=
    .factor_of_atom (.atom h) fun hmem => hnext (extensions_subset .factor hmem)
  exact .logical (hfactor.comparison_of_factor hoperator) (.done (hoperator _))

/-- A printed expression is derived before a token that does not go on with it. -/
theorem Printed.exists_before (h : Printed s pieces e) {k : Token.Kind} {more : List Piece}
    (hts : ts.map Token.piece = fit .logical s pieces ++ fixed k :: more)
    (hk : k ∉ extensions .expression) :
    ∃ (e' : Expr) (ts' : List Token) (t : Token) (ts'' : List Token), ts = ts' ++ t :: ts'' ∧
      e'.unplaced = e.unplaced ∧ t.kind = k ∧ ts''.map Token.piece = more ∧
      ∀ rest, Derives .expression (ts' ++ t :: rest) e' (t :: rest) := by
  obtain ⟨ts', tail, rfl, hfirst, htail⟩ := List.map_eq_append_iff.1 hts
  obtain ⟨t, ts'', rfl, ht, hmore⟩ := List.map_eq_cons_iff.1 htail
  obtain ⟨e', he', hclosed⟩ := h.exists_closed hfirst
  have hkind : t.kind = k := kind_eq_of_fixed ht
  refine ⟨e', ts', t, ts'', rfl, he', hkind, hmore, fun rest => hclosed _ ?_⟩
  rwa [next, hkind]

/-! ### Assignments -/

theorem printed_assign (h : Printed s pieces e) :
    Printed .form (reserved .set :: name text :: fixed .assign :: fit .logical s pieces)
      (.assign text e p) := by
  intro ts hts
  obtain ⟨set, ts, rfl, hset, hts⟩ := List.map_eq_cons_iff.1 hts
  obtain ⟨t, ts, rfl, ht, hts⟩ := List.map_eq_cons_iff.1 hts
  obtain ⟨sign, ts, rfl, hsign, hvalue⟩ := List.map_eq_cons_iff.1 hts
  obtain ⟨hname, rfl⟩ := kind_eq_of_piece ht
  obtain ⟨e', he', hclosed⟩ := h.exists_closed hvalue
  refine ⟨.assign t.text e' set.first, by simp only [Expr.unplaced, he'], fun rest hrest => ?_⟩
  exact .assign (kind_eq_of_fixed hset) hname (kind_eq_of_fixed hsign)
    (hclosed rest hrest.not_mem.1)

theorem printed_memberSet {target : Expr} (hpath : IsPath target) (h : Printed s pieces e) :
    Printed .form (reserved .set :: (fit .call (strength target) (unparse decimal target) ++
      fixed .dot :: name text :: fixed .assign :: fit .logical s pieces))
      (.memberSet target text e p) := by
  intro ts hts
  obtain ⟨set, ts, rfl, hset, hts⟩ := List.map_eq_cons_iff.1 hts
  obtain ⟨path, ts, rfl, htarget, hts⟩ := List.map_eq_append_iff.1 hts
  obtain ⟨dot, ts, rfl, hdot, hts⟩ := List.map_eq_cons_iff.1 hts
  obtain ⟨field, ts, rfl, hfield, hts⟩ := List.map_eq_cons_iff.1 hts
  obtain ⟨sign, ts, rfl, hsign, hvalue⟩ := List.map_eq_cons_iff.1 hts
  obtain ⟨hkind, rfl⟩ := kind_eq_of_piece hfield
  obtain ⟨t, path, fields, rfl, ht, hsame, hmembers⟩ := exists_path hpath htarget
  obtain ⟨e', he', hclosed⟩ := h.exists_closed hvalue
  refine ⟨.memberSet (select (.identifier t.text t.first) fields) field.text e' set.first, ?_, ?_⟩
  · simp only [Expr.unplaced, he', hsame]
  · intro rest hrest
    have hassign : sign.kind = .assign := kind_eq_of_fixed hsign
    have hnext : next (sign :: (ts ++ rest)) ≠ .dot := by
      rw [next, hassign]
      decide
    have hpath := hmembers [field] _ _
      (.more (kind_eq_of_fixed hdot) hkind (.done hnext))
    simp only [List.cons_append, List.append_assoc]
    exact .memberSet (kind_eq_of_fixed hset) ht hpath hassign (hclosed rest hrest.not_mem.1)

/-! ### Loops -/

theorem printed_whileLoop {body : Expr} (h : Printed s pieces e) (hbody : Printed s' pieces' body) :
    Printed .form (reserved .while :: (fit .logical s pieces ++
      reserved .then :: fit .logical s' pieces')) (.whileLoop e body p) := by
  intro ts hts
  obtain ⟨t, ts, rfl, ht, hts⟩ := List.map_eq_cons_iff.1 hts
  obtain ⟨e', ts, word, ts', rfl, he', hword, hts', hderives⟩ := h.exists_before hts (by decide)
  obtain ⟨body', hb, hclosed⟩ := hbody.exists_closed hts'
  refine ⟨.whileLoop e' body' t.first, by simp only [Expr.unplaced, he', hb], ?_⟩
  intro rest hrest
  simp only [List.cons_append, List.append_assoc]
  refine derives_of_atom ?_ hrest.not_mem.1
  rw [kind_eq_of_fixed ht]
  exact .whileLoop (hderives _) hword (hclosed rest hrest.not_mem.1)

theorem printed_forLoop {first bound body : Expr} {step : Option Expr}
    (hfirst : Printed (strength first) (unparse decimal first) first)
    (hbound : Printed (strength bound) (unparse decimal bound) bound)
    (hstep : ∀ e ∈ step, Printed (strength e) (unparse decimal e) e)
    (hbody : Printed (strength body) (unparse decimal body) body) :
    Printed .form (unparse decimal (.forLoop text first bound step body p))
      (.forLoop text first bound step body p) := by
  intro ts hts
  cases step with
  | none =>
    rw [unparse] at hts
    obtain ⟨t, ts, rfl, ht, hts⟩ := List.map_eq_cons_iff.1 hts
    obtain ⟨variable', ts, rfl, hvariable, hts⟩ := List.map_eq_cons_iff.1 hts
    obtain ⟨sign, ts, rfl, hsign, hmore⟩ := List.map_eq_cons_iff.1 hts
    obtain ⟨hname, rfl⟩ := kind_eq_of_piece hvariable
    obtain ⟨first', ts₁, mark, ts, rfl, hf, hmark, hts, hderives₁⟩ :=
      hfirst.exists_before hmore (by decide)
    obtain ⟨bound', ts₂, word, ts, rfl, hb, hword, hts, hderives₂⟩ :=
      hbound.exists_before hts (by decide)
    obtain ⟨body', hbody', hclosed⟩ := hbody.exists_closed hts
    refine ⟨.forLoop variable'.text first' bound' none body' t.first, ?_, fun rest hrest => ?_⟩
    · simp only [Expr.unplaced, hf, hb, hbody']
    · simp only [List.cons_append, List.append_assoc]
      refine derives_of_atom ?_ hrest.not_mem.1
      rw [kind_eq_of_fixed ht]
      exact .forLoop hname (kind_eq_of_fixed hsign) (hderives₁ _) hmark (hderives₂ _) hword
        (hclosed rest hrest.not_mem.1)
  | some step =>
    rw [unparse] at hts
    obtain ⟨t, ts, rfl, ht, hts⟩ := List.map_eq_cons_iff.1 hts
    obtain ⟨variable', ts, rfl, hvariable, hts⟩ := List.map_eq_cons_iff.1 hts
    obtain ⟨sign, ts, rfl, hsign, hmore⟩ := List.map_eq_cons_iff.1 hts
    obtain ⟨hname, rfl⟩ := kind_eq_of_piece hvariable
    obtain ⟨first', ts₁, mark, ts, rfl, hf, hmark, hts, hderives₁⟩ :=
      hfirst.exists_before hmore (by decide)
    obtain ⟨bound', ts₂, word', ts, rfl, hb, hword', hts, hderives₂⟩ :=
      hbound.exists_before hts (by decide)
    obtain ⟨step', ts₃, word, ts, rfl, hs, hword, hts, hderives₃⟩ :=
      (hstep step rfl).exists_before hts (by decide)
    obtain ⟨body', hbody', hclosed⟩ := hbody.exists_closed hts
    refine ⟨.forLoop variable'.text first' bound' (some step') body' t.first, ?_,
      fun rest hrest => ?_⟩
    · simp only [Expr.unplaced, hf, hb, hs, hbody']
    · simp only [List.cons_append, List.append_assoc]
      refine derives_of_atom ?_ hrest.not_mem.1
      rw [kind_eq_of_fixed ht]
      exact .forLoopStep hname (kind_eq_of_fixed hsign) (hderives₁ _) hmark (hderives₂ _) hword'
        (hderives₃ _) hword (hclosed rest hrest.not_mem.1)

/-! ### Definitions -/

/-- The name of a definition is read back, if there is one. -/
theorem exists_definedName {name' : Option String} {more : List Piece}
    (hts : ts.map Token.piece = definedName name' ++ more) :
    ∃ ts' ts'', ts = ts' ++ ts'' ∧ ts''.map Token.piece = more ∧
      ∀ rest, DefinedName (ts' ++ rest) name' rest := by
  obtain ⟨ts', ts'', rfl, hname, hmore⟩ := List.map_eq_append_iff.1 hts
  refine ⟨ts', ts'', rfl, hmore, fun rest => ?_⟩
  cases name' with
  | none =>
    obtain rfl := List.map_eq_nil_iff.1 hname
    exact .absent
  | some text =>
    obtain ⟨t, rfl, ht⟩ := List.map_eq_singleton_iff.1 hname
    obtain ⟨hkind, rfl⟩ := kind_eq_of_piece ht
    exact .present hkind

/-- Parameters are printed. -/
theorem printed_parameters (parameters : List String) :
    List.Forall₂ (PrintedItem Parameter Eq) (parameters.map fun text => [name text])
      parameters := by
  induction parameters with
  | nil => exact .nil
  | cons text parameters ih =>
    refine .cons (fun ts hts => ⟨text, rfl, fun rest _ => ?_⟩) ih
    obtain ⟨t, rfl, ht⟩ := List.map_eq_singleton_iff.1 hts
    obtain ⟨hkind, rfl⟩ := kind_eq_of_piece ht
    exact .name hkind

/-- A type is read back unless it is a struct that has the name of a basic one. -/
theorem tag_of_piece {tag' : TypeTag}
    (h : ∀ text, tag' = .struct text → TypeTag.ofName text = .struct text) {t : Token}
    (ht : t.piece = tag tag') (rest : List Token) : Tag (t :: rest) tag' rest := by
  have hname : ∀ text, t.piece = name text → TypeTag.ofName text = tag' →
      Tag (t :: rest) tag' rest := by
    rintro text hpiece rfl
    obtain ⟨hkind, rfl⟩ := kind_eq_of_piece hpiece
    exact .name hkind
  cases tag' with
  | function => exact .function (kind_eq_of_fixed ht)
  | null => exact .null (kind_eq_of_fixed ht)
  | struct text => exact hname text ht (h text rfl)
  | _ => exact hname _ ht rfl

/-- Declarations of fields are printed. -/
theorem printed_fields {fields : List Field}
    (h : ∀ f ∈ fields, ∀ text, f.tag = .struct text → TypeTag.ofName text = .struct text) :
    List.Forall₂ (PrintedItem FieldDeclaration Eq) (fields.map field) fields := by
  induction fields with
  | nil => exact .nil
  | cons f fields ih =>
    obtain ⟨hf, hfields⟩ := List.forall_mem_cons.1 h
    refine .cons (fun ts hts => ⟨f, rfl, fun rest _ => ?_⟩) (ih hfields)
    obtain ⟨t, ts, rfl, ht, hts⟩ := List.map_eq_cons_iff.1 hts
    obtain ⟨colon, ts, rfl, hcolon, hts⟩ := List.map_eq_cons_iff.1 hts
    obtain ⟨t', rfl, htag⟩ := List.map_eq_singleton_iff.1 hts
    obtain ⟨hname, htext⟩ := kind_eq_of_piece ht
    have hdeclaration : FieldDeclaration (t :: colon :: t' :: rest) ⟨t.text, f.tag⟩ rest :=
      .typed hname (kind_eq_of_fixed hcolon) (tag_of_piece hf htag rest)
    rwa [htext] at hdeclaration

theorem printed_function {name' : Option String} {parameters : List String}
    (hparameters : parameters.Nodup) (h : Printed s pieces e) :
    Printed .form (reserved .fun :: (definedName name' ++
      enclose (separate (parameters.map fun text => [name text])) ++
        fixed .arrow :: fit .logical s pieces)) (.function name' parameters e p) := by
  intro ts hts
  obtain ⟨t, ts, rfl, ht, hts⟩ := List.map_eq_cons_iff.1 hts
  rw [List.append_assoc] at hts
  obtain ⟨ts', ts, rfl, hts, hdefined⟩ := exists_definedName hts
  obtain ⟨row, ts, rfl, hrow, hts⟩ := List.map_eq_append_iff.1 hts
  obtain ⟨arrow, ts, rfl, harrow, hbody⟩ := List.map_eq_cons_iff.1 hts
  obtain ⟨paren, row, parameters', rfl, hparen, hsame, hparenthesized⟩ :=
    parenthesized_of_printed (printed_parameters parameters) hrow
  obtain rfl := List.forall₂_eq_eq_eq ▸ hsame
  obtain ⟨e', he', hclosed⟩ := h.exists_closed hbody
  refine ⟨.function name' parameters' e' t.first, by simp only [Expr.unplaced, he'], ?_⟩
  intro rest hrest
  simp only [List.cons_append, List.append_assoc]
  refine derives_of_atom ?_ hrest.not_mem.1
  rw [kind_eq_of_fixed ht]
  exact .function (hdefined _) hparen (hparenthesized _) hparameters (kind_eq_of_fixed harrow)
    (hclosed rest hrest.not_mem.1)

theorem printed_struct {name' : Option String} {fields : List Field}
    (hfields : (fields.map Field.name).Nodup)
    (h : ∀ f ∈ fields, ∀ text, f.tag = .struct text → TypeTag.ofName text = .struct text) :
    Printed .form (reserved .struct :: (definedName name' ++
      enclose (separate (fields.map field)))) (.struct name' fields p) := by
  intro ts hts
  obtain ⟨t, ts, rfl, ht, hts⟩ := List.map_eq_cons_iff.1 hts
  obtain ⟨ts', ts, rfl, hts, hdefined⟩ := exists_definedName hts
  obtain ⟨paren, row, fields', rfl, hparen, hsame, hparenthesized⟩ :=
    parenthesized_of_printed (printed_fields h) hts
  obtain rfl := List.forall₂_eq_eq_eq ▸ hsame
  refine ⟨.struct name' fields' t.first, rfl, fun rest hrest => ?_⟩
  simp only [List.cons_append, List.append_assoc]
  refine derives_of_atom ?_ hrest.not_mem.1
  rw [kind_eq_of_fixed ht]
  exact .struct (hdefined _) hparen (hparenthesized rest) hfields

/-! ### Returns -/

theorem printed_returning (h : Printed s pieces e) :
    Printed .form (reserved .return :: fit .logical s pieces) (.returning (some e) p) := by
  intro ts hts
  obtain ⟨t, ts, rfl, ht, hvalue⟩ := List.map_eq_cons_iff.1 hts
  obtain ⟨e', he', hclosed⟩ := h.exists_closed hvalue
  refine ⟨.returning (some e') t.first, by simp only [Expr.unplaced, he'], fun rest hrest => ?_⟩
  refine derives_of_atom ?_ hrest.not_mem.1
  rw [kind_eq_of_fixed ht]
  exact .returning (hclosed rest hrest.not_mem.1)

theorem printed_returningNothing : Printed .form [reserved .return] (.returning none p) := by
  intro ts hts
  obtain ⟨t, rfl, ht⟩ := List.map_eq_singleton_iff.1 hts
  refine ⟨.returning none t.first, rfl, fun rest hrest => ?_⟩
  refine derives_of_atom ?_ hrest.not_mem.1
  have hends : ∀ k ∈ itemEnds, k ∉ Nonterminal.expression.beginnings := by decide
  rw [kind_eq_of_fixed ht]
  refine .returningNothing (hends _ ?_)
  rcases hrest with hend | ⟨-, hvalue⟩
  · exact hend
  · exact absurd rfl hvalue

end Printing

end SnapshotScript
