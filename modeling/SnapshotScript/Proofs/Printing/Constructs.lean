import Mathlib.Data.List.Forall2
import SnapshotScript.Proofs.Printing.Phrases

/-!
# Constructs that are printed

One lemma for each construct: if the expressions within it are read back from their pieces, then so
is the whole of it.  Lists of parts have lemmas of their own, for groups with commas between them,
for the items of a block and for the branches of a choice.
-/

namespace SnapshotScript

namespace Printing

open Grammar

variable {s s' : Strength} {pieces pieces' : List Piece} {e e' left right : Expr} {p : Position}

/-! ### Atoms -/

/-- The digits of an integer are read back. -/
theorem readInteger?_decimalDigits (n : Nat) : readInteger? (decimalDigits n) = some (n : Int) := by
  have hsign : splitSign (decimalDigits n) = (false, decimalDigits n) := by
    cases hdigits : decimalDigits n with
    | nil => rfl
    | cons c cs =>
      have hc : isDigit c = true := isDigit_of_mem_decimalDigits (n := n) (by simp [hdigits])
      have hne : c ≠ '-' ∧ c ≠ '+' := by
        constructor <;> rintro rfl <;> exact absurd hc (by decide)
      simp [splitSign, hne]
  have hdigits : readDigits? (decimalDigits n) = some n := by
    have hall : (decimalDigits n).all isDigit = true :=
      List.all_eq_true.2 fun c hc => isDigit_of_mem_decimalDigits hc
    rw [readDigits?, if_pos ⟨decimalDigits_ne_nil n, hall⟩, decimalValue_decimalDigits]
  simp [readInteger?, hsign, hdigits]

/-- A constant is read back from its piece. -/
theorem constant_of_piece {decimal : Float → String}
    (hdecimal : ∀ x text, IsDecimal text x → IsDecimal (decimal x) x) {v : Literal}
    (h : Shaped (.literal v p)) {t : Token} (ht : t.piece = literal decimal v) :
    Constant t.kind t.text v := by
  cases v with
  | int value =>
    obtain ⟨hkind, htext⟩ := kind_eq_of_piece ht
    have hnonneg : (0 : Int) ≤ value.toInt := h
    have hread : readInteger? t.text.toList = some value.toInt := by
      rw [htext, String.toList_ofList, readInteger?_decimalDigits, Int.toNat_of_nonneg hnonneg]
    have hword : word? value.toInt = some value := by
      have hlt := value.toInt_lt
      have hbound : -(wordBound : Int) ≤ value.toInt ∧ value.toInt < wordBound := by
        rw [show wordBound = 9223372036854775808 from rfl]
        omega
      rw [word?, if_pos hbound, Int64.ofInt_toInt]
    rw [hkind]
    exact .int hread hword
  | float value =>
    obtain ⟨hkind, htext⟩ := kind_eq_of_piece ht
    obtain ⟨text, htext'⟩ := h
    rw [hkind, htext]
    exact .float (hdecimal value text htext').2
  | str value =>
    obtain ⟨hkind, htext⟩ := kind_eq_of_piece ht
    rw [hkind, htext]
    exact .str
  | bool value =>
    cases value with
    | false =>
      rw [kind_eq_of_fixed (k := .keyword .false) ht]
      exact .false
    | true =>
      rw [kind_eq_of_fixed (k := .keyword .true) ht]
      exact .true
  | null =>
    rw [kind_eq_of_fixed (k := .keyword .null) ht]
    exact .null

/-- Constants are printed. -/
theorem printed_literal {decimal : Float → String}
    (hdecimal : ∀ x text, IsDecimal text x → IsDecimal (decimal x) x) {v : Literal}
    (h : Shaped (.literal v p)) : Printed .atom [literal decimal v] (.literal v p) := by
  intro ts hts
  obtain ⟨t, rfl, ht⟩ := List.map_eq_singleton_iff.1 hts
  have hconstant := constant_of_piece hdecimal h ht
  exact ⟨.literal v t.first, rfl, fun rest => .atom (.constant hconstant)⟩

/-- Names are printed. -/
theorem printed_identifier (text : String) : Printed .atom [name text] (.identifier text p) := by
  intro ts hts
  obtain ⟨t, rfl, ht⟩ := List.map_eq_singleton_iff.1 hts
  obtain ⟨hkind, htext⟩ := kind_eq_of_piece ht
  refine ⟨.identifier t.text t.first, by rw [htext]; rfl, fun rest => .atom ?_⟩
  rw [hkind]
  exact .name

/-! ### Members -/

/-- The tokens of a member end with a point and a name, behind those of a target. -/
theorem exists_member {ts : List Token} {text : String}
    (h : ts.map Token.piece = pieces ++ [fixed .dot, name text]) :
    ∃ ts' dot field, ts = ts' ++ [dot, field] ∧ ts'.map Token.piece = pieces ∧
      dot.kind = .dot ∧ field.kind = .identifier ∧ field.text = text := by
  obtain ⟨ts', tail, rfl, hts', htail⟩ := List.map_eq_append_iff.1 h
  obtain ⟨dot, tail, rfl, hdot, htail⟩ := List.map_eq_cons_iff.1 htail
  obtain ⟨field, rfl, hfield⟩ := List.map_eq_singleton_iff.1 htail
  exact ⟨ts', dot, field, rfl, hts', kind_eq_of_fixed hdot, kind_eq_of_piece hfield⟩

/-- A member of a target that is a name, a group or a member of one is printed as another of these.
-/
theorem Printed.member_of_members (h : Printed .members pieces e) (text : String) :
    Printed .members (pieces ++ [fixed .dot, name text]) (.member e text p) := by
  intro ts hts
  obtain ⟨ts, dot, field, rfl, htarget, hdot, hfield, rfl⟩ := exists_member hts
  obtain ⟨e', he', a, fields, rfl, hread⟩ := h ts htarget
  refine ⟨select a (fields ++ [field]), ?_, a, fields ++ [field], rfl, fun rest => ?_⟩
  · rw [select, List.foldl_append]
    simp only [List.foldl_cons, List.foldl_nil, Expr.unplaced]
    rw [← he']
    rfl
  · obtain ⟨mid, hatom, hmembers⟩ := hread (dot :: field :: rest)
    rw [List.append_assoc]
    refine ⟨mid, hatom, fun more rest' hmore => ?_⟩
    rw [List.append_assoc]
    exact hmembers _ _ (.more hdot hfield hmore)

/-- A member of what a call gives is printed as a call. -/
theorem Printed.member_of_call (h : Printed .call pieces e) (text : String) :
    Printed .call (pieces ++ [fixed .dot, name text]) (.member e text p) := by
  intro ts hts
  obtain ⟨ts, dot, field, rfl, htarget, hdot, hfield, rfl⟩ := exists_member hts
  obtain ⟨e', he', hread⟩ := h ts htarget
  refine ⟨.member e' field.text field.first, ?_, fun rest more rest' hmore hnext => ?_⟩
  · simp only [Expr.unplaced, he']
  · rw [List.append_assoc]
    exact hread _ _ _ (.more hdot hfield hmore) hnext

/-- A member is printed if its target is, in parentheses if need be. -/
theorem Printed.member (h : Printed (strength e) pieces e) (text : String) :
    Printed (strength (.member e text p))
      (fit .call (strength e) pieces ++ [fixed .dot, name text]) (.member e text p) := by
  by_cases hcall : strength e = .call
  · rw [strength, if_pos hcall]
    exact (h.fits (by decide)).member_of_call text
  · rw [strength, if_neg hcall]
    refine Printed.member_of_members ?_ text
    unfold fit
    split
    · next hle =>
      have hmembers : Strength.members.rank ≤ (strength e).rank := by
        generalize strength e = s at hcall hle
        cases s <;> first | exact absurd rfl hcall | exact absurd hle (by decide) | decide
      exact h.weaken hmembers (by decide)
    · exact h.enclosed.weaken (by decide) (by decide)

/-- The tokens of a path name members of a name. -/
theorem exists_path {decimal : Float → String} (h : IsPath e) {ts : List Token}
    (hts : ts.map Token.piece = fit .call (strength e) (unparse decimal e)) :
    ∃ t ts' fields, ts = t :: ts' ∧ t.kind = .identifier ∧
      (select (.identifier t.text t.first) fields).unplaced = e.unplaced ∧
      ∀ more rest rest', Members rest more rest' →
        Members (ts' ++ rest) (fields ++ more) rest' := by
  induction e using IsPath.induct generalizing ts with
  | case1 text position =>
    obtain ⟨t, rfl, ht⟩ := List.map_eq_singleton_iff.1 hts
    obtain ⟨hkind, htext⟩ := kind_eq_of_piece ht
    exact ⟨t, [], [], rfl, hkind, by rw [htext]; rfl, fun more rest rest' hmore => hmore⟩
  | case2 target text position ih =>
    have hpath : IsPath target := h
    have hfit : fit .call (strength (.member target text position))
        (unparse decimal (.member target text position)) =
          fit .call (strength target) (unparse decimal target) ++ [fixed .dot, name text] := by
      rw [fit, if_pos, unparse]
      rw [strength]
      split <;> decide
    rw [hfit] at hts
    obtain ⟨ts, dot, field, rfl, htarget, hdot, hfield, rfl⟩ := exists_member hts
    obtain ⟨t, ts', fields, rfl, ht, hsame, hmembers⟩ := ih hpath htarget
    refine ⟨t, ts' ++ [dot, field], fields ++ [field], rfl, ht, ?_, fun more rest rest' hmore => ?_⟩
    · rw [select, List.foldl_append]
      simp only [List.foldl_cons, List.foldl_nil, Expr.unplaced]
      rw [← hsame]
      rfl
    · rw [List.append_assoc, List.append_assoc]
      exact hmembers _ _ _ (.more hdot hfield hmore)
  | case3 => exact absurd h (by simp_all [IsPath])

/-! ### Operators -/

/-- A chain of operators is printed with one operand more. -/
theorem printed_infix {N : Nonterminal} {k : Token.Kind} {o : BinaryOperator} (ho : Infix N k o)
    {ts : List Token} (hts : ts.map Token.piece = pieces ++ fixed k :: pieces')
    (hleft : ∀ ts : List Token, ts.map Token.piece = pieces →
      ∃ e' : Expr, e'.unplaced = left.unplaced ∧ Open N ts e')
    (hright : ∀ ts : List Token, ts.map Token.piece = pieces' →
      ∃ e' : Expr, e'.unplaced = right.unplaced ∧ Closed N.tighter ts e') :
    ∃ e' : Expr, e'.unplaced = (Expr.binary o left right p).unplaced ∧ Open N ts e' := by
  obtain ⟨tl, tail, rfl, htl, htail⟩ := List.map_eq_append_iff.1 hts
  obtain ⟨sign, tr, rfl, hsign, htr⟩ := List.map_eq_cons_iff.1 htail
  obtain ⟨left', hl, hopen⟩ := hleft tl htl
  obtain ⟨right', hr, hclosed⟩ := hright tr htr
  refine ⟨.binary o left' right' sign.first, ?_, hopen.binary ho (kind_eq_of_fixed hsign) hclosed⟩
  simp only [Expr.unplaced, hl, hr]

theorem printed_comparison {k : Token.Kind} {o : BinaryOperator} (ho : Infix .comparison k o)
    (hleft : Printed .arithmetic pieces left) (hright : Printed .arithmetic pieces' right) :
    Printed .comparison (pieces ++ fixed k :: pieces') (.binary o left right p) := by
  intro ts hts
  obtain ⟨tl, tail, rfl, htl, htail⟩ := List.map_eq_append_iff.1 hts
  obtain ⟨sign, tr, rfl, hsign, htr⟩ := List.map_eq_cons_iff.1 htail
  obtain ⟨left', hl, hopen⟩ := hleft tl htl
  obtain ⟨right', hr, hopen'⟩ := hright tr htr
  refine ⟨.binary o left' right' sign.first, by simp only [Expr.unplaced, hl, hr], ?_⟩
  intro rest hnext
  have hkind : sign.kind = k := kind_eq_of_fixed hsign
  have hbehind : next (sign :: (tr ++ rest)) ∉ extensions .arithmetic := by
    rw [next, hkind]
    exact (infix_mem_extensions ho).2
  have hrest : next rest ∉ extensions .arithmetic := fun hmem =>
    hnext (extensions_tighter .comparison hmem)
  rw [List.append_assoc]
  exact .compare (Open.closed hopen _ hbehind) (hkind ▸ ho) (Open.closed hopen' rest hrest)

theorem printed_power (hleft : Printed .call pieces left) (hright : Printed .factor pieces' right) :
    Printed .power (pieces ++ fixed .power :: pieces') (.binary .power left right p) := by
  intro ts hts
  obtain ⟨tl, tail, rfl, htl, htail⟩ := List.map_eq_append_iff.1 hts
  obtain ⟨sign, tr, rfl, hsign, htr⟩ := List.map_eq_cons_iff.1 htail
  obtain ⟨left', hl, hcall⟩ := hleft tl htl
  obtain ⟨right', hr, hfactor⟩ := hright tr htr
  refine ⟨.binary .power left' right' sign.first, by simp only [Expr.unplaced, hl, hr], ?_⟩
  intro rest hnext
  have hkind : sign.kind = .power := kind_eq_of_fixed hsign
  have hbase : Derives .call (tl ++ sign :: (tr ++ rest)) left' (sign :: (tr ++ rest)) :=
    hcall _ [] _ (.done (by rw [next, hkind]; decide)) (by rw [next, hkind]; decide)
  rw [List.append_assoc]
  exact .raised hbase hkind (hfactor rest hnext)

/-- An operator is printed between its operands. -/
theorem printed_binary {o : BinaryOperator}
    (hleft : Printed (infixForm o).left pieces left)
    (hright : Printed (infixForm o).right pieces' right) :
    Printed (infixForm o).strength (pieces ++ fixed (infixForm o).sign :: pieces')
      (.binary o left right p) := by
  have hsum : ∀ {ts : List Token}, (∃ e' : Expr, e'.unplaced = right.unplaced ∧ Open .term ts e') →
      ∃ e' : Expr, e'.unplaced = right.unplaced ∧ Closed .term ts e' := by
    rintro ts ⟨e', he', hopen⟩
    exact ⟨e', he', hopen.closed⟩
  cases o with
  | add => exact fun ts hts => printed_infix .add hts hleft fun ts hts => hsum (hright ts hts)
  | subtract =>
    exact fun ts hts => printed_infix .subtract hts hleft fun ts hts => hsum (hright ts hts)
  | multiply => exact fun ts hts => printed_infix .multiply hts hleft hright
  | divide => exact fun ts hts => printed_infix .divide hts hleft hright
  | power => exact printed_power hleft hright
  | equal => exact printed_comparison .equal hleft hright
  | notEqual => exact printed_comparison .notEqual hleft hright
  | less => exact printed_comparison .less hleft hright
  | greater => exact printed_comparison .greater hleft hright
  | lessEqual => exact printed_comparison .lessEqual hleft hright
  | greaterEqual => exact printed_comparison .greaterEqual hleft hright
  | and => exact fun ts hts => printed_infix .and hts hleft hright
  | or => exact fun ts hts => printed_infix .or hts hleft hright

/-- A sign is printed in front of its operand. -/
theorem printed_unary {o : UnaryOperator} (h : Printed .factor pieces e) :
    Printed .factor (fixed (prefixSign o) :: pieces) (.unary o e p) := by
  intro ts hts
  obtain ⟨sign, ts, rfl, hsign, hoperand⟩ := List.map_eq_cons_iff.1 hts
  obtain ⟨e', he', hread⟩ := h ts hoperand
  refine ⟨.unary o e' sign.first, by simp only [Expr.unplaced, he'], fun rest hnext => ?_⟩
  have ho : Sign sign.kind o := by
    rw [kind_eq_of_fixed hsign]
    cases o with
    | plus => exact .plus
    | minus => exact .minus
  exact .signed ho (hread rest hnext)

theorem printed_not (h : Printed .comparison pieces e) :
    Printed .comparison (reserved .not :: pieces) (.not e p) := by
  intro ts hts
  obtain ⟨word, ts, rfl, hword, hoperand⟩ := List.map_eq_cons_iff.1 hts
  obtain ⟨e', he', hread⟩ := h ts hoperand
  refine ⟨.not e' word.first, by simp only [Expr.unplaced, he'], fun rest hnext => ?_⟩
  exact .not (kind_eq_of_fixed hword) (hread rest hnext)

/-! ### Groups with commas between them -/

section Groups

variable {α β : Type} {Item : List Token → α → List Token → Prop} {R : α → β → Prop}

/-- Wherever tokens with these pieces stand in front of a comma or a closing parenthesis, they are
read as an item that goes with the given one. -/
def PrintedItem (Item : List Token → α → List Token → Prop) (R : α → β → Prop)
    (pieces : List Piece) (b : β) : Prop :=
  ∀ ts : List Token, ts.map Token.piece = pieces →
    ∃ a, R a b ∧ ∀ rest, next rest ∈ [Token.Kind.comma, .rightParen] → Item (ts ++ rest) a rest

/-- Printed items with commas between them are read as a row. -/
theorem row_of_printed {groups : List (List Piece)} {bs : List β}
    (h : List.Forall₂ (PrintedItem Item R) groups bs) (hne : groups ≠ []) {ts : List Token}
    (hts : ts.map Token.piece = separate groups) {close : Token}
    (hclose : close.kind = .rightParen) :
    ∃ as, List.Forall₂ R as bs ∧ ∀ rest, Row Item (ts ++ close :: rest) as rest := by
  induction h generalizing ts with
  | nil => exact absurd rfl hne
  | @cons group b groups bs hgroup htail ih =>
    cases groups with
    | nil =>
      cases htail
      obtain ⟨a, ha, hitem⟩ := hgroup ts (by simpa [separate, List.intercalate] using hts)
      refine ⟨[a], .cons ha .nil, fun rest => .last (hitem _ ?_) hclose⟩
      rw [next, hclose]
      decide
    | cons group' groups =>
      have hsplit : separate (group :: group' :: groups) =
          group ++ fixed .comma :: separate (group' :: groups) := by
        simp [separate, List.intercalate_cons_cons]
      rw [hsplit] at hts
      obtain ⟨ts, tail, rfl, hfirst, hmore⟩ := List.map_eq_append_iff.1 hts
      obtain ⟨comma, ts', rfl, hcomma, hrest⟩ := List.map_eq_cons_iff.1 hmore
      obtain ⟨a, ha, hitem⟩ := hgroup ts hfirst
      obtain ⟨as, has, hrow⟩ := ih (List.cons_ne_nil _ _) hrest
      refine ⟨a :: as, .cons ha has, fun rest => ?_⟩
      have hkind : comma.kind = .comma := kind_eq_of_fixed hcomma
      have hnext : next (comma :: (ts' ++ close :: rest)) ∈ [Token.Kind.comma, .rightParen] := by
        rw [next, hkind]
        decide
      rw [List.append_assoc]
      exact .more (hitem _ hnext) hkind (hrow rest)

/-- Printed items in parentheses are read as a list. -/
theorem parenthesized_of_printed {groups : List (List Piece)} {bs : List β}
    (h : List.Forall₂ (PrintedItem Item R) groups bs) {ts : List Token}
    (hts : ts.map Token.piece = enclose (separate groups)) :
    ∃ first ts' as, ts = first :: ts' ∧ first.kind = .leftParen ∧ List.Forall₂ R as bs ∧
      ∀ rest, Parenthesized Item (ts' ++ rest) as rest := by
  obtain ⟨first, inner, last, rfl, hfirst, hinner, hlast⟩ := exists_enclosed hts
  cases groups with
  | nil =>
    cases h
    obtain rfl := List.map_eq_nil_iff.1 hinner
    exact ⟨first, [last], [], rfl, hfirst, .nil, fun rest => .none hlast⟩
  | cons group groups =>
    obtain ⟨as, has, hrow⟩ := row_of_printed h (List.cons_ne_nil _ _) hinner hlast
    refine ⟨first, inner ++ [last], as, rfl, hfirst, has, fun rest => .some ?_⟩
    rw [List.append_assoc]
    exact hrow rest

end Groups

/-! ### Calls -/

/-- An expression in a place that only asks it to be no form is closed there. -/
theorem Printed.exists_closed (h : Printed s pieces e) {ts : List Token}
    (hts : ts.map Token.piece = fit .logical s pieces) :
    ∃ e' : Expr, e'.unplaced = e.unplaced ∧ Closed .expression ts e' := by
  obtain ⟨e', he', hopen⟩ := h.fits (show Strength.logical ≠ .form by decide) ts hts
  exact ⟨e', he', Open.closed hopen⟩

/-- Two arguments that are the same but for their places. -/
def SameArgument (a b : Argument Expr) : Prop :=
  a.name = b.name ∧ a.value.unplaced = b.value.unplaced

/-- Arguments that are the same but for their places are so without these. -/
theorem unplacedArguments_eq {as bs : List (Argument Expr)} (h : List.Forall₂ SameArgument as bs) :
    Expr.unplacedArguments as = Expr.unplacedArguments bs := by
  induction h with
  | nil => rfl
  | cons hab _ ih => simp only [Expr.unplacedArguments, hab.1, hab.2, ih]

/-- The arguments of a call are printed if their values are. -/
theorem printed_arguments {decimal : Float → String} {arguments : List (Argument Expr)}
    (h : ∀ a ∈ arguments, Printed (strength a.value) (unparse decimal a.value) a.value) :
    List.Forall₂ (PrintedItem DerivesArgument SameArgument) (unparseArguments decimal arguments)
      arguments := by
  induction arguments with
  | nil => exact .nil
  | cons a arguments ih =>
    obtain ⟨ha, harguments⟩ := List.forall_mem_cons.1 h
    have hends : ∀ k ∈ [Token.Kind.comma, .rightParen], k ∉ extensions .expression := by decide
    obtain ⟨_ | text, value⟩ := a
    · refine .cons (fun ts hts => ?_) (ih harguments)
      obtain ⟨e', he', hclosed⟩ := ha.exists_closed hts
      exact ⟨⟨none, e'⟩, ⟨rfl, he'⟩, fun rest hrest => .unnamed (hclosed rest (hends _ hrest))⟩
    · refine .cons (fun ts hts => ?_) (ih harguments)
      obtain ⟨t, ts, rfl, ht, hts⟩ := List.map_eq_cons_iff.1 hts
      obtain ⟨colon, ts, rfl, hcolon, hvalue⟩ := List.map_eq_cons_iff.1 hts
      obtain ⟨hname, rfl⟩ := kind_eq_of_piece ht
      obtain ⟨e', he', hclosed⟩ := ha.exists_closed hvalue
      exact ⟨⟨some t.text, e'⟩, ⟨rfl, he'⟩, fun rest hrest =>
        .named hname (kind_eq_of_fixed hcolon) (hclosed rest (hends _ hrest))⟩

/-- A call is printed if the callee and the arguments are. -/
theorem printed_call {decimal : Float → String} {arguments : List (Argument Expr)}
    (h : Printed .members pieces e)
    (harguments : ∀ a ∈ arguments, Printed (strength a.value) (unparse decimal a.value) a.value) :
    Printed .call (pieces ++ enclose (separate (unparseArguments decimal arguments)))
      (.call e arguments p) := by
  intro ts hts
  obtain ⟨ts, tail, rfl, hcallee, hrow⟩ := List.map_eq_append_iff.1 hts
  obtain ⟨e', he', a, before, rfl, hread⟩ := h ts hcallee
  obtain ⟨paren, ts', arguments', rfl, hparen, hsame, hparenthesized⟩ :=
    parenthesized_of_printed (printed_arguments harguments) hrow
  refine ⟨.call (select a before) arguments' (select a before).position, ?_, ?_⟩
  · simp only [Expr.unplaced, he', unplacedArguments_eq hsame]
  · intro rest after rest' hafter _
    obtain ⟨mid, hatom, hmembers⟩ := hread (paren :: (ts' ++ rest))
    have hbefore := hmembers [] _ (.done (by rw [next, hparen]; decide))
    rw [List.append_nil] at hbefore
    rw [List.append_assoc]
    exact .called hatom hbefore hparen (hparenthesized rest) hafter

end Printing

end SnapshotScript
