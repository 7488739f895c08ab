import SnapshotScript.Proofs.Grammar.Agreement
import SnapshotScript.Proofs.Printing.Forms

/-!
# Printed trees are read back

A tree that follows the rules of `Shaped` and `Separated` at all its nodes is printed at its
strength (`printed_of_everywhere`), by induction on the tree.  So the parser reads its pieces as a
program that consists of this tree, wherever the tokens stand.

The rules of `Separated` cannot be left out.  A block whose first item is a `return` without a value
is read as one that returns the next item, and a struct whose name is that of a basic type is read
as this type.
-/

namespace SnapshotScript

namespace Printing

open Grammar

variable {e : Expr} {p : Position} {ts : List Token} {decimal : Float → String}

/-! ### Choices -/

/-- The pieces of what is evaluated if no branch is taken. -/
def unparseOtherwise (decimal : Float → String) : Option Expr → List Piece
  | none => []
  | some e => reserved .el :: fit .logical (strength e) (unparse decimal e)

/-- A choice is its branches, and what is evaluated if none of them is taken. -/
theorem unparse_choice (branches : List (Branch Expr)) (otherwise : Option Expr) :
    unparse decimal (.choice branches otherwise p) =
      unparseBranches decimal .if branches ++ unparseOtherwise decimal otherwise := by
  cases otherwise with
  | none => simp [unparse, unparseOtherwise]
  | some e => simp [unparse, unparseOtherwise]

/-- Choices are the same but for places if their parts are. -/
theorem unplaced_choice {branches branches' : List (Branch Expr)}
    {otherwise otherwise' : Option Expr}
    (p' : Position) (h : Expr.unplacedBranches branches' = Expr.unplacedBranches branches)
    (h' : otherwise'.map Expr.unplaced = otherwise.map Expr.unplaced) :
    (Expr.choice branches' otherwise' p').unplaced =
      (Expr.choice branches otherwise p).unplaced := by
  cases otherwise with
  | none =>
    obtain rfl := Option.map_eq_none_iff.1 h'
    simp only [Expr.unplaced, h]
  | some e =>
    obtain ⟨e', rfl, he⟩ := Option.map_eq_some_iff.1 h'
    simp only [Expr.unplaced, h, he]

/-- Only a block without items is one without its places. -/
theorem not_emptyBlock_of_unplaced {e' : Expr} (h : e'.unplaced = e.unplaced)
    (he : ∀ position, e ≠ .block [] position) (position : Position) : e' ≠ .block [] position := by
  rintro rfl
  cases e with
  | block items p =>
    cases items with
    | nil => exact he p rfl
    | cons item items => simp [Expr.unplaced, Expr.unplacedItems] at h
  | choice branches otherwise p => cases otherwise <;> simp [Expr.unplaced] at h
  | forLoop text first bound step body p => cases step <;> simp [Expr.unplaced] at h
  | returning value p => cases value <;> simp [Expr.unplaced] at h
  | _ => simp [Expr.unplaced] at h

/-- Further branches do not go on with the expression before them. -/
theorem next_branches {branches : List (Branch Expr)} {otherwise : Option Expr}
    (hts : ts.map Token.piece =
      unparseBranches decimal .eli branches ++ unparseOtherwise decimal otherwise)
    {rest : List Token} (hrest : next rest ∉ extensions .expression) :
    next (ts ++ rest) ∉ extensions .expression := by
  have hword : ∀ {k pieces}, ts.map Token.piece = fixed k :: pieces →
      k ∉ extensions .expression → next (ts ++ rest) ∉ extensions .expression := by
    intro k pieces h hk
    obtain ⟨t, ts, rfl, ht, -⟩ := List.map_eq_cons_iff.1 h
    rwa [List.cons_append, next, kind_eq_of_fixed ht]
  cases branches with
  | nil =>
    cases otherwise with
    | none =>
      obtain rfl := List.map_eq_nil_iff.1 hts
      exact hrest
    | some e => exact hword hts (by decide)
  | cons b branches => exact hword hts (by decide)

/-- Further branches are printed. -/
theorem branches_of_printed {branches : List (Branch Expr)} {otherwise : Option Expr}
    (hbranches : ∀ b ∈ branches,
      Printed (strength b.condition) (unparse decimal b.condition) b.condition ∧
        Printed (strength b.body) (unparse decimal b.body) b.body)
    (hconditions : ∀ b ∈ branches, ∀ position, b.condition ≠ .block [] position)
    (hotherwise : ∀ e ∈ otherwise, Printed (strength e) (unparse decimal e) e)
    (hts : ts.map Token.piece =
      unparseBranches decimal .eli branches ++ unparseOtherwise decimal otherwise) :
    ∃ branches' otherwise', Expr.unplacedBranches branches' = Expr.unplacedBranches branches ∧
      otherwise'.map Expr.unplaced = otherwise.map Expr.unplaced ∧
      ∀ rest, next rest ∉ extensions .expression → next rest ≠ .keyword .eli →
        next rest ≠ .keyword .el → Branches (ts ++ rest) branches' otherwise' rest := by
  induction branches generalizing ts with
  | nil =>
    cases otherwise with
    | none =>
      obtain rfl := List.map_eq_nil_iff.1 hts
      exact ⟨[], none, rfl, rfl, fun rest _ heli hel => .done heli hel⟩
    | some e =>
      obtain ⟨word, ts, rfl, hword, hts⟩ := List.map_eq_cons_iff.1 hts
      obtain ⟨e', he', hclosed⟩ := (hotherwise e rfl).exists_closed hts
      exact ⟨[], some e', rfl, by rw [Option.map_some, he']; rfl, fun rest hrest _ _ =>
        .otherwise (kind_eq_of_fixed hword) (hclosed rest hrest)⟩
  | cons b branches ih =>
    obtain ⟨hb, hmore⟩ := List.forall_mem_cons.1 hbranches
    obtain ⟨hcondition, hothers⟩ := List.forall_mem_cons.1 hconditions
    obtain ⟨condition, body⟩ := b
    rw [unparseBranches] at hts
    simp only [List.cons_append, List.append_assoc] at hts
    obtain ⟨word, ts, rfl, hword, hts⟩ := List.map_eq_cons_iff.1 hts
    obtain ⟨condition', ts, word', ts', rfl, hc, hword', hts', hderives⟩ :=
      hb.1.exists_before hts (by decide)
    obtain ⟨ts', tail, rfl, hbody, htail⟩ := List.map_eq_append_iff.1 hts'
    obtain ⟨body', hb', hclosed⟩ := hb.2.exists_closed hbody
    obtain ⟨branches', otherwise', hsame, hsame', hread⟩ := ih hmore hothers htail
    refine ⟨⟨condition', body'⟩ :: branches', otherwise', ?_, hsame', ?_⟩
    · simp only [Expr.unplacedBranches, hc, hb', hsame]
    · intro rest hrest heli hel
      have hbranches := hread rest hrest heli hel
      have hnext := next_branches htail hrest
      simp only [List.cons_append, List.append_assoc]
      exact .more (kind_eq_of_fixed hword) (hderives _) (not_emptyBlock_of_unplaced hc hcondition)
        hword' (hclosed _ hnext) hbranches

theorem printed_choice {branches : List (Branch Expr)} {otherwise : Option Expr}
    (hbranches : ∀ b ∈ branches,
      Printed (strength b.condition) (unparse decimal b.condition) b.condition ∧
        Printed (strength b.body) (unparse decimal b.body) b.body)
    (hotherwise : ∀ e ∈ otherwise, Printed (strength e) (unparse decimal e) e)
    (hshaped : Shaped (.choice branches otherwise p)) :
    Printed .form (unparse decimal (.choice branches otherwise p))
      (.choice branches otherwise p) := by
  obtain ⟨hne, hconditions⟩ := hshaped
  obtain ⟨⟨condition, body⟩, branches, rfl⟩ := List.exists_cons_of_ne_nil hne
  obtain ⟨hb, hmore⟩ := List.forall_mem_cons.1 hbranches
  intro ts hts
  rw [unparse_choice, unparseBranches] at hts
  simp only [List.cons_append, List.append_assoc] at hts
  obtain ⟨t, ts, rfl, ht, hts⟩ := List.map_eq_cons_iff.1 hts
  obtain ⟨condition', ts, word, ts', rfl, hc, hword, hts', hderives⟩ :=
    hb.1.exists_before hts (by decide)
  obtain ⟨ts', tail, rfl, hbody, htail⟩ := List.map_eq_append_iff.1 hts'
  obtain ⟨body', hb', hclosed⟩ := hb.2.exists_closed hbody
  obtain ⟨branches', otherwise', hsame, hsame', hread⟩ :=
    branches_of_printed hmore hconditions hotherwise htail
  refine ⟨.choice (⟨condition', body'⟩ :: branches') otherwise' t.first, ?_, fun rest hrest => ?_⟩
  · refine unplaced_choice _ ?_ hsame'
    simp only [Expr.unplacedBranches, hc, hb', hsame]
  · obtain ⟨hnext, heli, hel⟩ := hrest.not_mem
    have hbranches := hread rest hnext heli hel
    simp only [List.cons_append, List.append_assoc]
    refine derives_of_atom ?_ hnext
    rw [kind_eq_of_fixed ht]
    exact .choice (hderives _) hword (hclosed _ (next_branches htail hnext)) hbranches

/-! ### Blocks -/

/-- An expression that may stand behind another item begins with a token that closes this one. -/
theorem Continues.exists_first (h : Continues e) (hshaped : Shaped e) :
    ∃ piece pieces, unparse decimal e = piece :: pieces ∧ piece.1 ∈ itemBeginnings := by
  have hword : ∀ word pieces, unparse decimal e = reserved word :: pieces →
      Token.Kind.keyword word ∈ itemBeginnings →
      ∃ piece pieces, unparse decimal e = piece :: pieces ∧ piece.1 ∈ itemBeginnings :=
    fun word pieces heq hmem => ⟨_, _, heq, hmem⟩
  cases e with
  | literal value p =>
    refine ⟨literal decimal value, [], by rw [unparse], ?_⟩
    cases value with
    | bool value =>
      cases value with
      | false => exact List.mem_of_elem_eq_true rfl
      | true => exact List.mem_of_elem_eq_true rfl
    | _ => exact List.mem_of_elem_eq_true rfl
  | identifier text p => exact ⟨name text, [], by rw [unparse], List.mem_of_elem_eq_true rfl⟩
  | assign => exact hword .set _ (by rw [unparse]) (by decide)
  | memberSet => exact hword .set _ (by rw [unparse]) (by decide)
  | not => exact hword .not _ (by rw [unparse]) (by decide)
  | choice branches otherwise p =>
    obtain ⟨b, branches, rfl⟩ := List.exists_cons_of_ne_nil hshaped.1
    exact hword .if _ (by rw [unparse_choice, unparseBranches]; rfl) (by decide)
  | forLoop text first bound step body p =>
    cases step with
    | none => exact hword .for _ (by rw [unparse]) (by decide)
    | some step => exact hword .for _ (by rw [unparse]) (by decide)
  | whileLoop => exact hword .while _ (by rw [unparse]) (by decide)
  | function => exact hword .fun _ (by rw [unparse]) (by decide)
  | struct => exact hword .struct _ (by rw [unparse]) (by decide)
  | returning value p =>
    cases value with
    | none => exact h.elim
    | some e => exact hword .return _ (by rw [unparse]) (by decide)
  | _ => exact h.elim

/-- Only a return without a value is one without its places. -/
theorem returningNothing_of_unplaced (h : e.unplaced = .returning none .start) :
    ∃ position, e = .returning none position := by
  cases e with
  | returning value p =>
    cases value with
    | none => exact ⟨p, rfl⟩
    | some e => simp [Expr.unplaced] at h
  | choice branches otherwise p => cases otherwise <;> simp [Expr.unplaced] at h
  | forLoop text first bound step body p => cases step <;> simp [Expr.unplaced] at h
  | _ => simp [Expr.unplaced] at h

/-- Items have as many others without places. -/
theorem length_unplacedItems (items : List Expr) :
    (Expr.unplacedItems items).length = items.length := by
  induction items with
  | nil => rfl
  | cons item items ih => rw [Expr.unplacedItems, List.length_cons, ih, List.length_cons]

/-- An item is closed by the next one, or by a parenthesis if there is none. -/
theorem closes_of_items {item item' : Expr} {items : List Expr}
    (hsame : item'.unplaced = item.unplaced) (hitem : ∀ position, item ≠ .returning none position)
    (hshaped : ∀ item ∈ items, Shaped item) (hcontinues : ∀ item ∈ items, Continues item)
    (hts : ts.map Token.piece = unparseItems decimal items) {rest : List Token}
    (hclose : next rest = .rightParen) : Closes item' (next (ts ++ rest)) := by
  cases items with
  | nil =>
    obtain rfl := List.map_eq_nil_iff.1 hts
    left
    rw [List.nil_append, hclose]
    decide
  | cons item₂ items =>
    obtain ⟨piece, pieces, heq, hmem⟩ := @Continues.exists_first _ decimal
      (hcontinues item₂ List.mem_cons_self) (hshaped item₂ List.mem_cons_self)
    rw [unparseItems, heq, List.cons_append] at hts
    obtain ⟨t, ts, rfl, ht, -⟩ := List.map_eq_cons_iff.1 hts
    right
    constructor
    · rw [List.cons_append, next, (kind_eq_of_piece ht).1]
      exact hmem
    · rw [hsame]
      intro hreturn
      obtain ⟨position, rfl⟩ := returningNothing_of_unplaced hreturn
      exact hitem position rfl

/-- Items side by side are printed. -/
theorem items_of_printed {items : List Expr}
    (hitems : ∀ item ∈ items, Printed (strength item) (unparse decimal item) item)
    (hshaped : ∀ item ∈ items.tail, Shaped item) (htail : ∀ item ∈ items.tail, Continues item)
    (hhead : ∀ position, items.head? ≠ some (.returning none position))
    (hts : ts.map Token.piece = unparseItems decimal items) :
    ∃ items', Expr.unplacedItems items' = Expr.unplacedItems items ∧
      ∀ rest, next rest = .rightParen → Items (ts ++ rest) items' rest := by
  induction items generalizing ts with
  | nil =>
    obtain rfl := List.map_eq_nil_iff.1 hts
    exact ⟨[], rfl, fun rest _ => .done⟩
  | cons item items ih =>
    obtain ⟨hitem, hmore⟩ := List.forall_mem_cons.1 hitems
    rw [unparseItems] at hts
    obtain ⟨ts, ts', rfl, hfirst, hrest⟩ := List.map_eq_append_iff.1 hts
    obtain ⟨item', hsame, hread⟩ := hitem ts hfirst
    have htail' : ∀ i ∈ items.tail, Continues i := fun i hi => htail i (List.mem_of_mem_tail hi)
    have hshaped' : ∀ i ∈ items.tail, Shaped i := fun i hi => hshaped i (List.mem_of_mem_tail hi)
    have hhead' : ∀ position, items.head? ≠ some (.returning none position) := by
      intro position heq
      obtain ⟨items, rfl⟩ := List.head?_eq_some_iff.1 heq
      exact htail _ List.mem_cons_self
    obtain ⟨items', hsame', hread'⟩ := ih hmore hshaped' htail' hhead' hrest
    have hitems : Expr.unplacedItems (item' :: items') = Expr.unplacedItems (item :: items) := by
      simp only [Expr.unplacedItems, hsame, hsame']
    have hreturn : ∀ position, item ≠ .returning none position :=
      fun position heq => hhead position (congrArg some heq)
    refine ⟨item' :: items', hitems, fun rest hclose => ?_⟩
    rw [List.append_assoc]
    exact .more (hread.item (closes_of_items hsame hreturn hshaped htail hrest hclose))
      (hread' rest hclose)

/-- A block is printed if its items are, and no item goes on with the one before it. -/
theorem printed_block {items : List Expr}
    (hitems : ∀ item ∈ items, Printed (strength item) (unparse decimal item) item)
    (hinner : ∀ item ∈ items.tail, Shaped item) (hshaped : Shaped (.block items p))
    (hseparated : Separated (.block items p)) :
    Printed .atom (enclose (unparseItems decimal items)) (.block items p) := by
  intro ts hts
  obtain ⟨first, inner, last, rfl, hfirst, hts, hlast⟩ := exists_enclosed hts
  obtain ⟨items', hsame, hread⟩ := items_of_printed hitems hinner hshaped.2 hseparated hts
  refine ⟨.block items' first.first, by simp only [Expr.unplaced, hsame], fun rest => ?_⟩
  have hlength : items'.length ≠ 1 := by
    rw [← length_unplacedItems, hsame, length_unplacedItems]
    exact hshaped.1
  have hatom : Atom first.kind first (inner ++ last :: rest) (.block items' first.first) rest := by
    rw [hfirst]
    exact .block (hread _ hlast) hlast hlength
  simpa using Derives.atom hatom

/-! ### Trees -/

/-- A tree that follows the rules is printed at its strength. -/
theorem printed_of_everywhere
    (hdecimal : ∀ x text, IsDecimal text x → IsDecimal (decimal x) x)
    (h : e.Everywhere fun e => Shaped e ∧ Separated e) :
    Printed (strength e) (unparse decimal e) e := by
  induction h with
  | @node e hrules hchildren ih =>
    obtain ⟨hshaped, hseparated⟩ := hrules
    cases e with
    | literal value p => exact printed_literal hdecimal hshaped
    | identifier text p => exact printed_identifier text
    | assign text value p => exact printed_assign (ih value (by simp [Expr.children]))
    | binary o left right p =>
      have hleft := ih left (by simp [Expr.children])
      have hright := ih right (by simp [Expr.children])
      exact printed_binary (hleft.fits (by cases o <;> decide))
        (hright.fits (by cases o <;> decide))
    | unary o operand p =>
      exact printed_unary ((ih operand (by simp [Expr.children])).fits (by decide))
    | not operand p => exact printed_not ((ih operand (by simp [Expr.children])).fits (by decide))
    | call callee arguments p =>
      obtain ⟨hcallee, harguments⟩ := Expr.forall_children_call.1 ih
      exact printed_call (hcallee.fits (by decide)) harguments
    | member target text p => exact (ih target (by simp [Expr.children])).member text
    | memberSet target text value p =>
      exact printed_memberSet hshaped (ih value (by simp [Expr.children]))
    | choice branches otherwise p =>
      obtain ⟨hbranches, hotherwise⟩ := Expr.forall_children_choice.1 ih
      exact printed_choice hbranches hotherwise hshaped
    | forLoop text first bound step body p =>
      have hstep : ∀ e ∈ step, Printed (strength e) (unparse decimal e) e := by
        intro e he
        exact ih e (by simp [Expr.children, Option.mem_def.1 he])
      have hfirst := ih first (by simp [Expr.children])
      have hbound := ih bound (by simp [Expr.children])
      exact printed_forLoop hfirst hbound hstep (ih body (by simp [Expr.children]))
    | whileLoop condition body p =>
      exact printed_whileLoop (ih condition (by simp [Expr.children]))
        (ih body (by simp [Expr.children]))
    | function text parameters body p =>
      exact printed_function hshaped (ih body (by simp [Expr.children]))
    | struct text fields p => exact printed_struct hshaped hseparated
    | returning value p =>
      cases value with
      | none => exact printed_returningNothing
      | some e => exact printed_returning (ih e (by simp [Expr.children]))
    | block items p =>
      have hinner : ∀ item ∈ items.tail, Shaped item := by
        intro item hitem
        cases hchildren item (List.mem_of_mem_tail hitem) with
        | node hrules _ => exact hrules.1
      exact printed_block ih hinner hshaped hseparated

/-! ### The end of the input -/

/-- The end of the input is not among the pieces. -/
def Unfinished (pieces : List Piece) : Prop :=
  ∀ piece ∈ pieces, piece.1 ≠ .endOfInput

@[simp] theorem unfinished_nil : Unfinished [] :=
  nofun

@[simp] theorem unfinished_cons {piece : Piece} {pieces : List Piece} :
    Unfinished (piece :: pieces) ↔ piece.1 ≠ .endOfInput ∧ Unfinished pieces :=
  List.forall_mem_cons

@[simp] theorem unfinished_append {pieces pieces' : List Piece} :
    Unfinished (pieces ++ pieces') ↔ Unfinished pieces ∧ Unfinished pieces' :=
  List.forall_mem_append

@[simp] theorem unfinished_enclose {pieces : List Piece} :
    Unfinished (enclose pieces) ↔ Unfinished pieces := by
  simp [enclose]

@[simp] theorem unfinished_fit {needed actual : Strength} {pieces : List Piece} :
    Unfinished (fit needed actual pieces) ↔ Unfinished pieces := by
  unfold fit
  split
  · rfl
  · exact unfinished_enclose

theorem unfinished_separate {groups : List (List Piece)} (h : ∀ g ∈ groups, Unfinished g) :
    Unfinished (separate groups) := by
  induction groups with
  | nil => exact unfinished_nil
  | cons g groups ih =>
    obtain ⟨hg, hgroups⟩ := List.forall_mem_cons.1 h
    cases groups with
    | nil => simpa [separate] using hg
    | cons g' groups =>
      have hmore := ih hgroups
      unfold separate at hmore ⊢
      rw [List.intercalate_cons_cons]
      simp [hg, hmore]

theorem unfinished_arguments {arguments : List (Argument Expr)}
    (h : ∀ a ∈ arguments, Unfinished (unparse decimal a.value)) :
    ∀ g ∈ unparseArguments decimal arguments, Unfinished g := by
  induction arguments with
  | nil => exact nofun
  | cons a arguments ih =>
    obtain ⟨ha, harguments⟩ := List.forall_mem_cons.1 h
    obtain ⟨_ | text, value⟩ := a
    · exact List.forall_mem_cons.2 ⟨by simpa using ha, ih harguments⟩
    · exact List.forall_mem_cons.2 ⟨by simpa using ha, ih harguments⟩

theorem unfinished_items {items : List Expr}
    (h : ∀ item ∈ items, Unfinished (unparse decimal item)) :
    Unfinished (unparseItems decimal items) := by
  induction items with
  | nil => exact unfinished_nil
  | cons item items ih =>
    obtain ⟨hitem, hitems⟩ := List.forall_mem_cons.1 h
    exact unfinished_append.2 ⟨hitem, ih hitems⟩

theorem unfinished_branches {branches : List (Branch Expr)} (word : Keyword)
    (h : ∀ b ∈ branches, Unfinished (unparse decimal b.condition) ∧
      Unfinished (unparse decimal b.body)) :
    Unfinished (unparseBranches decimal word branches) := by
  induction branches generalizing word with
  | nil => exact unfinished_nil
  | cons b branches ih =>
    obtain ⟨hb, hbranches⟩ := List.forall_mem_cons.1 h
    simp [unparseBranches, hb, ih .eli hbranches]

/-- The pieces of an expression are unfinished. -/
theorem unfinished_unparse {P : Expr → Prop} (h : e.Everywhere P) :
    Unfinished (unparse decimal e) := by
  induction h with
  | @node e _ _ ih =>
    cases e with
    | literal value p =>
      cases value with
      | bool value => cases value <;> simp [unparse, literal]
      | _ => simp [unparse, literal]
    | binary o left right p =>
      have hsign : (infixForm o).sign ≠ .endOfInput := by cases o <;> decide
      simpa [unparse, hsign] using
        And.intro (ih left (by simp [Expr.children])) (ih right (by simp [Expr.children]))
    | unary o operand p =>
      have hsign : prefixSign o ≠ .endOfInput := by cases o <;> decide
      simpa [unparse, hsign] using ih operand (by simp [Expr.children])
    | call callee arguments p =>
      obtain ⟨hcallee, harguments⟩ := Expr.forall_children_call.1 ih
      simp [unparse, hcallee, unfinished_separate (unfinished_arguments harguments)]
    | choice branches otherwise p =>
      obtain ⟨hbranches, hotherwise⟩ := Expr.forall_children_choice.1 ih
      have hfirst := unfinished_branches .if hbranches
      cases otherwise with
      | none => simpa [unparse] using hfirst
      | some e => simp [unparse, hfirst, hotherwise e rfl]
    | forLoop text first bound step body p =>
      have hfirst := ih first (by simp [Expr.children])
      have hbound := ih bound (by simp [Expr.children])
      have hbody := ih body (by simp [Expr.children])
      cases step with
      | none => simp [unparse, hfirst, hbound, hbody]
      | some step =>
        have hstep := ih step (by simp [Expr.children])
        simp [unparse, hfirst, hbound, hbody, hstep]
    | function text parameters body p =>
      have hbody := ih body (by simp [Expr.children])
      have hparameters : Unfinished (separate (parameters.map fun text => [name text])) := by
        refine unfinished_separate fun g hg => ?_
        obtain ⟨text, -, rfl⟩ := List.mem_map.1 hg
        simp
      cases text <;> simp [unparse, definedName, hparameters, hbody]
    | struct text fields p =>
      have hfields : Unfinished (separate (fields.map field)) := by
        refine unfinished_separate fun g hg => ?_
        obtain ⟨f, -, rfl⟩ := List.mem_map.1 hg
        have htag : (tag f.tag).1 ≠ .endOfInput := by
          cases f.tag <;> simp [tag]
        simp [field, htag]
      cases text <;> simp [unparse, definedName, hfields]
    | returning value p =>
      cases value with
      | none => simp [unparse]
      | some e => simp [unparse, ih e (by simp [Expr.children])]
    | block items p =>
      have hitems : Unfinished (unparseItems decimal items) := unfinished_items ih
      simpa [unparse] using hitems
    | _ => simp_all [unparse, Expr.children]

/-- Each number that some decimal denotes can be given one of its decimals. -/
theorem exists_decimal :
    ∃ decimal : Float → String, ∀ x text, IsDecimal text x → IsDecimal (decimal x) x := by
  have hdecimal : ∀ x, ∃ decimal, ∀ text, IsDecimal text x → IsDecimal decimal x := by
    intro x
    by_cases h : ∃ text, IsDecimal text x
    · obtain ⟨text, h⟩ := h
      exact ⟨text, fun _ _ => h⟩
    · exact ⟨"", fun text htext => absurd ⟨text, htext⟩ h⟩
  choose decimal hdecimal using hdecimal
  exact ⟨decimal, hdecimal⟩

end Printing

open Printing in
/-- Printing a tree and parsing the tokens gives the tree back, but for its places.  The tokens may
stand anywhere, and the texts of floating-point numbers may be chosen among those that denote
them. -/
theorem parse_unparse {decimal : Float → String}
    (hdecimal : ∀ x text, IsDecimal text x → IsDecimal (decimal x) x) {e : Expr}
    (hshaped : e.Everywhere Shaped) (hseparated : e.Everywhere Separated) {tokens : List Token}
    (htokens : tokens.map Token.piece = unparse decimal e) {stop : Token}
    (hstop : stop.kind = .endOfInput) :
    ∃ (e' : Expr) (position : Position),
      parseTokens (tokens ++ [stop]) = .ok (.block [e'] position) ∧ e'.unplaced = e.unplaced := by
  have hprinted := printed_of_everywhere hdecimal (hshaped.and hseparated)
  obtain ⟨e', hsame, hreads⟩ := hprinted tokens htokens
  have hitems : Grammar.Items tokens [e'] [] := by
    have hitem : Grammar.Derives .expression (tokens ++ []) e' [] :=
      hreads.item (.inl (by decide))
    rw [List.append_nil] at hitem
    exact .more hitem .done
  have hlive : ∀ t ∈ tokens, decide (t.kind ≠ .endOfInput) = true := by
    intro t ht
    have hpiece : t.piece ∈ unparse decimal e := htokens ▸ List.mem_map_of_mem ht
    exact decide_eq_true (unfinished_unparse hshaped t.piece hpiece)
  have hbefore : (tokens ++ [stop]).takeWhile (·.kind ≠ .endOfInput) = tokens := by
    rw [List.takeWhile_append_of_pos hlive, List.takeWhile_cons, hstop]
    simp
  have hprogram : Grammar.Items (TokenStream.ofTokens (tokens ++ [stop])).rest [e'] [] := by
    rw [← hbefore] at hitems
    exact hitems
  exact ⟨e', _, parseTokens_eq_ok.2 ⟨_, Program.parse_reads.eq_ok ⟨_, hprogram, rfl, rfl⟩⟩, hsame⟩

open Printing in
/-- A sum is set in parentheses as a factor of a product. -/
theorem parse_unparse_product :
    ∃ (tokens : List Token) (e' : Expr) (position : Position),
      tokens.map Token.text = ["(", "a", "+", "b", ")", "*", "c"] ∧
      parseTokens (tokens ++ [.endAt .start]) = .ok (.block [e'] position) ∧
      e'.unplaced = .binary .multiply
        (.binary .add (.identifier "a" .start) (.identifier "b" .start) .start)
        (.identifier "c" .start) .start := by
  obtain ⟨decimal, hdecimal⟩ := exists_decimal
  have hname : ∀ {P : Expr → Prop} text, P (.identifier text .start) →
      (Expr.identifier text .start).Everywhere P := fun text h => .leaf h rfl
  have hsum : ∀ {P : Expr → Prop} {o left right}, P (.binary o left right .start) →
      left.Everywhere P → right.Everywhere P → (Expr.binary o left right .start).Everywhere P := by
    intro P o left right h hleft hright
    refine .node h fun c hc => ?_
    simp only [Expr.children, List.mem_cons, List.not_mem_nil, or_false] at hc
    rcases hc with rfl | rfl
    · exact hleft
    · exact hright
  have hshaped := hsum (P := Shaped) (o := .multiply) trivial
    (hsum (o := .add) trivial (hname "a" trivial) (hname "b" trivial)) (hname "c" trivial)
  have hseparated := hsum (P := Separated) (o := .multiply) trivial
    (hsum (o := .add) trivial (hname "a" trivial) (hname "b" trivial)) (hname "c" trivial)
  have htokens : List.map Token.piece
      [⟨.leftParen, "(", .start, .start⟩, ⟨.identifier, "a", .start, .start⟩,
        ⟨.plus, "+", .start, .start⟩, ⟨.identifier, "b", .start, .start⟩,
        ⟨.rightParen, ")", .start, .start⟩, ⟨.times, "*", .start, .start⟩,
        ⟨.identifier, "c", .start, .start⟩] =
      unparse decimal (.binary .multiply
        (.binary .add (.identifier "a" .start) (.identifier "b" .start) .start)
        (.identifier "c" .start) .start) := rfl
  have hstop : (Token.endAt .start).kind = .endOfInput := rfl
  obtain ⟨e', position, hparse, hsame⟩ := parse_unparse hdecimal hshaped hseparated htokens hstop
  exact ⟨_, e', position, rfl, hparse, hsame⟩

open Printing in
/-- The rules of `Separated` cannot be left out: a `return` takes the next item of a block for its
value, and a struct with the name of a basic type is taken for that type. -/
theorem parse_unparse_not_separated :
    (∃ tokens : List Token,
      (Expr.block [.returning none .start, .identifier "x" .start] .start).Everywhere Shaped ∧
      (∀ decimal, tokens.map Token.piece =
        unparse decimal (.block [.returning none .start, .identifier "x" .start] .start)) ∧
      parseTokens (tokens ++ [.endAt .start]) =
        .ok (.block [.returning (some (.identifier "x" .start)) .start] .start)) ∧
    (∃ tokens : List Token,
      (Expr.struct (some "S") [⟨"a", .struct "int"⟩] .start).Everywhere Shaped ∧
      (∀ decimal, tokens.map Token.piece =
        unparse decimal (.struct (some "S") [⟨"a", .struct "int"⟩] .start)) ∧
      parseTokens (tokens ++ [.endAt .start]) =
        .ok (.block [.struct (some "S") [⟨"a", .int⟩] .start] .start)) := by
  constructor
  · refine ⟨[⟨.leftParen, "(", .start, .start⟩, ⟨.keyword .return, "return", .start, .start⟩,
      ⟨.identifier, "x", .start, .start⟩, ⟨.rightParen, ")", .start, .start⟩], ?_, ?_, ?_⟩
    · refine .node ⟨by decide, by simp [Continues]⟩ fun c hc => ?_
      simp only [Expr.children, List.mem_cons, List.not_mem_nil, or_false] at hc
      rcases hc with rfl | rfl
      · exact .leaf trivial rfl
      · exact .leaf trivial rfl
    · exact fun decimal => rfl
    · rfl
  · refine ⟨[⟨.keyword .struct, "struct", .start, .start⟩, ⟨.identifier, "S", .start, .start⟩,
      ⟨.leftParen, "(", .start, .start⟩, ⟨.identifier, "a", .start, .start⟩,
      ⟨.colon, ":", .start, .start⟩, ⟨.identifier, "int", .start, .start⟩,
      ⟨.rightParen, ")", .start, .start⟩], ?_, ?_, ?_⟩
    · exact .leaf (by simp [Shaped]) rfl
    · exact fun decimal => rfl
    · rfl

end SnapshotScript
