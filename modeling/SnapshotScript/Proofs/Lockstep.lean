import SnapshotScript.Proofs.Simulation

/-!
# Expressions in step

With a lawful link every form of expression has corresponding outcomes in corresponding states, if
the expressions inside of it have.  So all expressions have, whatever the number of steps.
-/

namespace SnapshotScript

namespace Link

open Evaluation

variable {W σ κ σ' κ' : Type} [Preorder W] {L : Link W σ κ σ' κ'} {w : W}
  {recur : Expr → Action σ κ (Value κ)} {recur' : Expr → Action σ' κ' (Value κ')}

omit [Preorder W] in
/-- The body of a function begins with bindings that correspond. -/
theorem parameterBindings_related {f : Function κ} {k : κ'} {as : List (Supplied κ)}
    {as' : List (Supplied κ')}
    (hf : L.values w (.function f) (.function ⟨f.id, f.name, f.parameters, f.body, k⟩))
    (has : List.Forall₂ (L.arguments w) as as') :
    List.Forall₂ (L.bindings w) (parameterBindings f as)
      (parameterBindings ⟨f.id, f.name, f.parameters, f.body, k⟩ as') := by
  have hzip : ∀ names : List String, List.Forall₂ (L.bindings w)
      (names.zip (as.map Supplied.value)) (names.zip (as'.map Supplied.value)) := by
    intro names
    induction has generalizing names with
    | nil => cases names <;> exact .nil
    | cons ha _ ih =>
      cases names with
      | nil => exact .nil
      | cons name names => exact .cons ⟨rfl, ha.2.1⟩ (ih names)
  unfold parameterBindings
  cases hname : f.name with
  | none => exact hzip f.parameters
  | some name =>
    rw [hname] at hf
    exact .cons ⟨rfl, hf⟩ (hzip f.parameters)

namespace Lawful

variable [Runtime σ κ] [Runtime σ' κ'] (hL : L.Lawful) {limit steps : Nat}

include hL

section Forms

variable (h : ∀ w e, L.code w e → L.Simulates w L.values (recur e) (recur' e))

include h

theorem sequence_simulates {es : List Expr} (hes : ∀ e ∈ es, L.code w e) {last : Value κ}
    {last' : Value κ'} (hlast : L.values w last last') :
    L.Simulates w L.values (sequence recur last es) (sequence recur' last' es) := by
  induction es generalizing w last last' with
  | nil => exact .pure hlast
  | cons e es ih =>
    refine (h w e (hes e List.mem_cons_self)).bind fun w' v v' hle hv => ?_
    exact ih (fun e he => hL.code_mono hle (hes e (List.mem_cons_of_mem _ he))) hv

theorem supply_simulates {as : List (Argument Expr)} (has : ∀ a ∈ as, L.code w a.value) :
    L.Simulates w (fun w => List.Forall₂ (L.arguments w)) (supply recur as)
      (supply recur' as) := by
  induction as generalizing w with
  | nil => exact .pure .nil
  | cons a as ih =>
    refine (h w a.value (has a List.mem_cons_self)).bind fun w' v v' h₁ hv => ?_
    refine (ih fun a ha => hL.code_mono h₁ (has a (List.mem_cons_of_mem _ ha))).bind
      fun w'' more more' hle hmore => ?_
    exact .pure (.cons ⟨rfl, hL.carries hle _ _ hv, rfl⟩ hmore)

theorem choose_simulates {otherwise : Option Expr} {branches : List (Branch Expr)}
    (hbranches : ∀ b ∈ branches, L.code w b.condition ∧ L.code w b.body)
    (hotherwise : ∀ e ∈ otherwise, L.code w e) :
    L.Simulates w L.values (choose recur otherwise branches)
      (choose recur' otherwise branches) := by
  induction branches generalizing w with
  | nil =>
    cases otherwise with
    | none => exact .pure (hL.plain (u := .null) trivial)
    | some body => exact h w body (hotherwise body rfl)
  | cons b branches ih =>
    obtain ⟨hcondition, hbody⟩ := hbranches b List.mem_cons_self
    refine (h w b.condition hcondition).bind fun w' v v' hle hv => ?_
    rw [hv.1.truthy]
    split
    · exact h w' b.body (hL.code_mono hle hbody)
    · refine ih (fun b hb => ?_) fun e he => hL.code_mono hle (hotherwise e he)
      obtain ⟨hcondition, hbody⟩ := hbranches b (List.mem_cons_of_mem _ hb)
      exact ⟨hL.code_mono hle hcondition, hL.code_mono hle hbody⟩

theorem whileRounds_simulates {condition body : Expr} (hcondition : L.code w condition)
    (hbody : L.code w body) (rounds : Nat) {last : Value κ} {last' : Value κ'}
    (hlast : L.values w last last') :
    L.Simulates w L.values (whileRounds recur condition body rounds last)
      (whileRounds recur' condition body rounds last') := by
  induction rounds generalizing w last last' with
  | zero => exact exhausted_simulates
  | succ rounds ih =>
    refine (h w condition hcondition).bind fun w' v v' hle hv => ?_
    rw [hv.1.truthy]
    split
    · refine (h w' body (hL.code_mono hle hbody)).bind fun w'' last last' hle' hlast => ?_
      have hlater := le_trans hle hle'
      exact ih (hL.code_mono hlater hcondition) (hL.code_mono hlater hbody) hlast
    · exact .pure (hL.carries hle _ _ hlast)

theorem loopStep_simulates {loop : Loop κ} {loop' : Loop κ'} (hstep : ∀ e ∈ loop.step, L.code w e)
    (hsame : loop'.step = loop.step) (hdefault : loop'.defaultStep = loop.defaultStep) :
    L.Simulates w L.values (loopStep recur loop) (loopStep recur' loop') := by
  unfold loopStep
  rw [hsame, hdefault]
  cases hs : loop.step with
  | none => exact .pure (hL.plain (u := .int loop.defaultStep) trivial)
  | some e => exact h w e (hstep e hs)

theorem forRounds_simulates (loop : Loop κ) {bound : Value κ'} (hbody : L.code w loop.body)
    (hstep : ∀ e ∈ loop.step, L.code w e) (hbound : L.values w loop.bound bound) (rounds : Nat)
    (direction : Ordering) {counter last : Value κ} {counter' last' : Value κ'}
    (hcounter : L.values w counter counter') (hlast : L.values w last last') :
    L.Simulates w L.values (forRounds recur loop rounds direction counter last)
      (forRounds recur' ⟨loop.name, bound, loop.step, loop.defaultStep, loop.body, loop.position⟩
        rounds direction counter' last') := by
  induction rounds generalizing w direction counter last counter' last' with
  | zero => exact exhausted_simulates
  | succ rounds ih =>
    unfold forRounds
    rw [hcounter.1.compareNumbers? hbound.1]
    split
    · refine (hL.define_simulates loop.name hcounter).bind fun w₁ _ _ h₁ _ => ?_
      refine (h w₁ loop.body (hL.code_mono h₁ hbody)).bind fun w₂ last last' h₂ hlast => ?_
      have hstep₂ : ∀ e ∈ loop.step, L.code w₂ e :=
        fun e he => hL.code_mono (le_trans h₁ h₂) (hstep e he)
      refine (hL.loopStep_simulates h hstep₂ rfl rfl).bind fun w₃ step step' h₃ hvalue => ?_
      refine (hL.stepDirection_simulates loop.position hvalue).bind fun w₄ d d' h₄ hd => ?_
      cases hd
      refine (hL.lookupHere_simulates loop.name).bind fun w₅ held held' h₅ hheld => ?_
      have h₁₅ : w ≤ w₅ := le_trans h₁ (le_trans h₂ (le_trans h₃ (le_trans h₄ h₅)))
      have hold : L.values w₅ (held.getD counter) (held'.getD counter') := by
        cases hheld with
        | none => exact hL.carries h₁₅ _ _ hcounter
        | some hv => exact hv
      have hvalue₅ : L.values w₅ step step' := hL.carries (le_trans h₄ h₅) _ _ hvalue
      refine (hL.binary_simulates .add loop.position hold hvalue₅).bind
        fun w₆ next next' h₆ hnext => ?_
      rw [hnext.1.isNumber]
      split
      · have h₁₆ : w ≤ w₆ := le_trans h₁₅ h₆
        refine ih (hL.code_mono h₁₆ hbody) (fun e he => hL.code_mono h₁₆ (hstep e he))
          (hL.carries h₁₆ _ _ hbound) d hnext ?_
        exact hL.carries (le_trans h₃ (le_trans h₄ (le_trans h₅ h₆))) _ _ hlast
      · exact hL.fail _ _
    · exact .pure hlast

theorem forLoop_simulates (name : String) {first bound : Value κ} {first' bound' : Value κ'}
    {step : Option Expr} {body : Expr} {start stop : Expr} (position : Position)
    (hcode : L.code w (.forLoop name start stop step body position))
    (hfirst : L.values w first first') (hbound : L.values w bound bound') :
    L.Simulates w L.values (forLoop recur steps name first bound step body position)
      (forLoop recur' steps name first' bound' step body position) := by
  unfold forLoop
  rw [hfirst.1.isNumber, hbound.1.isNumber, hbound.1.compareNumbers? hfirst.1,
    hfirst.1.typeName, hbound.1.typeName]
  split
  · refine hL.inFrame_simulates hcode fun w' hcarry hopened => ?_
    refine hL.forRounds_simulates h ⟨name, bound, step, _, body, position⟩
      (hopened body List.mem_cons_self) (fun e he => hopened e ?_)
      (hcarry _ _ hbound) steps _ (hcarry _ _ hfirst) (hL.plain (u := .null) trivial)
    exact List.mem_cons_of_mem _ (Option.mem_toList.2 he)
  · exact hL.fail _ _

omit h in
theorem refuseNames_simulates (callee : String) {as : List (Supplied κ)}
    {as' : List (Supplied κ')} (has : List.Forall₂ (L.arguments w) as as') :
    L.Simulates w (fun _ _ _ => True) (refuseNames (σ := σ) callee as)
      (refuseNames (σ := σ') callee as') := by
  obtain ⟨joint, rfl, rfl⟩ := exists_joint_arguments has
  have hfind : ∀ {κ : Type} (g : Value.Joint (L.places w) → κ),
      (joint.map (Supplied.map g)).find? (fun a => a.name.isSome) =
        (joint.find? fun a => a.name.isSome).map (Supplied.map g) := by
    intro κ g
    rw [List.find?_map]
    rfl
  unfold refuseNames
  rw [hfind, hfind]
  cases joint.find? fun a => a.name.isSome with
  | none => exact .pure trivial
  | some a => exact hL.fail _ _

theorem callFunction_simulates {f : Function κ} {k : κ'} {as : List (Supplied κ)}
    {as' : List (Supplied κ')} (position : Position)
    (hf : L.values w (.function f) (.function ⟨f.id, f.name, f.parameters, f.body, k⟩))
    (has : List.Forall₂ (L.arguments w) as as') :
    L.Simulates w L.values (callFunction recur limit f as position)
      (callFunction recur' limit ⟨f.id, f.name, f.parameters, f.body, k⟩ as' position) := by
  unfold callFunction
  rw [has.length_eq]
  refine (hL.refuseNames_simulates _ has).bind fun w₁ _ _ h₁ _ => ?_
  split
  · exact hL.fail _ _
  · refine hL.depth_simulates.bind fun w₂ n n' h₂ hn => ?_
    cases hn
    split
    · exact hL.fail _ _
    · have hf' := hL.carries (le_trans h₁ h₂) _ _ hf
      have has' := hL.arguments_mono (le_trans h₁ h₂) has
      exact hL.inCall_simulates position hf' (parameterBindings_related hf' has')
        fun w' hbody => h w' f.body hbody

omit h in
theorem callBuiltin_simulates (b : Builtin) {as : List (Supplied κ)} {as' : List (Supplied κ')}
    (position : Position) (has : List.Forall₂ (L.arguments w) as as') :
    L.Simulates w L.values (callBuiltin (σ := σ) b as position)
      (callBuiltin (σ := σ') b as' position) := by
  refine (hL.refuseNames_simulates _ has).bind fun w₁ _ _ h₁ _ => ?_
  refine hL.cells_simulates.bind fun w₂ cells cells' h₂ hcells => ?_
  obtain ⟨jointCells, rfl, rfl⟩ := hcells
  obtain ⟨joint, rfl, rfl⟩ := exists_joint_arguments (hL.arguments_mono (le_trans h₁ h₂) has)
  have hvalues : ∀ {κ : Type} (g : Value.Joint (L.places w₂) → κ),
      (joint.map (Supplied.map g)).map Supplied.value =
        (joint.map Supplied.value).map (Value.map g) := by
    intro κ g
    simp only [List.map_map]
    rfl
  have hrun : L.Simulates w₂
      (fun w (r : Value κ × Option String) (r' : Value κ' × Option String) =>
        L.values w r.1 r'.1 ∧ r.2 = r'.2)
      (Action.ofExcept position (b.run (Cells.map Value.Joint.left jointCells)
        ((joint.map (Supplied.map Value.Joint.left)).map Supplied.value)))
      (Action.ofExcept position (b.run (Cells.map Value.Joint.right jointCells)
        ((joint.map (Supplied.map Value.Joint.right)).map Supplied.value))) := by
    rw [hvalues, hvalues, Builtin.run_map, Builtin.run_map]
    exact hL.ofExcept position _ fun c hc => ⟨hL.plain (Builtin.run_plain hc), rfl⟩
  refine hrun.bind fun w₃ ⟨r, text⟩ ⟨r', text'⟩ _ hr => ?_
  obtain ⟨hr, htext⟩ := hr
  cases htext
  refine (hL.print_simulates text).bind fun w₄ _ _ h₄ _ => ?_
  exact .pure (hL.carries h₄ _ _ hr)

omit h in
theorem construct_simulates {type : StructType} {as : List (Supplied κ)}
    {as' : List (Supplied κ')} (position : Position) (htype : L.sound w (.structType type))
    (has : List.Forall₂ (L.arguments w) as as') :
    L.Simulates w L.values (construct (σ := σ) type as position)
      (construct (σ := σ') type as' position) := by
  have hsound : ∀ a ∈ as, L.sound w a.value :=
    ((List.forall₂_and_left _ _).1 (has.imp fun _ _ ha => ⟨ha.2.1.2, ha⟩)).1
  obtain ⟨joint, hjoint, hjoint'⟩ := exists_joint_arguments has
  have hleft := StructType.construct_map Value.Joint.left type joint position
  have hright := StructType.construct_map Value.Joint.right type joint position
  rw [hjoint] at hleft
  rw [hjoint'] at hright
  unfold construct
  cases hvalues : type.construct joint position with
  | error e =>
    rw [hvalues] at hleft hright
    rw [hleft, hright]
    exact hL.fail _ _
  | ok values =>
    rw [hvalues] at hleft hright
    rw [hleft, hright]
    obtain ⟨hfits, hmem⟩ := StructType.construct_spec hleft
    refine hL.makeObject_simulates htype hfits (List.forall₂_map_left_iff.2 ?_)
    refine List.forall₂_map_right_iff.2 (List.forall₂_same.2 fun u hu => ⟨⟨u, rfl, rfl⟩, ?_⟩)
    rcases hmem _ (List.mem_map_of_mem hu) with hplain | ⟨a, ha, heq⟩
    · exact hL.sound_plain hplain
    · rw [heq]
      exact hsound a ha

theorem call_simulates {callee : Value κ} {callee' : Value κ'} {as : List (Supplied κ)}
    {as' : List (Supplied κ')} (position : Position) (hcallee : L.values w callee callee')
    (has : List.Forall₂ (L.arguments w) as as') :
    L.Simulates w L.values (Evaluation.call recur limit callee as position)
      (Evaluation.call recur' limit callee' as' position) := by
  cases callee with
  | function f =>
    obtain ⟨k, -, rfl⟩ := hcallee.1.function
    exact hL.callFunction_simulates h position hcallee has
  | _ =>
    obtain ⟨⟨u, hu, rfl⟩, hsound⟩ := hcallee
    cases u <;> cases hu
    first
      | exact hL.callBuiltin_simulates _ position has
      | exact hL.construct_simulates position hsound has
      | exact hL.fail _ _

omit h in
theorem expectObject_simulates {v : Value κ} {v' : Value κ'} (field : String)
    (position : Position) (hv : L.values w v v') :
    L.Simulates w (fun w o o' => o = o' ∧ L.sound w (.object o.1 o.2))
      (expectObject (σ := σ) v field position) (expectObject (σ := σ') v' field position) := by
  obtain ⟨⟨u, rfl, rfl⟩, hsound⟩ := hv
  cases u with
  | object type cell => exact .pure ⟨rfl, hsound⟩
  | _ => exact hL.fail _ _

omit h in
theorem member_simulates {v : Value κ} {v' : Value κ'} (field : String) (position : Position)
    (hv : L.values w v v') :
    L.Simulates w L.values (member (σ := σ) v field position)
      (member (σ := σ') v' field position) := by
  refine (hL.expectObject_simulates field position hv).bind fun w₁ o o' _ ho => ?_
  obtain ⟨type, cell⟩ := o
  obtain ⟨rfl, hsound⟩ := ho
  dsimp only
  split
  · exact hL.fail _ _
  · next i hi =>
    have hread : L.Simulates w₁ (fun w => Option.Rel (L.values w))
        (Action.readField (σ := σ) cell i) (Action.readField (σ := σ') cell i) :=
      modifyGet_simulates fun _ _ hs => hL.readField hs hsound hi
    refine hread.bind fun w₂ held held' _ hheld => ?_
    cases hheld with
    | none => exact hL.fail _ _
    | some hv => exact .pure hv

omit h in
theorem setMember_simulates {type : StructType} {cell : CellId} {v : Value κ} {v' : Value κ'}
    (field : String) (position : Position) (hobject : L.sound w (.object type cell))
    (hv : L.values w v v') :
    L.Simulates w L.values (setMember (σ := σ) type cell field v position)
      (setMember (σ := σ') type cell field v' position) := by
  unfold setMember
  split
  · exact hL.fail _ _
  · next i hi =>
    split
    · exact hL.fail _ _
    · next f hf =>
      have hconform : L.Simulates w
          (fun w u u' => u.conform? f.tag = some u ∧ L.values w u u')
          (Action.ofExcept (σ := σ) position (type.conformField f v))
          (Action.ofExcept (σ := σ') position (type.conformField f v')) := by
        obtain ⟨⟨u, rfl, rfl⟩, hsound⟩ := hv
        rw [StructType.conformField_map, StructType.conformField_map]
        refine hL.ofExcept position _ fun c hc => ?_
        have hleft : type.conformField f (u.map Value.Joint.left) =
            .ok (c.map Value.Joint.left) := by
          rw [StructType.conformField_map, hc]
          rfl
        have hholds := StructType.conform?_of_conformField hleft
        refine ⟨Value.conform?_conform? hholds, ⟨c, rfl, rfl⟩, ?_⟩
        rcases Value.eq_or_plain_of_conform? hholds with heq | hplain
        · rw [heq]
          exact hsound
        · exact hL.sound_plain hplain
      refine hconform.bind fun w₁ u u' h₁ hu => ?_
      have hwrite : L.Simulates w₁ (fun _ _ _ => True) (Action.writeField (σ := σ) cell i u)
          (Action.writeField (σ := σ') cell i u') :=
        modify_simulates fun _ _ hs =>
          hL.writeField hs (hL.sound_mono h₁ hobject) hf hu.1 hu.2
      exact hwrite.bind fun w₂ _ _ h₂ _ => .pure (hL.carries h₂ _ _ hu.2)

theorem assigned_simulates {name : String} {value : Expr} {position : Position}
    (hcode : L.code w (.assign name value position)) :
    L.Simulates w L.values (assigned recur name value) (assigned recur' name value) := by
  have hvalue : L.code w value := hL.code_level hcode List.mem_cons_self
  unfold assigned
  split
  · exact hL.makeFunction_simulates hvalue _
  · exact hL.makeStruct_simulates hcode .assign
  · exact h w _ hvalue

/-- Every form of expression has corresponding outcomes, if the expressions inside of it have. -/
theorem node_simulates {e : Expr} (he : L.code w e) :
    L.Simulates w L.values (node recur limit steps e) (node recur' limit steps e) := by
  have hcode : ∀ c ∈ e.level, L.code w c := fun c hc => hL.code_level he hc
  have hchild : ∀ w', w ≤ w' → ∀ c ∈ e.level, L.Simulates w' L.values (recur c) (recur' c) :=
    fun w' hle c hc => h w' c (hL.code_mono hle (hcode c hc))
  cases e with
  | literal value position =>
    refine .pure ?_
    have hplain := hL.plain (w := w) (u := value.toValue) value.toValue_plain
    rwa [Literal.toValue_map, Literal.toValue_map] at hplain
  | identifier name position =>
    refine (hL.lookup_simulates name).bind fun w' held held' _ hheld => ?_
    cases hheld with
    | none => exact hL.fail _ _
    | some hv => exact .pure hv
  | assign name value position =>
    refine (hL.assigned_simulates h he).bind fun w' v v' _ hv => ?_
    exact (hL.define_simulates name hv).bind fun w'' _ _ hle _ => .pure (hL.carries hle _ _ hv)
  | binary operator left right position =>
    have hleft := hchild w (le_refl w) left (by simp [Expr.level, Expr.children])
    have hright : ∀ w', w ≤ w' → L.Simulates w' L.values (recur right) (recur' right) :=
      fun w' hle => hchild w' hle right (by simp [Expr.level, Expr.children])
    have hbool : ∀ w b, L.values w (.bool b) (.bool b) :=
      fun w b => hL.plain (u := .bool b) trivial
    cases operator with
    | and =>
      refine hleft.bind fun w' v v' hle hv => ?_
      rw [hv.1.truthy]
      split
      · refine (hright w' hle).bind fun w'' u u' _ hu => .pure ?_
        rw [hu.1.truthy]
        exact hbool w'' _
      · exact .pure (hbool w' _)
    | or =>
      refine hleft.bind fun w' v v' hle hv => ?_
      rw [hv.1.truthy]
      split
      · exact .pure (hbool w' _)
      · refine (hright w' hle).bind fun w'' u u' _ hu => .pure ?_
        rw [hu.1.truthy]
        exact hbool w'' _
    | _ =>
      exact hleft.bind fun w' v v' hle hv => (hright w' hle).bind fun w'' u u' hle' hu =>
        hL.binary_simulates _ position (hL.carries hle' _ _ hv) hu
  | unary operator operand position =>
    exact (hchild w (le_refl w) operand List.mem_cons_self).bind fun w' v v' _ hv =>
      hL.unary_simulates operator position hv
  | not operand position =>
    refine (hchild w (le_refl w) operand List.mem_cons_self).bind fun w' v v' _ hv => .pure ?_
    rw [hv.1.truthy]
    exact hL.plain (u := .bool !v'.truthy) trivial
  | call callee arguments position =>
    refine (hchild w (le_refl w) callee List.mem_cons_self).bind fun w₁ f f' h₁ hf => ?_
    obtain ⟨-, harguments⟩ := (Expr.forall_children_call (p := position)).1 hcode
    have harguments₁ : ∀ a ∈ arguments, L.code w₁ a.value :=
      fun a ha => hL.code_mono h₁ (harguments a ha)
    refine (hL.supply_simulates h harguments₁).bind fun w₂ as as' h₂ has => ?_
    exact hL.call_simulates h position (hL.carries h₂ _ _ hf) has
  | member target field position =>
    exact (hchild w (le_refl w) target List.mem_cons_self).bind fun w' v v' _ hv =>
      hL.member_simulates field position hv
  | memberSet target field value position =>
    refine (hchild w (le_refl w) target List.mem_cons_self).bind fun w₁ v v' h₁ hv => ?_
    refine (hL.expectObject_simulates field position hv).bind fun w₂ o o' h₂ ho => ?_
    obtain ⟨type, cell⟩ := o
    obtain ⟨rfl, hsound⟩ := ho
    have hvalue := hchild w₂ (le_trans h₁ h₂) value (List.mem_cons_of_mem _ List.mem_cons_self)
    refine hvalue.bind fun w₃ u u' h₃ hu => ?_
    exact hL.setMember_simulates field position (hL.sound_mono h₃ hsound) hu
  | choice branches otherwise position =>
    obtain ⟨hbranches, hotherwise⟩ := (Expr.forall_children_choice (p := position)).1 hcode
    exact hL.choose_simulates h hbranches hotherwise
  | forLoop name first bound step body position =>
    refine (hchild w (le_refl w) first List.mem_cons_self).bind fun w₁ v v' h₁ hv => ?_
    have hstop := hchild w₁ h₁ bound (List.mem_cons_of_mem _ List.mem_cons_self)
    refine hstop.bind fun w₂ u u' h₂ hu => ?_
    exact hL.forLoop_simulates h name position (hL.code_mono (le_trans h₁ h₂) he)
      (hL.carries h₂ _ _ hv) hu
  | whileLoop condition body position =>
    exact hL.whileRounds_simulates h (hcode condition List.mem_cons_self)
      (hcode body (List.mem_cons_of_mem _ List.mem_cons_self)) steps (hL.plain (u := .null) trivial)
  | function name parameters body position =>
    refine (hL.makeFunction_simulates he name).bind fun w' f f' _ hf => ?_
    exact (hL.defineNamed_simulates name hf).bind fun w'' _ _ hle _ =>
      .pure (hL.carries hle _ _ hf)
  | struct name fields position =>
    refine (hL.makeStruct_simulates he .struct).bind fun w' t t' _ ht => ?_
    exact (hL.defineNamed_simulates name ht).bind fun w'' _ _ hle _ =>
      .pure (hL.carries hle _ _ ht)
  | returning value position =>
    cases value with
    | none => exact returned_simulates (hL.plain (u := .null) trivial)
    | some value =>
      exact (hchild w (le_refl w) value List.mem_cons_self).bind fun w' v v' _ hv =>
        returned_simulates hv
  | block items position =>
    exact hL.sequence_simulates h (fun e he' => hcode e he') (hL.plain (u := .null) trivial)

end Forms

/-- From corresponding states, an expression has corresponding outcomes. -/
theorem evaluate_simulates (limit steps : Nat) (w : W) (e : Expr) (he : L.code w e) :
    L.Simulates w L.values (evaluate (σ := σ) limit steps e)
      (evaluate (σ := σ') limit steps e) := by
  induction steps generalizing w e with
  | zero => exact exhausted_simulates
  | succ steps ih => exact hL.node_simulates (fun w e he => ih w e he) he

end Lawful

end Link

end SnapshotScript
