import Mathlib.Algebra.Order.Floor.Div
import Mathlib.Algebra.Order.Group.Unbundled.Int
import SnapshotScript.Proofs.Loops.Rounds

/-!
# How often a loop over integers runs

From the two bounds and the step one can tell how many rounds a loop makes: none if the bounds are
equal, one if the step leads away from the bound, and otherwise as many as there are steps to the
bound.  The counters go up or down by the step.
-/

namespace SnapshotScript

/-- How many rounds a loop from `a` to `b` by steps of `s` makes. -/
def roundCount (a b s : Int) : Nat :=
  if a = b then 0 else if s.sign = (b - a).sign then (b - a).natAbs ⌈/⌉ s.natAbs else 1

/-! ### Counting -/

section

variable {a b s : Int}

/-- A step fits in once more just if the steps before stay below the distance. -/
theorem lt_ceilDiv_natAbs_iff {d : Int} (hs : s ≠ 0) (i : Nat) :
    i < d.natAbs ⌈/⌉ s.natAbs ↔ i * |s| < |d| := by
  rw [← not_le, ceilDiv_le_iff_le_mul (Int.natAbs_pos.2 hs), not_le, ← Int.ofNat_lt]
  push_cast
  rw [mul_comm]

/-- A step that leads to the bound is made as often as it fits into the distance, rounded up. -/
theorem roundCount_of_sign (hab : a ≠ b) (h : s.sign = (b - a).sign) :
    roundCount a b s = (b - a).natAbs ⌈/⌉ s.natAbs := by
  rw [roundCount, if_neg hab, if_pos h]

/-- A step that leads down, away from a bound above, is made once. -/
theorem roundCount_of_lt_of_neg (hab : a < b) (hs : s < 0) : roundCount a b s = 1 := by
  have hsign : s.sign ≠ (b - a).sign := by
    rw [Int.sign_eq_neg_one_of_neg hs, Int.sign_eq_one_of_pos (Int.sub_pos.2 hab)]
    decide
  rw [roundCount, if_neg hab.ne, if_neg hsign]

/-- A step that leads up, away from a bound below, is made once. -/
theorem roundCount_of_gt_of_pos (hab : b < a) (hs : 0 < s) : roundCount a b s = 1 := by
  have hsign : s.sign ≠ (b - a).sign := by
    rw [Int.sign_eq_one_of_pos hs, Int.sign_eq_neg_one_of_neg (sub_neg.2 hab)]
    decide
  rw [roundCount, if_neg hab.ne', if_neg hsign]

/-- Upwards, a round is made while the counter is below the bound. -/
theorem lt_roundCount_of_lt (hab : a < b) (hs : 0 < s) (i : Nat) :
    i < roundCount a b s ↔ a + i * s < b := by
  have hsign : s.sign = (b - a).sign := by
    rw [Int.sign_eq_one_of_pos hs, Int.sign_eq_one_of_pos (Int.sub_pos.2 hab)]
  rw [roundCount_of_sign hab.ne hsign, lt_ceilDiv_natAbs_iff hs.ne', abs_of_pos hs,
    abs_of_pos (Int.sub_pos.2 hab)]
  omega

/-- Downwards, a round is made while the counter is above the bound. -/
theorem lt_roundCount_of_gt (hab : b < a) (hs : s < 0) (i : Nat) :
    i < roundCount a b s ↔ b < a + i * s := by
  have hsign : s.sign = (b - a).sign := by
    rw [Int.sign_eq_neg_one_of_neg hs, Int.sign_eq_neg_one_of_neg (sub_neg.2 hab)]
  rw [roundCount_of_sign hab.ne' hsign, lt_ceilDiv_natAbs_iff hs.ne, abs_of_neg hs,
    abs_of_neg (sub_neg.2 hab), mul_neg]
  omega

end

/-! ### Counters -/

section

variable {a b s : Int64}

/-- In which direction a loop from `a` to `b` by steps of `s` runs before the round with the given
number. -/
def directionAt (a b s : Int64) (i : Nat) : Ordering :=
  if i = 0 then boundOrder a b else stepOrder s

/-- The counter stands to the bound as the direction says if there is another round. -/
theorem compare_eq_directionAt_iff (hs : s ≠ 0) {i : Nat} {n : Int64}
    (hn : n.toInt = a.toInt + i * s.toInt) (hi : i ≤ roundCount a.toInt b.toInt s.toInt) :
    compare n b = directionAt a b s i ↔ i < roundCount a.toInt b.toInt s.toInt := by
  have hs' : s.toInt ≠ 0 := fun h => hs (Int64.toInt_inj.1 h)
  have hlt : compare n b = .lt ↔ a.toInt + i * s.toInt < b.toInt := by
    rw [Std.compare_eq_lt, Int64.lt_iff_toInt_lt, hn]
  have hgt : compare n b = .gt ↔ b.toInt < a.toInt + i * s.toInt := by
    rw [Std.compare_eq_gt, Int64.lt_iff_toInt_lt, hn]
  have hup (h : a.toInt ≤ b.toInt) : boundOrder a b = .lt :=
    if_neg fun hba => Int.not_lt.2 h (Int64.lt_iff_toInt_lt.1 hba)
  have hdown (h : b.toInt < a.toInt) : boundOrder a b = .gt := if_pos (Int64.lt_iff_toInt_lt.2 h)
  have hpositive : 0 < s ↔ 0 < s.toInt := Int64.lt_iff_toInt_lt
  have hforth (h : 0 < s.toInt) : stepOrder s = .lt := if_pos (hpositive.2 h)
  have hback (h : s.toInt < 0) : stepOrder s = .gt :=
    if_neg fun hpos => Int.lt_asymm h (hpositive.1 hpos)
  rcases lt_trichotomy a.toInt b.toInt with hab | hab | hab
  · rcases lt_or_gt_of_ne hs' with hneg | hpos
    · rw [roundCount_of_lt_of_neg hab hneg] at hi ⊢
      obtain rfl | rfl : i = 0 ∨ i = 1 := by omega
      · rw [directionAt, if_pos rfl, hup hab.le, hlt]
        omega
      · rw [directionAt, if_neg (by decide), hback hneg, hgt]
        omega
    · have hdirection : directionAt a b s i = .lt := by
        rw [directionAt, hup hab.le, hforth hpos, ite_self]
      rw [hdirection, hlt, lt_roundCount_of_lt hab hpos]
  · have hcount : roundCount a.toInt b.toInt s.toInt = 0 := if_pos hab
    rw [hcount] at hi ⊢
    obtain rfl := Nat.le_zero.1 hi
    rw [directionAt, if_pos rfl, hup hab.le, hlt]
    omega
  · rcases lt_or_gt_of_ne hs' with hneg | hpos
    · have hdirection : directionAt a b s i = .gt := by
        rw [directionAt, hdown hab, hback hneg, ite_self]
      rw [hdirection, hgt, lt_roundCount_of_gt hab hneg]
    · rw [roundCount_of_gt_of_pos hab hpos] at hi ⊢
      obtain rfl | rfl : i = 0 ∨ i = 1 := by omega
      · rw [directionAt, if_pos rfl, hdown hab, hgt]
        omega
      · rw [directionAt, if_neg (by decide), hforth hpos, hlt]
        omega

/-- The counters of a loop go up or down by the step. -/
theorem counted_range (hs : s ≠ 0) (counter : Nat → Int64)
    (hcounter : ∀ i ≤ roundCount a.toInt b.toInt s.toInt,
      (counter i).toInt = a.toInt + i * s.toInt) (k i : Nat)
    (hk : i + k = roundCount a.toInt b.toInt s.toInt) :
    Counted b s (directionAt a b s i) (counter i) ((List.range' i k).map counter) := by
  induction k generalizing i with
  | zero =>
    have hi : ¬i < roundCount a.toInt b.toInt s.toInt := by omega
    exact .done fun h => hi ((compare_eq_directionAt_iff hs (hcounter i (by omega)) (by omega)).1 h)
  | succ k ih =>
    have hgoes := (compare_eq_directionAt_iff hs (hcounter i (by omega)) (by omega)).2
      (show i < roundCount a.toInt b.toInt s.toInt by omega)
    refine .round hgoes ?_ (ih (i + 1) (by omega))
    rw [hcounter i (by omega), hcounter (i + 1) (by omega)]
    push_cast
    rw [add_mul, one_mul, add_assoc]

end

/-- A loop makes its rounds if each can be made in the states that there are before it. -/
theorem exists_rounds {σ κ : Type} [Runtime σ κ] {recur : Expr → Action σ κ (Value κ)}
    {loop : Evaluation.Loop κ} {s : Int64} (counter : Nat → Int64) (Between : Nat → σ → Prop)
    (k i : Nat)
    (hround : ∀ j < i + k, ∀ t, Between j t → ∃ r : Round σ κ,
      r.counter = counter j ∧ r.Runs recur loop s t ∧ Between (j + 1) r.finish)
    {t : σ} (ht : Between i t) :
    ∃ rounds t', Rounds recur loop s t rounds t' ∧
      rounds.map Round.counter = (List.range' i k).map counter := by
  induction k generalizing i t with
  | zero => exact ⟨[], t, .done, rfl⟩
  | succ k ih =>
    obtain ⟨r, hcounter, hr, hnext⟩ := hround i (by omega) t ht
    obtain ⟨rounds, t', hrounds, hcounters⟩ := ih (i + 1) (fun j hj => hround j (by omega)) hnext
    refine ⟨r :: rounds, t', .round hr hrounds, ?_⟩
    rw [List.map_cons, hcounter, hcounters]
    rfl

/-! ### The loop -/

/-- The number is the value of a 64-bit integer. -/
def FitsWord (z : Int) : Prop :=
  -2 ^ 63 ≤ z ∧ z < 2 ^ 63

/-- A step of one to the bound never leads to a number that does not fit. -/
theorem fitsWord_of_one {a b s : Int64} (hs : s = if b < a then -1 else 1) {i : Nat}
    (hi : i ≤ roundCount a.toInt b.toInt s.toInt) : FitsWord (a.toInt + i * s.toInt) := by
  have ha : FitsWord a.toInt := ⟨a.le_toInt, a.toInt_lt⟩
  have hb : FitsWord b.toInt := ⟨b.le_toInt, b.toInt_lt⟩
  have hbetween : min a.toInt b.toInt ≤ a.toInt + i * s.toInt ∧
      a.toInt + i * s.toInt ≤ max a.toInt b.toInt := by
    cases i with
    | zero => omega
    | succ j =>
      split at hs
      · next hba =>
        have hs' : s.toInt = -1 := hs ▸ rfl
        have hba' := Int64.lt_iff_toInt_lt.1 hba
        have hj := (lt_roundCount_of_gt hba' (by omega) j).1 (Nat.lt_of_succ_le hi)
        rw [hs'] at hj ⊢
        omega
      · next hba =>
        have hs' : s.toInt = 1 := hs ▸ rfl
        have hab' : a.toInt ≤ b.toInt := Int.not_lt.1 (mt Int64.lt_iff_toInt_lt.2 hba)
        have hne : a.toInt ≠ b.toInt := fun heq => by simp [roundCount, heq] at hi
        have hj := (lt_roundCount_of_lt (hab'.lt_of_ne hne) (by omega) j).1 (Nat.lt_of_succ_le hi)
        rw [hs'] at hj ⊢
        omega
  exact ⟨(le_min ha.1 hb.1).trans hbetween.1, hbetween.2.trans_lt (max_lt ha.2 hb.2)⟩

/-- A loop between two integers by steps of `s` makes just as many rounds as `roundCount` says, in
the states that it leads to one after another from a new frame.  The counters go up or down by `s`
and stay integers.  In each round the body is evaluated once and then the step once, if there is
one, and apart from the bounds nothing else is evaluated by the loop itself.  The loop has the value
of the last round, or `null`.  This needs that the body and the step have values, that this of the
step is `s`, and that in the end the variable is still bound to the counter, in all states between
two rounds: `Between i` tells which states may be there before round `i`. -/
theorem for_runs_expected_rounds {limit steps : Nat} {name : String} {first bound body : Expr}
    {step : Option Expr} {position : Position} {m m₁ m₂ : Machine} {a b s : Int64}
    (hfirst : evaluate limit steps first m = .ok (.int a) m₁)
    (hbound : evaluate limit steps bound m₁ = .ok (.int b) m₂)
    (hstep : step = none → s = if b < a then -1 else 1) (hs : s ≠ 0)
    (hfits : step ≠ none → ∀ i ≤ roundCount a.toInt b.toInt s.toInt,
      FitsWord (a.toInt + i * s.toInt))
    (hsteps : roundCount a.toInt b.toInt s.toInt < steps)
    (Between : Nat → Machine → Prop) (henter : Between 0 m₂.enterFrame)
    (hround : ∀ i < roundCount a.toInt b.toInt s.toInt, ∀ t, Between i t →
      ∀ n : Int64, n.toInt = a.toInt + i * s.toInt → ∃ r : Round Machine FrameId, r.counter = n ∧
        r.Runs (evaluate limit steps) (intLoop name a b step body position) s t ∧
        Between (i + 1) r.finish) :
    let loop : Evaluation.Loop FrameId := intLoop name a b step body position
    ∃ (rounds : List (Round Machine FrameId)) (t : Machine),
      Rounds (evaluate limit steps) loop s m₂.enterFrame rounds t ∧
      rounds.length = roundCount a.toInt b.toInt s.toInt ∧
      (∀ (i : Nat) r, rounds[i]? = some r → r.counter.toInt = a.toInt + i * s.toInt) ∧
      evaluate limit (steps + 1) (.forLoop name first bound step body position) m =
        .ok (lastValue .null rounds) { t with current := m₂.current } ∧
      Evaluation.node (noting limit steps) limit steps
          (.forLoop name first bound step body position) ⟨m, []⟩ =
        .ok (lastValue .null rounds) ⟨{ t with current := m₂.current },
          ((first, m) :: (bound, m₁) :: rounds.flatMap (Round.starts loop)).reverse⟩ := by
  intro loop
  have hfits : ∀ i ≤ roundCount a.toInt b.toInt s.toInt, FitsWord (a.toInt + i * s.toInt) := by
    by_cases hnone : step = none
    · exact fun i hi => fitsWord_of_one (hstep hnone) hi
    · exact hfits hnone
  let counter (i : Nat) : Int64 := Int64.ofInt (a.toInt + i * s.toInt)
  have hcounter : ∀ i ≤ roundCount a.toInt b.toInt s.toInt,
      (counter i).toInt = a.toInt + i * s.toInt :=
    fun i hi => Int64.toInt_ofInt_of_le (hfits i hi).1 (hfits i hi).2
  have hfirstCounter : counter 0 = a :=
    Int64.toInt_inj.1 (by simpa using hcounter 0 (Nat.zero_le _))
  obtain ⟨rounds, t, hrounds, hcounters⟩ := exists_rounds counter Between
    (roundCount a.toInt b.toInt s.toInt) 0
    (fun j hj t ht => hround j (by omega) t ht (counter j) (hcounter j (by omega))) henter
  have hcounted := counted_range hs counter hcounter _ 0 (Nat.zero_add _)
  rw [← hcounters, hfirstCounter] at hcounted
  have hlength : rounds.length = roundCount a.toInt b.toInt s.toInt := by
    rw [← List.length_map (f := Round.counter), hcounters, List.length_map, List.length_range']
  refine ⟨rounds, t, hrounds, hlength, fun i r hr => ?_, ?_, ?_⟩
  · have hi : i < roundCount a.toInt b.toInt s.toInt :=
      hlength ▸ (List.getElem?_eq_some_iff.1 hr).1
    have hcounteri := congrArg (·[i]?) hcounters
    rw [List.getElem?_map, List.getElem?_map, hr, List.getElem?_range' hi] at hcounteri
    rw [Option.some.inj hcounteri]
    simpa using hcounter i hi.le
  · exact node_forLoop_of_rounds hs hfirst hbound hrounds hcounted (hlength ▸ hsteps)
  · obtain ⟨rounds', hrounds', hcounters', hvalue⟩ := hrounds.noted [(bound, m₁), (first, m)]
    have hlength' : rounds'.length < steps := by
      rwa [← List.length_map (f := Round.counter), hcounters', List.length_map, hlength]
    refine (node_forLoop_of_rounds hs (noting_of_evaluate hfirst []) (noting_of_evaluate hbound _)
      hrounds' (hcounters' ▸ hcounted) hlength').trans ?_
    rw [hvalue, List.reverse_cons, List.reverse_cons, List.append_assoc]
    rfl

/-- From five down to zero by steps of three there are two rounds. -/
theorem for_runs_two_rounds_down :
    let p := Position.start
    let step := Expr.unary .minus (.literal (.int 3) p) p
    let body := Expr.identifier "i" p
    let loop : Evaluation.Loop FrameId := intLoop "i" 5 0 (some step) body p
    roundCount 5 0 (-3) = 2 ∧ ∃ (rounds : List (Round Machine FrameId)) (t : Machine),
      Rounds (evaluate 1000 9) loop (-3) Machine.initial.enterFrame rounds t ∧
      rounds.length = 2 ∧
      (∀ (i : Nat) r, rounds[i]? = some r → r.counter.toInt = 5 + i * (-3)) ∧
      evaluate 1000 10 (.forLoop "i" (.literal (.int 5) p) (.literal (.int 0) p) (some step) body p)
          Machine.initial =
        .ok (lastValue .null rounds) { t with current := Machine.initial.current } := by
  intro p step body loop
  let t₀ := Machine.initial.enterFrame
  let t₁ := t₀.define "i" (.int 5)
  let t₂ := t₁.define "i" (.int 2)
  let states : List Machine := [t₀, t₁, t₂]
  have hcount : roundCount 5 0 (-3) = 2 := rfl
  have hfirst : evaluate 1000 9 (.literal (.int 5) p) Machine.initial =
      .ok (.int 5) Machine.initial := rfl
  have hbound : evaluate 1000 9 (.literal (.int 0) p) Machine.initial =
      .ok (.int 0) Machine.initial := rfl
  have hfits : ∀ i ≤ 2, FitsWord (5 + (i : Nat) * (-3)) := by
    intro i hi
    constructor <;> omega
  have hround : ∀ i < 2, ∀ t, states[i]? = some t → ∀ n : Int64, n.toInt = 5 + (i : Nat) * (-3) →
      ∃ r : Round Machine FrameId, r.counter = n ∧ r.Runs (evaluate 1000 9) loop (-3) t ∧
        states[i + 1]? = some r.finish := by
    intro i hi t ht n hn
    obtain rfl | rfl : i = 0 ∨ i = 1 := by omega
    · obtain rfl : n = 5 := Int64.toInt_inj.1 hn
      cases ht
      exact ⟨⟨5, t₁, .int 5, t₁, t₁⟩, rfl, ⟨rfl, rfl, rfl, rfl⟩, rfl⟩
    · obtain rfl : n = 2 := Int64.toInt_inj.1 hn
      cases ht
      exact ⟨⟨2, t₂, .int 2, t₂, t₂⟩, rfl, ⟨rfl, rfl, rfl, rfl⟩, rfl⟩
  obtain ⟨rounds, t, hrounds, hlength, hcounter, hresult, -⟩ :=
    for_runs_expected_rounds (s := -3) hfirst hbound (nofun : some step = none → _) (by decide)
      (fun _ => hfits) (by decide) (fun i t => states[i]? = some t) rfl hround
  exact ⟨hcount, rounds, t, hrounds, hlength, hcounter, hresult⟩

/-- A step that binds the loop variable anew takes part in the counting: the body runs only once,
although it changes nothing and the step is five every time. -/
theorem rebinding_step_skips_rounds :
    let p := Position.start
    let first := Expr.literal (.int 0) p
    let bound := Expr.literal (.int 10) p
    let step := Expr.assign "i" (.literal (.int 5) p) p
    let body := Expr.identifier "i" p
    roundCount 0 10 5 = 2 ∧
      (∀ (t : Machine) v, t.lookup "i" = some v → evaluate 1000 9 body t = .ok v t) ∧
      (∀ t : Machine, ∃ t', evaluate 1000 9 step t = .ok (.int 5) t') ∧
      ∃ v noted, Evaluation.node (noting 1000 9) 1000 9
          (.forLoop "i" first bound (some step) body p)
          (⟨Machine.initial, []⟩ : Noted Machine (Expr × Machine)) = .ok v noted ∧
        noted.notes.reverse.map Prod.fst = [first, bound, body, step] := by
  intro p first bound step body
  refine ⟨rfl, fun t v h => ?_, fun t => ⟨_, rfl⟩, _, _, rfl, rfl⟩
  have hlookup : Action.lookup "i" t = .ok (some v) t := congrArg (EStateM.Result.ok · t) h
  exact Action.bind_of_eq_ok hlookup

end SnapshotScript
