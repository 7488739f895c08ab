import SnapshotScript.Proofs.Grammar.Properties

/-!
# Tokens with which expressions begin

Where a phrase may be left out, what is next decides whether it is there.  So each token that the
grammar lists as a beginning has to be one: some expression begins with it.
-/

namespace SnapshotScript

namespace Grammar

/-- An atom is a factor where no member, argument or exponent is next. -/
theorem Derives.factor_of_atom {ts : List Token} {e : Expr} {rest : List Token}
    (h : Derives .atom ts e rest) (hnext : next rest ∉ [Token.Kind.dot, .leftParen, .power]) :
    Derives .factor ts e rest := by
  simp only [List.mem_cons, not_or] at hnext
  exact .unsigned (.unraised (.uncalled h (.done hnext.1) hnext.2.1) hnext.2.2.1)

/-- A factor is a comparison where no operator is next. -/
theorem Derives.comparison_of_factor {ts : List Token} {e : Expr} {rest : List Token}
    (h : Derives .factor ts e rest) (hnext : ∀ N o, ¬ Infix N (next rest) o) :
    Derives .comparison ts e rest :=
  .uncompared (.sum (.product h (.done (hnext _))) (.done (hnext _))) (hnext _)

/-- Tokens that end every phrase: no phrase begins with one of them, and none goes on with one. -/
def closers : List Token.Kind :=
  [.endOfInput, .keyword .then, .keyword .to, .rightParen, .assign, .arrow]

/-- A token of the given kind. -/
def sample (k : Token.Kind) : Token :=
  ⟨k, "0", .start, .start⟩

/-- The word `null` is a factor before a token that ends every phrase. -/
theorem derives_null {rest : List Token}
    (hnext : next rest ∈ closers) :
    Derives .factor (sample (.keyword .null) :: rest) (.literal .null .start) rest := by
  refine .factor_of_atom (.atom (.constant .null)) fun hother => ?_
  generalize next rest = k at hnext hother
  simp only [List.mem_cons, List.not_mem_nil, or_false] at hother
  rcases hother with rfl | rfl | rfl <;> exact absurd hnext (by decide)

/-- No operator ends every phrase. -/
theorem not_infix_of_mem {k : Token.Kind} (hk : k ∈ closers) (N : Nonterminal)
    (o : BinaryOperator) : ¬ Infix N k o := by
  rintro (_ | _) <;> exact absurd hk (by decide)

/-- The word `null` is an expression in the same places. -/
theorem derives_null_expression {rest : List Token}
    (hnext : next rest ∈ closers) :
    Derives .expression (sample (.keyword .null) :: rest) (.literal .null .start) rest :=
  .logical ((derives_null hnext).comparison_of_factor (not_infix_of_mem hnext))
    (.done (not_infix_of_mem hnext _))

/-- Some atom begins with each of the tokens with which atoms can begin. -/
theorem exists_atom {k : Token.Kind} (hk : k ∈ atomBeginnings) :
    ∃ ts e, Atom k (sample k) ts e [] := by
  have hnull := @derives_null_expression [] (by decide)
  have hthen := @derives_null_expression [sample (.keyword .then), sample (.keyword .null)]
    (by decide)
  have hto := @derives_null_expression (sample (.keyword .to) :: sample (.keyword .null) ::
    [sample (.keyword .then), sample (.keyword .null)]) (by decide)
  cases k with
  | int => exact ⟨[], _, .constant (.int (z := 0) (n := 0) (by decide) (by decide))⟩
  | float =>
    obtain ⟨x, hx⟩ : ∃ x, readFloat? "0".toList = some x := ⟨_, rfl⟩
    exact ⟨[], _, .constant (.float hx)⟩
  | string => exact ⟨[], _, .constant .str⟩
  | identifier => exact ⟨[], _, .name⟩
  | leftParen => exact ⟨[sample .rightParen], _, .block .done rfl (by decide)⟩
  | keyword word =>
    cases word with
    | true => exact ⟨[], _, .constant .true⟩
    | false => exact ⟨[], _, .constant .false⟩
    | null => exact ⟨[], _, .constant .null⟩
    | «if» => exact ⟨_, _, .choice hthen rfl hnull (.done (by decide) (by decide))⟩
    | «for» =>
      exact ⟨sample .identifier :: sample .assign :: _, _,
        .forLoop rfl rfl hto rfl hthen rfl hnull⟩
    | «while» => exact ⟨_, _, .whileLoop hthen rfl hnull⟩
    | «fun» =>
      exact ⟨sample .leftParen :: sample .rightParen :: sample .arrow :: _, _,
        .function .absent rfl (.none rfl) .nil rfl hnull⟩
    | struct =>
      exact ⟨[sample .leftParen, sample .rightParen], _, .struct .absent rfl (.none rfl) .nil⟩
    | «return» => exact ⟨_, _, .returning hnull⟩
    | _ => exact absurd hk (by decide)
  | _ => exact absurd hk (by decide)

/-- The tokens with which expressions can begin are those with which some expression begins.  So a
return has a value wherever the next token could be the first one of it. -/
theorem mem_beginnings_iff {k : Token.Kind} : k ∈ Nonterminal.expression.beginnings ↔
    ∃ ts e rest, next ts = k ∧ Derives .expression ts e rest := by
  have hnone := fun N => @not_infix_of_mem .endOfInput (by decide) N
  have hnull := @derives_null [] (by decide)
  have hvalue := @derives_null_expression [] (by decide)
  have hlogical : ∀ {ts e}, Derives .comparison ts e [] → Derives .expression ts e [] :=
    fun h => .logical h (.done (hnone _))
  constructor
  · intro hk
    rcases List.mem_append.1 hk with hk | hk
    · simp only [List.mem_cons, List.not_mem_nil, or_false] at hk
      rcases hk with rfl | rfl | rfl | rfl
      · exact ⟨sample _ :: sample .identifier :: sample .assign :: _, _, _, rfl,
          .assign rfl rfl rfl hvalue⟩
      · exact ⟨sample _ :: _, _, _, rfl,
          hlogical (.not rfl (hnull.comparison_of_factor hnone))⟩
      · exact ⟨sample .plus :: _, _, _, rfl,
          hlogical (.comparison_of_factor (.signed .plus hnull) hnone)⟩
      · exact ⟨sample .minus :: _, _, _, rfl,
          hlogical (.comparison_of_factor (.signed .minus hnull) hnone)⟩
    · obtain ⟨ts, e, h⟩ := exists_atom hk
      exact ⟨sample k :: ts, e, [], rfl,
        hlogical ((Derives.factor_of_atom (.atom h) (by decide)).comparison_of_factor hnone)⟩
  · rintro ⟨ts, e, rest, rfl, h⟩
    exact h.mem_beginnings

end Grammar

end SnapshotScript
