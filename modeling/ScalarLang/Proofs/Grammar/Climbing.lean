import ScalarLang.Proofs.Grammar.Tiers

/-!
# Precedence climbing

The expression reader applies operators while it reads them: it looks at the rank of the
operator ahead and decides whether that takes the operand in front of it. Here it is compared
with a reader that takes a whole chain of operators first (`Parse.operators`) and has the grammar
join the chain afterwards (`Chain.tree`). What one call of the climbing loop applies is a front
part of that chain (`Parse.climbs`), and for the whole expression it is all of it
(`Parse.expression_eq`).
-/

namespace ScalarLang

/-- The operators of a higher rank are those of the tighter tiers. -/
theorem Operator.precedence_lt_iff (op op' : Operator) :
    op.precedence < op'.precedence ↔ op'.tier ∈ op.tier.tighter.tiers := by
  rcases op with op | op <;> rcases op' with op' | op' <;> cases op <;> cases op' <;> decide

theorem Tier.exists_tiers_eq (tier : Tier) :
    ∃ looser, [.product, .sum, .comparison] = tier.tighter.tiers ++ tier :: looser := by
  cases tier <;> exact ⟨_, rfl⟩

namespace Chain

/-- An operator is applied to what the tighter links behind its operand make of that, if no
tighter operator follows these. -/
theorem tree_cons_append {op : Operator} {chain chain' : Chain}
    (h : ∀ link ∈ chain, op.precedence < link.1.precedence)
    (h' : ∀ link ∈ chain'.head?, link.1.precedence ≤ op.precedence) (first operand : Expr) :
    tree first ((op, operand) :: (chain ++ chain')) =
      tree (.operation op first (tree operand chain)) chain' := by
  obtain ⟨looser, htiers⟩ := op.tier.exists_tiers_eq
  have htighter : ∀ link ∈ chain, link.1.tier ∈ op.tier.tighter.tiers := fun link hlink =>
    (Operator.precedence_lt_iff _ _).1 (h link hlink)
  have hlooser : ∀ link ∈ chain'.head?, link.1.tier ∉ op.tier.tighter.tiers :=
    fun link hlink hmem => Nat.not_lt.2 (h' link hlink) ((Operator.precedence_lt_iff _ _).2 hmem)
  have hoperand : tree operand chain =
      (Operator.joinAllWith Expr.operation op.tier.tighter.tiers operand chain).1 := by
    rw [tree, htiers, Operator.joinAllWith_append, Operator.joinAllWith_snd_eq_nil _ htighter,
      Operator.joinAllWith_nil]
  rw [hoperand, tree, tree, htiers,
    Operator.joinAllWith_cons_append looser op.tier.not_mem_tiers_tighter htighter hlooser]

end Chain

open Reading

namespace Parse

variable {least precedence : Nat} {lhs : Expr} {tokens : List Lexeme}

theorem operatorAhead?_mark (op : Operator) (span : Span) (rest : List Lexeme) :
    operatorAhead? (⟨.punctuator op.mark, span⟩ :: rest) = some op := op.ofMark?_mark

theorem exists_eq_cons_of_operatorAhead? {op : Operator} (h : operatorAhead? tokens = some op) :
    ∃ span rest, tokens = ⟨.punctuator op.mark, span⟩ :: rest := by
  unfold operatorAhead? at h
  split at h
  next mark span rest => exact ⟨span, rest, by rw [Operator.mark_of_ofMark? h]⟩
  · cases h

/-- Reads operators with the operands to their right until no operator follows. -/
def operators (tokens : List Lexeme) : Reading Chain (tokens.length + 1) :=
  match tokens with
  | ⟨.punctuator mark, span⟩ :: rest =>
    match Operator.ofMark? mark with
    | none => .read [] (⟨.punctuator mark, span⟩ :: rest) (Nat.lt_succ_self _)
    | some op =>
      match primary rest with
      | .failed expected rest bounded =>
        .failed expected rest (Nat.le_succ_of_le (Nat.le_succ_of_le bounded))
      | .read operand rest shorter =>
        have below := Nat.le_succ_of_le (Nat.le_succ_of_le shorter)
        match operators rest with
        | .failed expected rest bounded => .failed expected rest (Nat.le_trans bounded below)
        | .read chain rest shorter =>
          .read ((op, operand) :: chain) rest (Nat.lt_of_lt_of_le shorter below)
  | tokens => .read [] tokens (Nat.lt_succ_self _)
  termination_by tokens.length

theorem result_operators_of_none (h : operatorAhead? tokens = none) :
    (operators tokens).result = (.ok [], tokens) := by
  unfold operators
  split
  next mark span rest =>
    have hnone : Operator.ofMark? mark = none := h
    rw [hnone]
    rfl
  · rfl

theorem result_operators_cons (op : Operator) (span : Span) (rest : List Lexeme) :
    (operators (⟨.punctuator op.mark, span⟩ :: rest)).result =
      (primary rest).result.bind fun operand rest =>
        (operators rest).result.map fun chain => (op, operand) :: chain := by
  rw [operators]
  simp only [Operator.ofMark?_mark]
  generalize primary rest = r
  cases r with
  | failed => rfl
  | read operand rest shorter =>
      dsimp only [result, Result.bind]
      generalize operators rest = r'
      cases r' <;> rfl

/-- An operator of a lower rank ends the loop. -/
theorem result_climb_of_lt (h : ∀ op ∈ operatorAhead? tokens, op.precedence < least) :
    (climb least lhs tokens).result = (.ok lhs, tokens) := by
  unfold climb
  split
  next mark span rest =>
    split
    · rfl
    next op hop =>
      rw [if_pos (h op hop)]
      rfl
  · rfl

theorem result_climb_cons {op : Operator} (h : least ≤ op.precedence) (span : Span)
    (rest : List Lexeme) :
    (climb least lhs (⟨.punctuator op.mark, span⟩ :: rest)).result =
      (operand op.precedence rest).result.bind fun rhs rest =>
        (climb least (.operation op lhs rhs) rest).result := by
  rw [climb]
  simp only [Operator.ofMark?_mark, if_neg (Nat.not_lt.2 h)]
  generalize operand op.precedence rest = r
  cases r with
  | failed => rfl
  | read rhs rest shorter => exact result_weaken _ _

/-- The look at the next operator only saves a call of the loop. -/
theorem result_operand (precedence : Nat) (tokens : List Lexeme) :
    (operand precedence tokens).result =
      (primary tokens).result.bind fun first rest =>
        (climb (precedence + 1) first rest).result := by
  rw [operand]
  generalize primary tokens = r
  cases r with
  | failed => rfl
  | read first rest shorter =>
      -- Without a tighter operator ahead the loop would end at once.
      have hstops (h : ∀ next ∈ operatorAhead? rest, ¬precedence < next.precedence) :
          (climb (precedence + 1) first rest).result = (.ok first, rest) :=
        result_climb_of_lt fun next hnext => Nat.lt_succ_of_le (Nat.not_lt.1 (h next hnext))
      rw [result_read, Result.bind_ok]
      dsimp only
      split
      next hnext =>
        refine (hstops fun next hmem => ?_).symm
        rw [hnext] at hmem
        cases hmem
      next next hnext =>
        split
        · exact result_weaken _ _
        next hlt =>
          refine (hstops ?_).symm
          rw [hnext]
          rintro _ ⟨⟩
          exact hlt

/-- What climbing applies is a front part of the chain of operators ahead, up to the first one of
a lower rank. If it is refused, so is the chain. -/
inductive Climbs (least : Nat) (lhs : Expr) (tokens : List Lexeme) : Result Expr → Prop
  | read (chain : Chain) (rest : List Lexeme) :
      (∀ link ∈ chain, least ≤ link.1.precedence) →
      (∀ link ∈ chain.head?, operatorAhead? tokens = some link.1) →
      (∀ op ∈ operatorAhead? rest, op.precedence < least) →
      (operators tokens).result = (operators rest).result.map (chain ++ ·) →
      Climbs least lhs tokens (.ok (Chain.tree lhs chain), rest)
  | failed (expected : Expectation) (rest : List Lexeme) :
      (operators tokens).result = (.error expected, rest) →
      Climbs least lhs tokens (.error expected, rest)

theorem Climbs.of_lt (h : ∀ op ∈ operatorAhead? tokens, op.precedence < least) :
    Climbs least lhs tokens (.ok lhs, tokens) := by
  refine .read [] tokens (List.forall_mem_nil _) nofun h ?_
  rcases (operators tokens).result with ⟨_ | _, _⟩ <;> rfl

/-- An operator is applied to what climbing with a higher rank makes of its operand, and the loop
goes on behind that. -/
theorem Climbs.cons {op : Operator} (hop : least ≤ op.precedence) {span : Span}
    {rest rest' : List Lexeme} {first : Expr} (hfirst : (primary rest).result = (.ok first, rest'))
    {r : Result Expr} (hoperand : Climbs (op.precedence + 1) first rest' r)
    (hbehind : ∀ rhs behind, r = (.ok rhs, behind) →
      Climbs least (.operation op lhs rhs) behind
        (climb least (.operation op lhs rhs) behind).result) :
    Climbs least lhs (⟨.punctuator op.mark, span⟩ :: rest)
      (r.bind fun rhs rest => (climb least (.operation op lhs rhs) rest).result) := by
  have hcons := result_operators_cons op span rest
  rw [hfirst, Result.bind_ok] at hcons
  cases hoperand with
  | failed expected behind h =>
      refine .failed expected behind ?_
      rw [hcons, h, Result.map_error]
  | read chain behind hranks _ hnext heq =>
      have hbehind := hbehind _ _ rfl
      rw [Result.bind_ok]
      generalize (climb least _ behind).result = r at hbehind ⊢
      cases hbehind with
      | failed expected after h =>
          refine .failed expected after ?_
          rw [hcons, heq, h, Result.map_error, Result.map_error]
      | read chain' after hranks' hhead' hnext' heq' =>
          have hlooser : ∀ link ∈ chain'.head?, link.1.precedence ≤ op.precedence :=
            fun link hlink => Nat.le_of_lt_succ (hnext link.1 (hhead' link hlink))
          rw [← Chain.tree_cons_append hranks hlooser]
          refine .read _ after ?_ ?_ hnext' ?_
          · rw [List.forall_mem_cons, List.forall_mem_append]
            have hle : ∀ link ∈ chain, least ≤ link.1.precedence := fun link hlink =>
              Nat.le_trans hop (Nat.le_of_lt (hranks link hlink))
            exact ⟨hop, hle, hranks'⟩
          · rintro _ ⟨⟩
            exact operatorAhead?_mark op span rest
          · rw [hcons, heq, heq', Result.map_map, Result.map_map]
            simp only [List.cons_append, List.append_assoc]

/-- The climbing loop applies a front part of the chain of operators ahead. -/
theorem climbs (least : Nat) (lhs : Expr) (tokens : List Lexeme) :
    Climbs least lhs tokens (climb least lhs tokens).result := by
  by_cases h : ∃ op ∈ operatorAhead? tokens, least ≤ op.precedence
  · obtain ⟨op, hahead, hop⟩ := h
    obtain ⟨span, rest, rfl⟩ := exists_eq_cons_of_operatorAhead? hahead
    rw [result_climb_cons hop, result_operand]
    rcases hfirst : (primary rest).result with ⟨expected | first, rest'⟩
    · refine .failed expected rest' ?_
      rw [result_operators_cons, hfirst, Result.bind_error]
    · have fewer := length_lt_of_result hfirst
      refine .cons hop hfirst (climbs _ first rest') fun rhs behind heq => ?_
      have fewer' := length_lt_of_result heq
      exact climbs least _ behind
  · have hlower : ∀ op ∈ operatorAhead? tokens, op.precedence < least := fun op hop =>
      Nat.not_le.1 fun hle => h ⟨op, hop, hle⟩
    rw [result_climb_of_lt hlower]
    exact .of_lt hlower
  termination_by tokens.length
  decreasing_by all_goals subst_vars; simp only [List.length_cons]; omega

/-- An expression is the tree of all the operators ahead. -/
theorem result_expression (tokens : List Lexeme) :
    (expression tokens).result =
      (primary tokens).result.bind fun first rest =>
        (operators rest).result.map (Chain.tree first) := by
  rw [expression]
  generalize primary tokens = r
  cases r with
  | failed => rfl
  | read first rest shorter =>
      have hclimbs := climbs 0 first rest
      dsimp only
      rw [result_weaken, result_read, Result.bind_ok]
      generalize (climb 0 first rest).result = r at hclimbs ⊢
      cases hclimbs with
      | failed expected rest' h => rw [h, Result.map_error]
      | read chain rest' _ _ hnext heq =>
          have hnone : operatorAhead? rest' = none :=
            Option.eq_none_iff_forall_not_mem.2 fun op hop => Nat.not_lt_zero _ (hnext op hop)
          rw [heq, result_operators_of_none hnone, Result.map_ok, Result.map_ok, List.append_nil]

/-- Climbing gives what the grammar makes of the chain of operators. -/
theorem expression_eq (tokens : List Lexeme) :
    expression tokens =
      match primary tokens with
      | .failed expected rest bounded => .failed expected rest bounded
      | .read first rest shorter =>
        match operators rest with
        | .failed expected rest bounded => .failed expected rest (by omega)
        | .read chain rest shorter => .read (Chain.tree first chain) rest (by omega) := by
  refine result_injective ?_
  rw [result_expression]
  generalize primary tokens = r
  cases r with
  | failed => rfl
  | read first rest shorter =>
      dsimp only [result, Result.bind]
      generalize operators rest = r'
      cases r' <;> rfl

end Parse

end ScalarLang
