import ScalarLang.Proofs.Grammar.Soundness

/-!
# What the grammar derives is read

The readers take every derived text in full when the token behind it cannot go it on.
A derivation is taken apart into a primary and links (`Operands`), so the induction
only has to say it of primaries (`PrimaryReads`): the operators between them are read
one after the other, and `Chain.tree` joins them as the derivation does.
-/

namespace ScalarLang

theorem Stops.punctuator {mark : Punctuator} (w : List Token)
    (hop : ∀ op : Operator, op.mark ≠ mark) (hcall : mark ≠ .openParen) :
    Stops w (.punctuator mark) := by
  refine ⟨fun op heq => ?_, fun name _ heq => ?_⟩
  · cases heq
    exact hop op rfl
  · cases heq
    exact hcall rfl

theorem Stops.closeParen (w : List Token) : Stops w (.punctuator .closeParen) := by
  refine .punctuator w (fun op => ?_) nofun
  rcases op with op | op <;> cases op <;> decide

theorem Stops.comma (w : List Token) : Stops w (.punctuator .comma) := by
  refine .punctuator w (fun op => ?_) nofun
  rcases op with op | op <;> cases op <;> decide

theorem Separates.operator (w : List Token) (op : Operator) :
    Separates w (.punctuator op.mark) := by
  intro name _
  rcases op with op | op <;> cases op <;> nofun

theorem Separates.of_append {u v : List Token} {c : Token}
    (h : Separates (u ++ v) c) : Separates v c := by
  intro name hname
  refine h name ?_
  rw [List.getLast?_append, hname, Option.some_or]

/-- The reading is of a value as `p` says, in front of `rest`. -/
def Reading.Gives {α : Type} {limit : Nat} (rest : List Lexeme) (p : α → Prop) :
    Reading α limit → Prop
  | .read value rest' _ => rest' = rest ∧ p value
  | .failed .. => False

theorem Reading.Gives.exists_eq {α : Type} {limit : Nat} {rest : List Lexeme} {p : α → Prop}
    {reading : Reading α limit} (h : reading.Gives rest p) :
    ∃ value shorter, reading = .read value rest shorter ∧ p value := by
  cases reading with
  | read value rest' shorter =>
      obtain ⟨rfl, hp⟩ := h
      exact ⟨value, shorter, rfl, hp⟩
  | failed => cases h

theorem exists_eq_cons_of_map {taken : List Lexeme} {token : Token} {w : List Token}
    (h : taken.map Lexeme.token = token :: w) :
    ∃ span taken', taken = ⟨token, span⟩ :: taken' ∧ taken'.map Lexeme.token = w := by
  obtain ⟨⟨_, span⟩, taken', rfl, rfl, htaken⟩ := List.map_eq_cons_iff.1 h
  exact ⟨span, taken', rfl, htaken⟩

theorem exists_eq_singleton_of_map {taken : List Lexeme} {token : Token}
    (h : taken.map Lexeme.token = [token]) : ∃ span, taken = [⟨token, span⟩] := by
  obtain ⟨span, taken', rfl, htaken⟩ := exists_eq_cons_of_map h
  rw [List.map_eq_nil_iff.1 htaken]
  exact ⟨span, rfl⟩

namespace Parse

/-- The primary reader takes the tokens and reads the term. -/
def PrimaryReads (w : List Token) (e : Term) : Prop :=
  ∀ taken rest, taken.map Lexeme.token = w → Separates w (nextToken rest) →
    (primary (taken ++ rest)).Gives rest (·.term = e)

/-- The expression reader takes the tokens and reads the term. -/
def ExpressionReads (w : List Token) (e : Term) : Prop :=
  ∀ taken rest, taken.map Lexeme.token = w → Stops w (nextToken rest) →
    (expression (taken ++ rest)).Gives rest (·.term = e)

/-- Links start with an operator, which separates them from what is in front. -/
theorem separates_links {operand : List Token → Term → Prop} {u v : List Token}
    {links : List (Operator × Term)} (h : Links operand v links) {taken rest : List Lexeme}
    (htaken : taken.map Lexeme.token = v) (hrest : Separates (u ++ v) (nextToken rest)) :
    Separates u (nextToken (taken ++ rest)) := by
  cases h with
  | nil =>
      rw [List.append_nil] at hrest
      rw [List.map_eq_nil_iff.1 htaken]
      exact hrest
  | cons =>
      obtain ⟨span, taken, rfl, -⟩ := exists_eq_cons_of_map htaken
      exact .operator u _

theorem operators_of_stops {tokens : List Lexeme}
    (h : ∀ op : Operator, nextToken tokens ≠ .punctuator op.mark) :
    (operators tokens).Gives tokens (· = []) := by
  unfold operators
  split
  next mark span rest =>
    split
    · exact ⟨rfl, rfl⟩
    next op hop =>
      refine absurd ?_ (h op)
      rw [Operator.mark_of_ofMark? hop]
      rfl
  · exact ⟨rfl, rfl⟩

/-- The operators reader takes links whose operands are read. -/
theorem operators_of_links {v : List Token} {links : List (Operator × Term)}
    (h : Links PrimaryReads v links) (taken rest : List Lexeme)
    (htaken : taken.map Lexeme.token = v) (hstops : Stops v (nextToken rest)) :
    (operators (taken ++ rest)).Gives rest (·.links = links) := by
  induction h generalizing taken with
  | nil =>
      obtain rfl := List.map_eq_nil_iff.1 htaken
      obtain ⟨_, shorter, heq, rfl⟩ := (operators_of_stops hstops.operator).exists_eq
      rw [List.nil_append, heq]
      exact ⟨rfl, rfl⟩
  | @cons op u v e links he hlinks ih =>
      obtain ⟨span, taken, rfl, hlink⟩ := exists_eq_cons_of_map htaken
      obtain ⟨operand, others, rfl, hoperand, hothers⟩ := List.map_eq_append_iff.1 hlink
      have hcall : Separates (u ++ v) (nextToken rest) := Separates.of_append (u := [_]) hstops.call
      have hgives := he operand (others ++ rest) hoperand (separates_links hlinks hothers hcall)
      have hgives' := ih others hothers ⟨hstops.operator, hcall.of_append⟩
      obtain ⟨expr, shorter, hread, rfl⟩ := hgives.exists_eq
      obtain ⟨chain, shorter', hreads, rfl⟩ := hgives'.exists_eq
      rw [List.cons_append, List.append_assoc, operators]
      simp only [Operator.ofMark?_mark, hread, hreads]
      exact ⟨rfl, rfl⟩

/-- A primary with links is read as an expression. -/
theorem expression_of_operands {w : List Token} {e : Term}
    (h : Operands PrimaryReads (.tier .comparison) w e) : ExpressionReads w e := by
  obtain ⟨u, first, v, links, rfl, hfirst, hlinks, -, hjoin⟩ := h
  intro taken rest htaken hstops
  obtain ⟨operand, others, rfl, hoperand, hothers⟩ := List.map_eq_append_iff.1 htaken
  have hgives := hfirst operand (others ++ rest) hoperand
    (separates_links hlinks hothers hstops.call)
  have hgives' := operators_of_links hlinks others rest hothers
    ⟨hstops.operator, hstops.call.of_append⟩
  obtain ⟨expr, shorter, hread, rfl⟩ := hgives.exists_eq
  obtain ⟨chain, shorter', hreads, rfl⟩ := hgives'.exists_eq
  rw [List.append_assoc, expression_eq]
  simp only [hread, hreads]
  exact ⟨rfl, (Chain.term_tree expr chain).trans (congrArg Prod.fst hjoin)⟩

/-- The argument list reader takes arguments that are read. -/
theorem argumentList_of_arguments (args : List (List Token × Term)) (hne : args ≠ [])
    (hargs : ∀ arg ∈ args, ExpressionReads arg.1 arg.2) (taken rest : List Lexeme)
    (htaken : taken.map Lexeme.token =
      [.punctuator .comma].intercalate (args.map Prod.fst) ++ [.punctuator .closeParen]) :
    (argumentList (taken ++ rest)).Gives rest (Expr.terms ·.1 = args.map Prod.snd) := by
  induction args generalizing taken with
  | nil => exact absurd rfl hne
  | cons arg args ih =>
      have harg := hargs arg List.mem_cons_self
      by_cases hnil : args = []
      · rw [hnil, List.map_singleton, List.intercalate_singleton] at htaken
        obtain ⟨first, close, rfl, hfirst, hclose⟩ := List.map_eq_append_iff.1 htaken
        obtain ⟨span, rfl⟩ := exists_eq_singleton_of_map hclose
        have hgives := harg first (⟨_, span⟩ :: rest) hfirst (Stops.closeParen _)
        obtain ⟨expr, shorter, hread, hterm⟩ := hgives.exists_eq
        rw [List.append_assoc, List.singleton_append, argumentList]
        simp only [hread, argumentSeparator]
        rw [hnil]
        exact ⟨rfl, congrArg ([·]) hterm⟩
      · rw [List.map_cons, List.intercalate_cons_of_ne_nil (by simpa using hnil),
          List.append_assoc, List.append_assoc] at htaken
        obtain ⟨first, behind, rfl, hfirst, hbehind⟩ := List.map_eq_append_iff.1 htaken
        obtain ⟨span, others, rfl, hothers⟩ := exists_eq_cons_of_map hbehind
        have hgives := harg first (⟨_, span⟩ :: (others ++ rest)) hfirst (Stops.comma _)
        have hgives' := ih hnil (fun arg hmem => hargs arg (List.mem_cons_of_mem _ hmem)) others
          hothers
        obtain ⟨expr, shorter, hread, hterm⟩ := hgives.exists_eq
        obtain ⟨⟨es, close⟩, shorter', hreads, hterms⟩ := hgives'.exists_eq
        rw [List.append_assoc, List.cons_append, argumentList]
        simp only [hread, argumentSeparator, hreads]
        rw [List.map_cons, ← hterm, ← hterms]
        exact ⟨rfl, rfl⟩

/-- The arguments reader takes arguments that are read. -/
theorem arguments_of_arguments (args : List (List Token × Term))
    (hargs : ∀ arg ∈ args, ExpressionReads arg.1 arg.2) (taken rest : List Lexeme)
    (htaken : taken.map Lexeme.token =
      [.punctuator .comma].intercalate (args.map Prod.fst) ++ [.punctuator .closeParen]) :
    (arguments (taken ++ rest)).Gives rest (Expr.terms ·.1 = args.map Prod.snd) := by
  by_cases hnil : args = []
  · rw [hnil] at htaken ⊢
    obtain ⟨span, rfl⟩ := exists_eq_singleton_of_map htaken
    rw [List.singleton_append, arguments]
    exact ⟨rfl, rfl⟩
  · have hgives' := argumentList_of_arguments args hnil hargs taken rest htaken
    generalize taken ++ rest = tokens at hgives' ⊢
    unfold arguments
    split
    next close inner =>
      simp only [argumentList, expression, primary] at hgives'
      cases hgives'
    · exact hgives'

/-- Every derivation is a primary that is read and links whose operands are. -/
theorem operands_of_derives {level : Level} {w : List Token} {e : Term} (h : Derives level w e) :
    Operands PrimaryReads level w e := by
  induction h with
  | operator _ _ ihl ihr => exact ihl.operator ihr
  | tighter _ ih => exact ih.tighter
  | number value =>
      refine .primary fun taken rest htaken _ => ?_
      obtain ⟨span, rfl⟩ := exists_eq_singleton_of_map htaken
      rw [List.singleton_append, primary]
      exact ⟨rfl, rfl⟩
  | var name =>
      refine .primary fun taken rest htaken hsep => ?_
      obtain ⟨span, rfl⟩ := exists_eq_singleton_of_map htaken
      rw [List.singleton_append, primary]
      · exact ⟨rfl, rfl⟩
      · rintro span' inner rfl
        exact hsep name rfl rfl
  | call name args _ ih =>
      refine .primary fun taken rest htaken _ => ?_
      obtain ⟨span, behind, rfl, hbehind⟩ := exists_eq_cons_of_map htaken
      obtain ⟨span', inner, rfl, hinner⟩ := exists_eq_cons_of_map hbehind
      have hargs := fun arg hmem => expression_of_operands (ih arg hmem)
      have hgives' := arguments_of_arguments args hargs inner rest hinner
      obtain ⟨⟨es, close⟩, shorter, hreads, hterms⟩ := hgives'.exists_eq
      rw [List.cons_append, List.cons_append, primary]
      simp only [hreads]
      exact ⟨rfl, congrArg (Term.call name) hterms⟩
  | parens _ ih =>
      refine .primary fun taken rest htaken _ => ?_
      obtain ⟨span, behind, rfl, hbehind⟩ := exists_eq_cons_of_map htaken
      obtain ⟨inner, close, rfl, hinner, hclose⟩ := List.map_eq_append_iff.1 hbehind
      obtain ⟨span', rfl⟩ := exists_eq_singleton_of_map hclose
      have hgives := expression_of_operands ih inner (⟨_, span'⟩ :: rest) hinner
        (Stops.closeParen _)
      obtain ⟨expr, shorter, hread, hterm⟩ := hgives.exists_eq
      rw [List.cons_append, List.append_assoc, List.singleton_append, primary]
      simp only [hread, closingParen]
      exact ⟨rfl, (Expr.term_withSpan _ expr).trans hterm⟩

/-- A derived expression is read in front of a token that cannot go it on. -/
theorem expressionReads_of_derives {w : List Token} {e : Term}
    (h : Derives (.tier .comparison) w e) : ExpressionReads w e :=
  expression_of_operands (operands_of_derives h)

end Parse

end ScalarLang
