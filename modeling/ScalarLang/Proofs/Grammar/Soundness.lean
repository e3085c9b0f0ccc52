import ScalarLang.Proofs.Grammar.Climbing

/-!
# What the readers take

Every reader takes tokens from the front of its list, and what an expression reader
takes derives the expression that it reads (`Parse.takes_expression`). It stops in
front of a token that cannot go on the expression (`Stops`). A reader that fails
leaves a suffix of its list as well.
-/

namespace ScalarLang

/-- The first of the tokens ahead. -/
def nextToken (ahead : List Lexeme) : Token := (ahead.head?.map Lexeme.token).getD .endOfInput

/-- The token does not open the arguments of a call whose callee is the last token. -/
def Separates (w : List Token) (c : Token) : Prop :=
  ∀ name, w.getLast? = some (.identifier name) → c ≠ .punctuator .openParen

/-- The token cannot go on the expression in front of it. -/
structure Stops (w : List Token) (c : Token) : Prop where
  operator : ∀ op : Operator, c ≠ .punctuator op.mark
  call : Separates w c

/-- What was taken is in front of the tokens left, and is as `shape` says. -/
def Reading.Takes {α : Type} {limit : Nat} (tokens : List Lexeme)
    (shape : List Token → α → Token → Prop) : Reading α limit → Prop
  | .read value rest _ =>
    ∃ taken, tokens = taken ++ rest ∧ shape (taken.map Lexeme.token) value (nextToken rest)
  | .failed _ rest _ => rest <:+ tokens

theorem Reading.Takes.mono {α : Type} {limit : Nat} {tokens : List Lexeme}
    {reading : Reading α limit} {shape shape' : List Token → α → Token → Prop}
    (h : reading.Takes tokens shape)
    (himp : ∀ w value c, shape w value c → shape' w value c) : reading.Takes tokens shape' := by
  cases reading with
  | read =>
      obtain ⟨taken, heq, hshape⟩ := h
      exact ⟨taken, heq, himp _ _ _ hshape⟩
  | failed => exact h

theorem Derives.ne_nil {level : Level} {w : List Token} {e : Term} (h : Derives level w e) :
    w ≠ [] := by
  induction h with
  | operator => simp
  | tighter _ ih => exact ih
  | number | var | call | parens => simp

theorem Separates.append {u v : List Token} {c : Token} (h : v = [] → Separates u c)
    (h' : Separates v c) : Separates (u ++ v) c := by
  intro name hname
  rw [List.getLast?_append] at hname
  cases hv : v.getLast? with
  | none =>
      rw [hv, Option.none_or] at hname
      exact h (List.getLast?_eq_none_iff.1 hv) name hname
  | some token =>
      rw [hv, Option.some_or] at hname
      exact h' name (hv.trans hname)

theorem Separates.nil (c : Token) : Separates [] c := by
  intro name hname
  cases hname

theorem Separates.number (value : Float) (c : Token) : Separates [.number value] c := by
  intro name hname
  cases hname

/-- Behind a closing parenthesis any token separates. -/
theorem Separates.closeParen (w : List Token) (c : Token) :
    Separates (w ++ [.punctuator .closeParen]) c := by
  intro name hname
  rw [List.getLast?_concat] at hname
  cases hname

namespace Parse

/-- The shape of a primary. -/
def PrimaryShape (w : List Token) (e : Expr) (c : Token) : Prop :=
  Derives .primary w e.term ∧ Separates w c

/-- The shape of an expression. -/
def ExpressionShape (w : List Token) (e : Expr) (c : Token) : Prop :=
  Derives (.tier .comparison) w e.term ∧ Stops w c

/-- The shape of operators with their operands. -/
def OperatorsShape (w : List Token) (chain : Chain) (c : Token) : Prop :=
  Links (Derives .primary) w chain.links ∧ Stops w c

/-- The tokens are derived arguments with commas between them and a closing parenthesis. -/
def DerivesArguments (args : List (List Token × Term)) (w : List Token) (es : List Expr) : Prop :=
  (∀ arg ∈ args, Derives (.tier .comparison) arg.1 arg.2) ∧ args.map Prod.snd = Expr.terms es ∧
    w = [.punctuator .comma].intercalate (args.map Prod.fst) ++ [.punctuator .closeParen]

/-- The shape of arguments behind their opening parenthesis. -/
def ArgumentsShape (w : List Token) (arguments : List Expr × Span) (_ : Token) : Prop :=
  ∃ args, DerivesArguments args w arguments.1

/-- The shape of one argument or more. -/
def ArgumentListShape (w : List Token) (arguments : List Expr × Span) (_ : Token) : Prop :=
  ∃ args, args ≠ [] ∧ DerivesArguments args w arguments.1

theorem takes_closingParen (tokens : List Lexeme) :
    (closingParen tokens).Takes tokens fun w _ _ => w = [.punctuator .closeParen] := by
  unfold closingParen
  split
  · exact ⟨[_], rfl, rfl⟩
  · exact List.suffix_refl _

theorem takes_argumentSeparator (tokens : List Lexeme) :
    (argumentSeparator tokens).Takes tokens fun w close _ =>
      w = [.punctuator (if close.isSome then .closeParen else .comma)] := by
  unfold argumentSeparator
  split
  · exact ⟨[_], rfl, rfl⟩
  · exact ⟨[_], rfl, rfl⟩
  · exact List.suffix_refl _

/-- A primary takes its shape if what it reads inside of it does. -/
theorem takes_primary (tokens : List Lexeme)
    (harguments : ∀ inner, inner.length < tokens.length →
      (arguments inner).Takes inner ArgumentsShape)
    (hexpression : ∀ inner, inner.length < tokens.length →
      (expression inner).Takes inner ExpressionShape) :
    (primary tokens).Takes tokens PrimaryShape := by
  unfold primary
  split
  next value span rest => exact ⟨[_], rfl, .number value, .number value _⟩
  next name span span' inner =>
    have hinner := harguments inner (by simp only [List.length_cons]; omega)
    split
    next h =>
      rw [h] at hinner
      exact hinner.trans ((List.suffix_cons _ inner).trans (List.suffix_cons _ _))
    next h =>
      rw [h] at hinner
      obtain ⟨taken, rfl, args, hargs, hterms, htaken⟩ := hinner
      refine ⟨_ :: _ :: taken, rfl, ?_⟩
      rw [List.map_cons, List.map_cons, htaken]
      refine ⟨?_, Separates.closeParen (_ :: _ :: _) _⟩
      rw [Expr.term, ← hterms]
      exact .call name args hargs
  next name span rest h =>
    refine ⟨[_], rfl, .var name, fun callee _ heq => ?_⟩
    cases rest with
    | nil => cases heq
    | cons lexeme rest =>
        obtain ⟨token, span'⟩ := lexeme
        obtain rfl : token = .punctuator .openParen := heq
        exact h span' rest rfl
  next span inner =>
    have hinner := hexpression inner (by simp only [List.length_cons]; omega)
    split
    next h =>
      rw [h] at hinner
      exact hinner.trans (List.suffix_cons _ inner)
    next body rest shorter h =>
      rw [h] at hinner
      obtain ⟨taken, rfl, hderives, -⟩ := hinner
      have hclose := takes_closingParen rest
      split
      next h =>
        rw [h] at hclose
        exact (hclose.trans (List.suffix_append _ _)).trans (List.suffix_cons _ _)
      next h =>
        rw [h] at hclose
        obtain ⟨close, rfl, hclose⟩ := hclose
        refine ⟨⟨.punctuator .openParen, span⟩ :: (taken ++ close), by simp, ?_⟩
        rw [List.map_cons, List.map_append, hclose]
        refine ⟨?_, Separates.closeParen (_ :: _) _⟩
        rw [Expr.term_withSpan]
        exact .parens hderives
  · exact List.suffix_refl _
  · exact List.suffix_refl _

/-- Operators take their shape if the operands do. -/
theorem takes_operators (tokens : List Lexeme)
    (hprimary : ∀ inner, inner.length < tokens.length → (primary inner).Takes inner PrimaryShape)
    (hoperators : ∀ inner, inner.length < tokens.length →
      (operators inner).Takes inner OperatorsShape) :
    (operators tokens).Takes tokens OperatorsShape := by
  unfold operators
  split
  next mark span rest =>
    split
    next h =>
      refine ⟨[], rfl, .nil, fun op heq => ?_, .nil _⟩
      cases heq
      rw [Operator.ofMark?_mark] at h
      cases h
    next op h =>
      have hoperand := hprimary rest (Reading.length_lt rest)
      split
      next h =>
        rw [h] at hoperand
        exact hoperand.trans (List.suffix_cons _ rest)
      next operand rest' shorter h =>
        rw [h] at hoperand
        have hchain := hoperators rest' (Nat.lt_succ_of_lt shorter)
        obtain ⟨taken, rfl, hderives, hsep⟩ := hoperand
        split
        next h =>
          rw [h] at hchain
          exact (hchain.trans (List.suffix_append _ _)).trans (List.suffix_cons _ _)
        next h =>
          rw [h] at hchain
          obtain ⟨taken', rfl, hlinks, hstops⟩ := hchain
          obtain rfl := Operator.mark_of_ofMark? ‹_›
          refine ⟨⟨.punctuator op.mark, span⟩ :: (taken ++ taken'), by simp, ?_⟩
          rw [List.map_cons, List.map_append]
          refine ⟨.cons hderives hlinks, hstops.operator, ?_⟩
          refine Separates.append (u := [_]) (fun hnil => ?_)
            (Separates.append (fun hnil => ?_) hstops.call)
          · cases hderives.ne_nil (List.append_eq_nil_iff.1 hnil).1
          · obtain rfl : taken' = [] := List.map_eq_nil_iff.1 hnil
            exact hsep
  next h =>
    refine ⟨[], rfl, .nil, fun op heq => ?_, .nil _⟩
    cases tokens with
    | nil => cases heq
    | cons lexeme tokens =>
        obtain ⟨token, span⟩ := lexeme
        obtain rfl : token = .punctuator op.mark := heq
        exact h op.mark span tokens rfl

/-- An expression takes its shape if its first operand and its operators do. -/
theorem takes_expression (tokens : List Lexeme)
    (hprimary : (primary tokens).Takes tokens PrimaryShape)
    (hoperators : ∀ inner, inner.length < tokens.length →
      (operators inner).Takes inner OperatorsShape) :
    (expression tokens).Takes tokens ExpressionShape := by
  rw [expression_eq]
  split
  next h =>
    rw [h] at hprimary
    exact hprimary
  next first rest shorter h =>
    rw [h] at hprimary
    have hchain := hoperators rest shorter
    obtain ⟨taken, rfl, hfirst, hsep⟩ := hprimary
    split
    next h =>
      rw [h] at hchain
      exact hchain.trans (List.suffix_append _ _)
    next h =>
      rw [h] at hchain
      obtain ⟨taken', rfl, hlinks, hstops⟩ := hchain
      refine ⟨taken ++ taken', (List.append_assoc _ _ _).symm, ?_⟩
      rw [List.map_append]
      refine ⟨?_, hstops.operator, Separates.append (fun hnil => ?_) hstops.call⟩
      · rw [Chain.term_tree]
        exact hfirst.joinAll hlinks
      · obtain rfl : taken' = [] := List.map_eq_nil_iff.1 hnil
        exact hsep

/-- One argument or more take their shape if the first and the others do. -/
theorem takes_argumentList (tokens : List Lexeme)
    (hexpression : (expression tokens).Takes tokens ExpressionShape)
    (hlist : ∀ inner, inner.length < tokens.length →
      (argumentList inner).Takes inner ArgumentListShape) :
    (argumentList tokens).Takes tokens ArgumentListShape := by
  unfold argumentList
  split
  next h =>
    rw [h] at hexpression
    exact hexpression
  next arg rest shorter h =>
    rw [h] at hexpression
    obtain ⟨taken, rfl, hderives, -⟩ := hexpression
    have hseparator := takes_argumentSeparator rest
    split
    next h =>
      rw [h] at hseparator
      exact hseparator.trans (List.suffix_append _ _)
    next h =>
      rw [h] at hseparator
      obtain ⟨close, rfl, hclose⟩ := hseparator
      refine ⟨taken ++ close, by simp, [(taken.map Lexeme.token, arg.term)], by simp, ?_, rfl, ?_⟩
      · intro arg' hmem
        rw [List.mem_singleton.1 hmem]
        exact hderives
      · rw [List.map_append, hclose]
        simp
    next rest' shorter' h =>
      rw [h] at hseparator
      have hothers := hlist rest' (Nat.lt_trans shorter' shorter)
      obtain ⟨comma, rfl, hcomma⟩ := hseparator
      split
      next h =>
        rw [h] at hothers
        exact (hothers.trans (List.suffix_append _ _)).trans (List.suffix_append _ _)
      next h =>
        rw [h] at hothers
        obtain ⟨taken', rfl, args, hne, hargs, hterms, htaken⟩ := hothers
        refine ⟨taken ++ (comma ++ taken'), by simp, (taken.map Lexeme.token, arg.term) :: args,
          List.cons_ne_nil _ _, ?_, ?_, ?_⟩
        · intro arg' hmem
          rcases List.mem_cons.1 hmem with rfl | hmem
          · exact hderives
          · exact hargs arg' hmem
        · rw [List.map_cons, hterms, Expr.terms]
        · rw [List.map_append, List.map_append, hcomma, htaken, List.map_cons,
            List.intercalate_cons_of_ne_nil (by simpa using hne)]
          simp

theorem takes_arguments (tokens : List Lexeme)
    (hlist : (argumentList tokens).Takes tokens ArgumentListShape) :
    (arguments tokens).Takes tokens ArgumentsShape := by
  unfold arguments
  split
  · exact ⟨[_], rfl, [], List.forall_mem_nil _, rfl, rfl⟩
  · refine hlist.mono fun w value c h => ?_
    obtain ⟨args, -, hargs⟩ := h
    exact ⟨args, hargs⟩

/-- What the readers of expressions take has their shapes. -/
theorem takes_readers (tokens : List Lexeme) :
    (primary tokens).Takes tokens PrimaryShape ∧ (expression tokens).Takes tokens ExpressionShape ∧
      (operators tokens).Takes tokens OperatorsShape ∧
      (arguments tokens).Takes tokens ArgumentsShape ∧
      (argumentList tokens).Takes tokens ArgumentListShape := by
  have hinner := fun (inner : List Lexeme) (_ : inner.length < tokens.length) =>
    takes_readers inner
  have hprimary := takes_primary tokens (fun inner hlt => (hinner inner hlt).2.2.2.1)
    (fun inner hlt => (hinner inner hlt).2.1)
  have hoperators := takes_operators tokens (fun inner hlt => (hinner inner hlt).1)
    (fun inner hlt => (hinner inner hlt).2.2.1)
  have hexpression := takes_expression tokens hprimary fun inner hlt => (hinner inner hlt).2.2.1
  have hlist := takes_argumentList tokens hexpression fun inner hlt => (hinner inner hlt).2.2.2.2
  exact ⟨hprimary, hexpression, hoperators, takes_arguments tokens hlist, hlist⟩
  termination_by tokens.length

end Parse

end ScalarLang
