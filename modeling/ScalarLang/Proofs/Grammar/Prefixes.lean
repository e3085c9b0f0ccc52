import ScalarLang.Proofs.Grammar.Spelling

/-!
# Where a statement cannot go on

A reader that fails has taken tokens that others complete to what it reads: so does each reader if
those that it calls do (`Parse.completes_readers`, `Parse.completes_statementHere`). With the token
at which it fails they start nothing that it reads, because it fails in front of that token whatever
follows, and everything that the grammar derives is read (`Parse.not_startsStatement`). So an error
is at the first token that no statement goes on with (`TokenStream.malformed_at_first_misfit`).
-/

namespace ScalarLang

open Reading

/-- The tokens derive an expression. -/
def IsExpression (w : List Token) : Prop := ∃ e, Derives (.tier .comparison) w e

/-- The tokens derive a primary. -/
def IsPrimary (w : List Token) : Prop := ∃ e, Derives .primary w e

/-- The tokens are the arguments of a call behind its parenthesis, at least one. -/
def IsArgumentList (w : List Token) : Prop :=
  ∃ args : List (List Token × Term), args ≠ [] ∧
    (∀ arg ∈ args, Derives (.tier .comparison) arg.1 arg.2) ∧
    w = [.punctuator .comma].intercalate (args.map Prod.fst) ++ [.punctuator .closeParen]

/-- The tokens are a statement of the grammar. -/
def IsStatement (w : List Token) : Prop := ∃ phrase : Phrase, phrase.Written w .endOfInput

/-- A statement of the grammar starts with the tokens. -/
def StartsStatement (w : List Token) : Prop := ∃ v, IsStatement (w ++ v)

theorem IsPrimary.number (value : Float) : IsPrimary [.number value] := ⟨_, .number value⟩

theorem IsPrimary.isExpression {w : List Token} (h : IsPrimary w) : IsExpression w :=
  h.imp fun _ h => .tighter (.tighter (.tighter h))

theorem IsPrimary.parens {w : List Token} (h : IsExpression w) :
    IsPrimary (.punctuator .openParen :: (w ++ [.punctuator .closeParen])) :=
  h.imp fun _ h => .parens h

theorem IsPrimary.call (name : String) {w : List Token} (h : IsArgumentList w) :
    IsPrimary (.identifier name :: .punctuator .openParen :: w) := by
  obtain ⟨args, -, hargs, rfl⟩ := h
  exact ⟨_, .call name args hargs⟩

theorem IsExpression.isArgumentList {w : List Token} (h : IsExpression w) :
    IsArgumentList (w ++ [.punctuator .closeParen]) := by
  obtain ⟨e, h⟩ := h
  exact ⟨[(w, e)], List.cons_ne_nil _ _, List.forall_mem_singleton.2 h, by simp⟩

theorem IsArgumentList.cons {v w : List Token} (h : IsExpression v) (h' : IsArgumentList w) :
    IsArgumentList (v ++ .punctuator .comma :: w) := by
  obtain ⟨e, h⟩ := h
  obtain ⟨args, hne, hargs, rfl⟩ := h'
  refine ⟨(v, e) :: args, List.cons_ne_nil _ _, List.forall_mem_cons.2 ⟨h, hargs⟩, ?_⟩
  rw [List.map_cons, List.intercalate_cons_of_ne_nil (by simpa using hne)]
  simp

namespace Reading

variable {α β : Type} {limit : Nat} {tokens rest : List Lexeme}

theorem Takes.exists_of_result {shape : List Token → α → Token → Prop} {r : Reading α limit}
    {value : α} (h : r.Takes tokens shape) (hread : r.result = (.ok value, rest)) :
    ∃ taken, tokens = taken ++ rest ∧ shape (taken.map Lexeme.token) value (nextToken rest) := by
  cases r with
  | read =>
      cases hread
      exact h
  | failed => cases hread

/-- If the run fails, there are tokens that complete those that it takes to the shape. -/
def Result.Completes (shape : List Token → Prop) (tokens : List Lexeme) : Result α → Prop
  | (.ok _, _) => True
  | (.error _, rest) => ∃ taken v, tokens = taken ++ rest ∧ shape (taken.map Lexeme.token ++ v)

namespace Result.Completes

variable {shape shape' : List Token → Prop} {r : Result α}

/-- A run that fails at once. -/
theorem refused {v : List Token} (h : shape v) (expected : Expectation) :
    Completes (α := α) shape tokens (.error expected, tokens) :=
  ⟨[], v, rfl, h⟩

theorem map (h : r.Completes shape tokens) (f : α → β) : (r.map f).Completes shape tokens := by
  obtain ⟨_ | value, rest⟩ := r
  · exact h
  · trivial

/-- Tokens in front of those that the run takes. -/
theorem append (taken : List Lexeme) (h : r.Completes shape tokens)
    (hshape : ∀ w, shape w → shape' (taken.map Lexeme.token ++ w)) :
    r.Completes shape' (taken ++ tokens) := by
  obtain ⟨_ | value, rest⟩ := r
  · obtain ⟨taken', v, rfl, hv⟩ := h
    refine ⟨taken ++ taken', v, (List.append_assoc _ _ _).symm, ?_⟩
    rw [List.map_append, List.append_assoc]
    exact hshape _ hv
  · trivial

theorem cons {lexeme : Lexeme} (h : r.Completes shape tokens)
    (hshape : ∀ w, shape w → shape' (lexeme.token :: w)) :
    r.Completes shape' (lexeme :: tokens) :=
  h.append [lexeme] hshape

theorem mono (h : r.Completes shape tokens) (hshape : ∀ w, shape w → shape' w) :
    r.Completes shape' tokens :=
  h.append [] hshape

/-- One run behind the other: what completes the first is completed further. -/
theorem bind {f : α → List Lexeme → Result β} (h : r.Completes shape tokens)
    (hshape : ∀ w, shape w → ∃ v, shape' (w ++ v))
    (hf : ∀ value rest, r = (.ok value, rest) → (f value rest).Completes shape' tokens) :
    (r.bind f).Completes shape' tokens := by
  obtain ⟨_ | value, rest⟩ := r
  · obtain ⟨taken, v, htokens, hv⟩ := h
    obtain ⟨v', hv'⟩ := hshape _ hv
    exact ⟨taken, v ++ v', htokens, by rwa [← List.append_assoc]⟩
  · exact hf value rest rfl

end Result.Completes

end Reading

namespace Parse

variable {tokens rest : List Lexeme}

theorem exists_of_result_expression {e : Expr} (h : (expression tokens).result = (.ok e, rest)) :
    ∃ taken, tokens = taken ++ rest ∧ IsExpression (taken.map Lexeme.token) := by
  obtain ⟨taken, rfl, hderives, -⟩ := (takes_readers tokens).2.1.exists_of_result h
  exact ⟨taken, rfl, e.term, hderives⟩

theorem completes_primary
    (harguments : ∀ inner, inner.length < tokens.length →
      (arguments inner).result.Completes IsArgumentList inner)
    (hexpression : ∀ inner, inner.length < tokens.length →
      (expression inner).result.Completes IsExpression inner) :
    (primary tokens).result.Completes IsPrimary tokens := by
  have hmark (mark : Punctuator) : Token.punctuator mark ≠ .endOfInput := nofun
  -- In place of a token that starts no primary there could be a number.
  have hrefused : ∀ expected, refusal? (nextToken tokens) = some expected →
      (primary tokens).result.Completes IsPrimary tokens := by
    intro expected h
    rw [result_primary_refused h]
    exact .refused (.number 0) expected
  cases tokens with
  | nil => exact hrefused _ rfl
  | cons lexeme rest =>
      obtain ⟨token, span⟩ := lexeme
      cases token with
      | endOfInput | keyword | unknown => exact hrefused _ rfl
      | number value =>
          rw [result_primary_number]
          trivial
      | identifier name =>
          by_cases hcall : nextToken rest = .punctuator .openParen
          · obtain ⟨span', inner, rfl⟩ := exists_eq_cons_of_nextToken hcall (hmark _)
            have hinner := harguments inner (by simp only [List.length_cons]; omega)
            rw [result_primary_call]
            exact (hinner.map _).append [_, _] fun w => .call name
          · rw [result_primary_var hcall]
            trivial
      | punctuator mark =>
          by_cases hopen : mark = .openParen
          · subst hopen
            rw [result_primary_parens]
            have hinner := hexpression rest (Reading.length_lt rest)
            refine (hinner.bind (fun w h => ⟨_, IsPrimary.parens h⟩) ?_).cons fun _ => id
            intro body rest' hbody
            obtain ⟨taken, rfl, htaken⟩ := exists_of_result_expression hbody
            by_cases hclose : nextToken rest' = .punctuator .closeParen
            · obtain ⟨close, rest', rfl⟩ := exists_eq_cons_of_nextToken hclose (hmark _)
              rw [result_closingParen]
              trivial
            · rw [result_closingParen_refused hclose]
              exact ⟨taken, _, rfl, IsPrimary.parens htaken⟩
          · refine hrefused .expression ?_
            cases mark with
            | openParen => exact absurd rfl hopen
            | _ => rfl

/-- The tokens are operators with their operands. -/
def IsChain (w : List Token) : Prop := ∃ links, Links (Derives .primary) w links

theorem completes_operators
    (hprimary : ∀ inner, inner.length < tokens.length →
      (primary inner).result.Completes IsPrimary inner)
    (hoperators : ∀ inner, inner.length < tokens.length →
      (operators inner).result.Completes IsChain inner) :
    (operators tokens).result.Completes IsChain tokens := by
  by_cases hop : ∃ op : Operator, nextToken tokens = .punctuator op.mark
  · obtain ⟨op, hnext⟩ := hop
    obtain ⟨span, rest, rfl⟩ := exists_eq_cons_of_nextToken hnext nofun
    have hlink {u v : List Token} (hu : IsPrimary u) (hv : IsChain v) :
        IsChain (.punctuator op.mark :: (u ++ v)) := by
      obtain ⟨e, hu⟩ := hu
      obtain ⟨links, hv⟩ := hv
      exact ⟨_, .cons hu hv⟩
    rw [result_operators_cons]
    have hoperand := hprimary rest (Reading.length_lt rest)
    refine (hoperand.bind (fun w h => ⟨[], hlink h ⟨_, .nil⟩⟩) ?_).cons fun _ => id
    intro operand rest' hread
    have hothers := hoperators rest' (Nat.lt_succ_of_lt (length_lt_of_result hread))
    obtain ⟨taken, rfl, hderives, -⟩ := (takes_readers rest).1.exists_of_result hread
    exact (hothers.map _).append taken fun w => hlink ⟨_, hderives⟩
  · rw [result_operators_of_stops (not_exists.1 hop)]
    trivial

theorem completes_expression
    (hprimary : (primary tokens).result.Completes IsPrimary tokens)
    (hoperators : ∀ inner, inner.length < tokens.length →
      (operators inner).result.Completes IsChain inner) :
    (expression tokens).result.Completes IsExpression tokens := by
  rw [result_expression]
  refine hprimary.bind (fun w h => ⟨[], ?_⟩) fun first rest hread => ?_
  · rw [List.append_nil]
    exact h.isExpression
  · have hchain := hoperators rest (length_lt_of_result hread)
    obtain ⟨taken, rfl, hderives, -⟩ := (takes_readers tokens).1.exists_of_result hread
    exact (hchain.map _).append taken fun w ⟨links, hlinks⟩ => ⟨_, hderives.joinAll hlinks⟩

theorem completes_argumentList
    (hexpression : (expression tokens).result.Completes IsExpression tokens)
    (hlist : ∀ inner, inner.length < tokens.length →
      (argumentList inner).result.Completes IsArgumentList inner) :
    (argumentList tokens).result.Completes IsArgumentList tokens := by
  rw [result_argumentList]
  refine hexpression.bind (fun w h => ⟨_, h.isArgumentList⟩) fun arg rest hread => ?_
  have hshorter := length_lt_of_result hread
  obtain ⟨taken, rfl, htaken⟩ := exists_of_result_expression hread
  by_cases hclose : nextToken rest = .punctuator .closeParen
  · obtain ⟨close, rest, rfl⟩ := exists_eq_cons_of_nextToken hclose nofun
    trivial
  by_cases hcomma : nextToken rest = .punctuator .comma
  · obtain ⟨span, inner, rfl⟩ := exists_eq_cons_of_nextToken hcomma nofun
    have hothers := hlist inner (Nat.lt_of_succ_lt hshorter)
    refine Result.Completes.append taken ?_ fun w => id
    exact (hothers.map _).cons fun w => .cons htaken
  · rw [argumentsBehind_refused hclose hcomma]
    exact ⟨taken, _, rfl, htaken.isArgumentList⟩

theorem completes_arguments
    (hlist : (argumentList tokens).result.Completes IsArgumentList tokens) :
    (arguments tokens).result.Completes IsArgumentList tokens := by
  by_cases hclose : nextToken tokens = .punctuator .closeParen
  · obtain ⟨close, rest, rfl⟩ := exists_eq_cons_of_nextToken hclose nofun
    rw [result_arguments_nil]
    trivial
  · rw [result_arguments hclose]
    exact hlist

/-- What the readers of expressions take before they fail can be completed. -/
theorem completes_readers (tokens : List Lexeme) :
    (primary tokens).result.Completes IsPrimary tokens ∧
      (expression tokens).result.Completes IsExpression tokens ∧
      (operators tokens).result.Completes IsChain tokens ∧
      (arguments tokens).result.Completes IsArgumentList tokens ∧
      (argumentList tokens).result.Completes IsArgumentList tokens := by
  have hinner := fun (inner : List Lexeme) (_ : inner.length < tokens.length) =>
    completes_readers inner
  have hprimary := completes_primary (fun inner hlt => (hinner inner hlt).2.2.2.1)
    fun inner hlt => (hinner inner hlt).2.1
  have hoperators := completes_operators (fun inner hlt => (hinner inner hlt).1)
    fun inner hlt => (hinner inner hlt).2.2.1
  have hexpression := completes_expression hprimary fun inner hlt => (hinner inner hlt).2.2.1
  have hlist := completes_argumentList hexpression fun inner hlt => (hinner inner hlt).2.2.2.2
  exact ⟨hprimary, hexpression, hoperators, completes_arguments hlist, hlist⟩
  termination_by tokens.length

/-- The tokens are parameters behind their parenthesis, at least one. -/
def IsParameterList (w : List Token) : Prop :=
  ∃ params, params ≠ [] ∧ w = Prototype.paramTokens params

/-- The tokens are a prototype. -/
def IsPrototype (w : List Token) : Prop := ∃ name params, w = Prototype.tokens name params

theorem IsParameterList.single (param : String) :
    IsParameterList [.identifier param, .punctuator .closeParen] :=
  ⟨[param], List.cons_ne_nil _ _, (Prototype.paramTokens_singleton param).symm⟩

theorem IsParameterList.cons (param : String) {w : List Token} (h : IsParameterList w) :
    IsParameterList (.identifier param :: .punctuator .comma :: w) := by
  obtain ⟨params, hne, rfl⟩ := h
  exact ⟨param :: params, List.cons_ne_nil _ _, (Prototype.paramTokens_cons hne).symm⟩

theorem completes_parameterList (tokens : List Lexeme) :
    (parameterList tokens).result.Completes IsParameterList tokens := by
  by_cases hparam : ∃ param, nextToken tokens = .identifier param
  · obtain ⟨param, hparam⟩ := hparam
    obtain ⟨span, rest, rfl⟩ := exists_eq_cons_of_nextToken hparam nofun
    rw [result_parameterList_cons]
    by_cases hclose : nextToken rest = .punctuator .closeParen
    · obtain ⟨close, rest, rfl⟩ := exists_eq_cons_of_nextToken hclose nofun
      trivial
    by_cases hcomma : nextToken rest = .punctuator .comma
    · obtain ⟨comma, inner, rfl⟩ := exists_eq_cons_of_nextToken hcomma nofun
      exact ((completes_parameterList inner).map _).append [_, _] fun w => .cons param
    · rw [parametersBehind_refused hclose hcomma]
      exact ⟨[_], _, rfl, .single param⟩
  · rw [result_parameterList_refused (not_exists.1 hparam)]
    exact .refused (.single "x") _
  termination_by tokens.length

theorem completes_parameters (tokens : List Lexeme) :
    (parameters tokens).result.Completes IsParameterList tokens := by
  by_cases hclose : nextToken tokens = .punctuator .closeParen
  · obtain ⟨close, rest, rfl⟩ := exists_eq_cons_of_nextToken hclose nofun
    trivial
  · rw [result_parameters hclose]
    exact completes_parameterList tokens

theorem completes_prototype (tokens : List Lexeme) :
    (prototype tokens).result.Completes IsPrototype tokens := by
  by_cases hname : ∃ name, nextToken tokens = .identifier name
  · obtain ⟨name, hname⟩ := hname
    obtain ⟨span, rest, rfl⟩ := exists_eq_cons_of_nextToken hname nofun
    by_cases hopen : nextToken rest = .punctuator .openParen
    · obtain ⟨span', inner, rfl⟩ := exists_eq_cons_of_nextToken hopen nofun
      rw [result_prototype]
      refine ((completes_parameters inner).map _).append [_, _] fun w ⟨params, _, hw⟩ => ?_
      exact ⟨name, params, congrArg (_ :: _ :: ·) hw⟩
    · rw [result_prototype_unopened hopen]
      exact ⟨[_], _, rfl, name, [], rfl⟩
  · rw [result_prototype_refused (not_exists.1 hname)]
    exact .refused ⟨"x", [], rfl⟩ _

end Parse

theorem IsExpression.isStatement {w : List Token} (h : IsExpression w) : IsStatement w :=
  h.imp' _ fun _ h => .topLevel h (.endOfInput w)

theorem IsStatement.definition {v w : List Token} (hv : Parse.IsPrototype v) (hw : IsExpression w) :
    IsStatement (.keyword .definition :: (v ++ w)) := by
  obtain ⟨name, params, rfl⟩ := hv
  obtain ⟨e, hw⟩ := hw
  exact ⟨_, .definition name params hw (.endOfInput w)⟩

theorem IsStatement.external {w : List Token} (h : Parse.IsPrototype w) :
    IsStatement (.keyword .external :: w) := by
  obtain ⟨name, params, rfl⟩ := h
  exact ⟨_, .external name params _⟩

namespace Parse

variable {tokens rest : List Lexeme}

/-- What the reader of statements takes before it fails starts a statement. -/
theorem completes_statementHere (tokens : List Lexeme) :
    (statementHere tokens).result.Completes IsStatement tokens := by
  by_cases hdefinition : nextToken tokens = .keyword .definition
  · obtain ⟨span, rest, rfl⟩ := exists_eq_cons_of_nextToken hdefinition nofun
    rw [result_statementHere_definition]
    refine (((completes_prototype rest).bind ?_ ?_).map _).cons fun w => id
    · exact fun w h => ⟨_, .definition h (IsPrimary.number 0).isExpression⟩
    · intro p rest' hread
      obtain ⟨taken, rfl, htaken⟩ := (takes_prototype rest).exists_of_result hread
      have hbody := ((completes_readers rest').2.1).map (Definition.mk p)
      exact hbody.append taken fun w => .definition ⟨_, _, htaken⟩
  by_cases hexternal : nextToken tokens = .keyword .external
  · obtain ⟨span, rest, rfl⟩ := exists_eq_cons_of_nextToken hexternal nofun
    rw [result_statementHere_external]
    exact ((completes_prototype rest).map _).cons fun w => .external
  · rw [result_statementHere_topLevel hdefinition hexternal]
    exact ((completes_readers tokens).2.1.map _).mono fun w => IsExpression.isStatement

/-- No statement goes on with the token at which the reader fails. -/
theorem not_startsStatement {taken : List Lexeme} {expected : Expectation}
    (h : (statementHere (taken ++ rest)).result = (.error expected, rest)) :
    ¬ StartsStatement (taken.map Lexeme.token ++ [nextToken rest]) := by
  rintro ⟨v, phrase, hwritten⟩
  -- Some tokens with these texts, of which the reader makes the statement.
  let behind : List Lexeme := (nextToken rest :: v).map (Lexeme.mk · ⟨0, 0⟩)
  have hbehind : (taken ++ behind).map Lexeme.token =
      taken.map Lexeme.token ++ [nextToken rest] ++ v := by
    simp [behind, Function.comp_def]
  have hgives := (gives_statementHere (taken ++ behind) [] phrase).2
    ⟨taken ++ behind, (List.append_nil _).symm, hbehind ▸ hwritten⟩
  have hfails := result_statementHere_congr h behind rfl
  obtain ⟨statement, shorter, hread, -⟩ := hgives.exists_eq
  rw [hread] at hfails
  cases hfails

end Parse

namespace TokenStream

/-- The stream at which an error is: what is read in front of its current token, and where reading
goes on. -/
theorem exists_splits_of_malformed {s : TokenStream} {error : ParseError}
    (h : s.statement.1 = .malformed error) :
    ∃ taken stuck expected, s.skipped.Splits taken stuck ∧
      (Parse.statementHere s.skipped.ahead).result = (.error expected, stuck.ahead) ∧
      error = .ofLexeme expected stuck.current ∧ s.statement.2 = stuck.advance := by
  have hne : s.skipped.ahead ≠ [] := (s.statement_eq_malformed_iff.1 ⟨error, h⟩).1
  obtain ⟨taken, htaken, -, -⟩ := Parse.repeats_statementHere 0 s.skipped.ahead
  rw [statement_of_skipped_eq rfl hne] at h ⊢
  generalize hresult : (Parse.statementHere s.skipped.ahead).result = r at h htaken ⊢
  obtain ⟨expected | statement, rest⟩ := r
  · have herror := (Statement.malformed.inj h).symm
    exact ⟨taken, ⟨rest, s.stop⟩, expected, ⟨htaken, rfl⟩, rfl, herror, rfl⟩
  · exact absurd h ((Parse.ne_of_statementHere hresult).2 error)

/-- A statement that is an error is one at the first token that no statement goes on with, and
reading goes on behind that token. The error holds the place of the token and the token, or its text
if it is unknown. -/
theorem malformed_at_first_misfit {s : TokenStream} {error : ParseError}
    (h : s.statement.1 = .malformed error) :
    ∃ taken stuck, s.skipped.Splits taken stuck ∧
      StartsStatement (taken.map Lexeme.token) ∧
      ¬ StartsStatement (taken.map Lexeme.token ++ [stuck.current.token]) ∧
      error.span = stuck.current.span ∧
      (∀ text, stuck.current.token = .unknown text →
        error = .lexicalAnomaly error.expected text stuck.current.span) ∧
      ((∀ text, stuck.current.token ≠ .unknown text) →
        error = .unexpectedToken error.expected stuck.current.token stuck.current.span) ∧
      s.statement.2 = stuck.advance := by
  obtain ⟨taken, stuck, expected, hsplits, hresult, rfl, hbehind⟩ := exists_splits_of_malformed h
  refine ⟨taken, stuck, hsplits, ?_, ?_, ParseError.span_ofLexeme _ _, ?_, ?_, hbehind⟩
  · have hcompletes := Parse.completes_statementHere s.skipped.ahead
    rw [hresult] at hcompletes
    obtain ⟨taken', v, htaken', hstatement⟩ := hcompletes
    obtain rfl := List.append_cancel_right (hsplits.ahead.symm.trans htaken')
    exact ⟨v, hstatement⟩
  · rw [hsplits.ahead] at hresult
    rw [token_current]
    exact Parse.not_startsStatement hresult
  · intro text htext
    rw [ParseError.ofLexeme, htext]
    rfl
  · intro hknown
    rw [ParseError.ofLexeme]
    split
    next text htext => exact absurd htext (hknown text)
    · rfl

/-- In `x*f(y,)+z` an argument is missing at the closing parenthesis, and `+` is read next. -/
theorem malformed_at_first_misfit_argument :
    let s := ofSource "x*f(y,)+z"
    let taken : List Token := [.identifier "x", .punctuator .star, .identifier "f",
      .punctuator .openParen, .identifier "y", .punctuator .comma]
    s.statement = (.malformed (.unexpectedToken .expression (.punctuator .closeParen) ⟨6, 7⟩),
        ⟨[⟨.punctuator .plus, ⟨7, 8⟩⟩, ⟨.identifier "z", ⟨8, 9⟩⟩], 9⟩) ∧
      StartsStatement taken ∧ ¬ StartsStatement (taken ++ [.punctuator .closeParen]) := by
  intro s taken
  have hahead : s.skipped.ahead =
      [⟨.identifier "x", ⟨0, 1⟩⟩, ⟨.punctuator .star, ⟨1, 2⟩⟩, ⟨.identifier "f", ⟨2, 3⟩⟩,
        ⟨.punctuator .openParen, ⟨3, 4⟩⟩, ⟨.identifier "y", ⟨4, 5⟩⟩,
        ⟨.punctuator .comma, ⟨5, 6⟩⟩] ++
      [⟨.punctuator .closeParen, ⟨6, 7⟩⟩, ⟨.punctuator .plus, ⟨7, 8⟩⟩,
        ⟨.identifier "z", ⟨8, 9⟩⟩] := by decide +kernel
  have hstatement : s.statement =
      (.malformed (.unexpectedToken .expression (.punctuator .closeParen) ⟨6, 7⟩),
        ⟨[⟨.punctuator .plus, ⟨7, 8⟩⟩, ⟨.identifier "z", ⟨8, 9⟩⟩], 9⟩) := by
    have hstar : Operator.ofMark? .star = some (.arithmetic .mul) := by decide
    have hcomma : Operator.ofMark? .comma = none := by decide
    have hstop : s.stop = 9 := rfl
    rw [statement_of_skipped_eq hahead (by decide)]
    simp [Parse.statementHere, Parse.topLevel, Parse.expression, Parse.primary, Parse.climb,
      Parse.operand, Parse.arguments, Parse.argumentList, Parse.argumentSeparator, hstar, hcomma,
      hstop, Reading.map, Reading.weaken, ofResult, ParseError.ofLexeme]
  obtain ⟨front, ⟨ahead, stop⟩, hsplits, hstarts, hmisfit, -, -, -, hbehind⟩ :=
    malformed_at_first_misfit (congrArg Prod.fst hstatement)
  rw [hstatement] at hbehind
  cases ahead with
  | nil => cases hbehind
  | cons misfit after =>
      obtain rfl : [⟨.punctuator .plus, ⟨7, 8⟩⟩, ⟨.identifier "z", ⟨8, 9⟩⟩] = after :=
        congrArg TokenStream.ahead hbehind
      obtain ⟨rfl, hmisfit_cons⟩ := List.append_inj' (hahead.symm.trans hsplits.ahead) rfl
      obtain ⟨rfl, -⟩ := List.cons.inj hmisfit_cons
      exact ⟨hstatement, hstarts, hmisfit⟩

end TokenStream

end ScalarLang
