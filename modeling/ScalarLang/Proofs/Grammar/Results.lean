import ScalarLang.Proofs.Grammar.Program

/-!
# Results of readers

The equations here give the result of every reader in terms of the results of the readers that it
calls, and say at which tokens it is refused. The statements of a program follow one another in
the same way.
-/

namespace ScalarLang

theorem exists_eq_cons_of_nextToken {tokens : List Lexeme} {token : Token}
    (h : nextToken tokens = token) (hne : token ≠ .endOfInput) :
    ∃ span rest, tokens = ⟨token, span⟩ :: rest := by
  cases tokens with
  | nil => exact absurd h.symm hne
  | cons lexeme rest =>
      obtain ⟨token', span⟩ := lexeme
      obtain rfl : token' = token := h
      exact ⟨span, rest, rfl⟩

open Reading

namespace Parse

variable {tokens rest inner : List Lexeme} {name : String} {span span' : Span}

theorem result_closingParen (span : Span) (rest : List Lexeme) :
    (closingParen (⟨.punctuator .closeParen, span⟩ :: rest)).result = (.ok span, rest) := rfl

theorem result_closingParen_refused (h : nextToken tokens ≠ .punctuator .closeParen) :
    (closingParen tokens).result = (.error .closingParen, tokens) := by
  unfold closingParen
  split
  · exact absurd rfl h
  · rfl

/-- What a primary reader expects instead of a token that starts no primary. -/
def refusal? : Token → Option Expectation
  | .number _ | .identifier _ | .punctuator .openParen => none
  | .keyword _ => some .expressionNotKeyword
  | .punctuator _ | .unknown _ | .endOfInput => some .expression

theorem result_primary_number (value : Float) (span : Span) (rest : List Lexeme) :
    (primary (⟨.number value, span⟩ :: rest)).result = (.ok (.number value span), rest) := by
  rw [primary]
  rfl

theorem result_primary_var (h : nextToken rest ≠ .punctuator .openParen) :
    (primary (⟨.identifier name, span⟩ :: rest)).result = (.ok (.var name span), rest) := by
  rw [primary]
  · rfl
  · rintro span' inner rfl
    exact h rfl

theorem result_primary_call :
    (primary (⟨.identifier name, span⟩ :: ⟨.punctuator .openParen, span'⟩ :: inner)).result =
      (arguments inner).result.map fun args => .call name args.1 (span.cover args.2) := by
  rw [primary]
  generalize arguments inner = r
  cases r <;> rfl

theorem result_primary_parens :
    (primary (⟨.punctuator .openParen, span⟩ :: inner)).result =
      (expression inner).result.bind fun body rest =>
        (closingParen rest).result.map fun close => body.withSpan (span.cover close) := by
  rw [primary]
  generalize expression inner = r
  cases r with
  | failed => rfl
  | read body rest shorter =>
      dsimp only [result, Result.bind]
      generalize closingParen rest = r'
      cases r' <;> rfl

theorem result_primary_refused {expected : Expectation}
    (h : refusal? (nextToken tokens) = some expected) :
    (primary tokens).result = (.error expected, tokens) := by
  rw [primary.eq_def]
  cases tokens with
  | nil =>
      cases h
      rfl
  | cons lexeme rest =>
      obtain ⟨token, span⟩ := lexeme
      cases token with
      | number | identifier => cases h
      | punctuator mark =>
          cases mark with
          | openParen => cases h
          | _ =>
              cases h
              rfl
      | endOfInput | keyword | unknown =>
          cases h
          rfl

theorem result_operators_of_stops (h : ∀ op : Operator, nextToken tokens ≠ .punctuator op.mark) :
    (operators tokens).result = (.ok [], tokens) := by
  obtain ⟨chain, shorter, heq, rfl⟩ := (operators_of_stops h).exists_eq
  rw [heq]
  rfl

theorem result_arguments_nil (close : Span) (rest : List Lexeme) :
    (arguments (⟨.punctuator .closeParen, close⟩ :: rest)).result = (.ok ([], close), rest) := by
  rw [arguments]
  rfl

theorem result_arguments (h : nextToken tokens ≠ .punctuator .closeParen) :
    (arguments tokens).result = (argumentList tokens).result := by
  unfold arguments
  split
  · exact absurd rfl h
  · rfl

/-- What is read behind an argument. -/
def argumentsBehind (arg : Expr) (rest : List Lexeme) : Result (List Expr × Span) :=
  (argumentSeparator rest).result.bind fun
    | some close, rest => (.ok ([arg], close), rest)
    | none, rest => (argumentList rest).result.map fun args => (arg :: args.1, args.2)

theorem argumentsBehind_refused {arg : Expr} (hclose : nextToken tokens ≠ .punctuator .closeParen)
    (hcomma : nextToken tokens ≠ .punctuator .comma) :
    argumentsBehind arg tokens = (.error .argumentSeparator, tokens) := by
  unfold argumentsBehind argumentSeparator
  split
  · exact absurd rfl hclose
  · exact absurd rfl hcomma
  · rfl

theorem result_argumentList (tokens : List Lexeme) :
    (argumentList tokens).result = (expression tokens).result.bind argumentsBehind := by
  rw [argumentList]
  generalize expression tokens = r
  cases r with
  | failed => rfl
  | read arg rest shorter =>
      dsimp only [result, Result.bind, argumentsBehind]
      generalize argumentSeparator rest = r'
      rcases r' with ⟨_ | close, rest', shorter'⟩ | _
      · dsimp only
        generalize argumentList rest' = r''
        cases r'' <;> rfl
      · rfl
      · rfl

/-- What is read behind a parameter. -/
def parametersBehind (param : String) : List Lexeme → Result (List String × Span)
  | ⟨.punctuator .closeParen, close⟩ :: rest => (.ok ([param], close), rest)
  | ⟨.punctuator .comma, _⟩ :: rest =>
    (parameterList rest).result.map fun params => (param :: params.1, params.2)
  | rest => (.error .parameterSeparator, rest)

theorem parametersBehind_refused {param : String}
    (hclose : nextToken tokens ≠ .punctuator .closeParen)
    (hcomma : nextToken tokens ≠ .punctuator .comma) :
    parametersBehind param tokens = (.error .parameterSeparator, tokens) := by
  unfold parametersBehind
  split
  · exact absurd rfl hclose
  · exact absurd rfl hcomma
  · rfl

theorem result_parameterList_cons (param : String) (span : Span) (rest : List Lexeme) :
    (parameterList (⟨.identifier param, span⟩ :: rest)).result = parametersBehind param rest := by
  unfold parametersBehind
  split
  · rw [parameterList]
    rfl
  next inner =>
    rw [parameterList]
    generalize parameterList inner = r
    cases r <;> rfl
  · rw [parameterList]
    · rfl
    all_goals assumption

theorem result_parameterList_refused (h : ∀ param, nextToken tokens ≠ .identifier param) :
    (parameterList tokens).result = (.error .parameter, tokens) := by
  unfold parameterList
  split
  · exact absurd rfl (h _)
  · exact absurd rfl (h _)
  · exact absurd rfl (h _)
  · rfl

theorem result_parameters (h : nextToken tokens ≠ .punctuator .closeParen) :
    (parameters tokens).result = (parameterList tokens).result := by
  unfold parameters
  split
  · exact absurd rfl h
  · rfl

theorem result_prototype :
    (prototype (⟨.identifier name, span⟩ :: ⟨.punctuator .openParen, span'⟩ :: inner)).result =
      (parameters inner).result.map fun params => ⟨name, params.1, span.cover params.2⟩ := by
  rw [prototype, result_weaken, result_map]

theorem result_prototype_unopened (h : nextToken rest ≠ .punctuator .openParen) :
    (prototype (⟨.identifier name, span⟩ :: rest)).result = (.error .openingParen, rest) := by
  rw [prototype]
  · rfl
  · rintro span' inner rfl
    exact h rfl

theorem result_prototype_refused (h : ∀ name, nextToken tokens ≠ .identifier name) :
    (prototype tokens).result = (.error .functionName, tokens) := by
  unfold prototype
  split
  · exact absurd rfl (h _)
  · exact absurd rfl (h _)
  · rfl

/-- What is read behind the prototype of a definition. -/
def definitionBehind (p : Prototype) (rest : List Lexeme) : Result Definition :=
  (expression rest).result.map (Definition.mk p)

theorem result_statementHere_definition (span : Span) (rest : List Lexeme) :
    (statementHere (⟨.keyword .definition, span⟩ :: rest)).result =
      ((prototype rest).result.bind definitionBehind).map .definition := by
  rw [statementHere]
  refine ((result_weaken _ _).trans (result_map _ _)).trans ?_
  congr 1
  unfold definition
  dsimp only [List.tail_cons]
  generalize prototype rest = r
  cases r with
  | failed => rfl
  | read p rest' shorter =>
      exact (result_weaken _ _).trans (result_map _ _)

theorem result_statementHere_external (span : Span) (rest : List Lexeme) :
    (statementHere (⟨.keyword .external, span⟩ :: rest)).result =
      (prototype rest).result.map .external := by
  rw [statementHere]
  exact (result_weaken _ _).trans (result_map _ _)

theorem result_statementHere_topLevel (hdefinition : nextToken tokens ≠ .keyword .definition)
    (hexternal : nextToken tokens ≠ .keyword .external) :
    (statementHere tokens).result =
      (expression tokens).result.map fun body => .topLevel (.anonymous body) := by
  unfold statementHere
  split
  · have hrefused : refusal? (nextToken []) = some .expression := rfl
    rw [result_expression, result_primary_refused hrefused]
    rfl
  · exact absurd rfl hdefinition
  · exact absurd rfl hexternal
  · rw [topLevel, result_map, result_map]
    generalize (expression tokens).result = r
    rcases r with ⟨_ | _, _⟩ <;> rfl

/-- A statement is read as a definition, as an external declaration or as an expression. -/
theorem cases_of_statementHere {statement : Statement}
    (h : (statementHere tokens).result = (.ok statement, rest)) :
    (∃ span behind p rest' body, tokens = ⟨.keyword .definition, span⟩ :: behind ∧
      (prototype behind).result = (.ok p, rest') ∧
      (expression rest').result = (.ok body, rest) ∧ statement = .definition ⟨p, body⟩) ∨
    (∃ span behind p, tokens = ⟨.keyword .external, span⟩ :: behind ∧
      (prototype behind).result = (.ok p, rest) ∧ statement = .external p) ∨
    ∃ body, (expression tokens).result = (.ok body, rest) ∧
      statement = .topLevel (.anonymous body) := by
  by_cases hdefinition : nextToken tokens = .keyword .definition
  · obtain ⟨span, behind, rfl⟩ := exists_eq_cons_of_nextToken hdefinition nofun
    rw [result_statementHere_definition, Result.map_eq_ok_iff] at h
    obtain ⟨d, hd, rfl⟩ := h
    obtain ⟨p, rest', hprototype, hbehind⟩ := Result.bind_eq_ok_iff.1 hd
    obtain ⟨body, hbody, rfl⟩ := Result.map_eq_ok_iff.1 hbehind
    exact .inl ⟨span, behind, p, rest', body, rfl, hprototype, hbody, rfl⟩
  by_cases hexternal : nextToken tokens = .keyword .external
  · obtain ⟨span, behind, rfl⟩ := exists_eq_cons_of_nextToken hexternal nofun
    rw [result_statementHere_external, Result.map_eq_ok_iff] at h
    obtain ⟨p, hprototype, rfl⟩ := h
    exact .inr (.inl ⟨span, behind, p, rfl, hprototype, rfl⟩)
  · rw [result_statementHere_topLevel hdefinition hexternal, Result.map_eq_ok_iff] at h
    obtain ⟨body, hbody, rfl⟩ := h
    exact .inr (.inr ⟨body, hbody, rfl⟩)

/-- What is read as a statement is neither the end of input nor an error. -/
theorem ne_of_statementHere {statement : Statement}
    (h : (statementHere tokens).result = (.ok statement, rest)) :
    statement ≠ .endOfInput ∧ ∀ error, statement ≠ .malformed error := by
  obtain ⟨_, _, _, _, _, _, _, _, rfl⟩ | ⟨_, _, _, _, _, rfl⟩ | ⟨_, _, rfl⟩ :=
    cases_of_statementHere h <;> simp

end Parse

namespace TokenStream

/-- The statement at tokens that are no separators, and the stream behind it. -/
def ofResult (stop : Nat) : Reading.Result Statement → Statement × TokenStream
  | (.ok statement, rest) => (statement, ⟨rest, stop⟩)
  | (.error expected, rest) =>
    (.malformed (.ofLexeme expected (TokenStream.mk rest stop).current),
      (TokenStream.mk rest stop).advance)

theorem statement_of_skipped_eq {s : TokenStream} {tokens : List Lexeme}
    (h : s.skipped.ahead = tokens) (hne : tokens ≠ []) :
    s.statement = ofResult s.stop (Parse.statementHere tokens).result := by
  have h' : s.ahead.dropWhile Parse.isSeparator = tokens := h
  unfold statement
  rw [h']
  cases tokens with
  | nil => exact absurd rfl hne
  | cons lexeme rest =>
      dsimp only
      generalize Parse.statementHere (lexeme :: rest) = r
      cases r <;> rfl

theorem statement_of_skipped_nil {s : TokenStream} (h : s.skipped.ahead = []) :
    s.statement = (.endOfInput, ⟨[], s.stop⟩) := by
  have h' : s.ahead.dropWhile Parse.isSeparator = [] := h
  unfold statement
  rw [h']

theorem program_of_skipped_nil {s : TokenStream} (h : s.skipped.ahead = []) :
    s.program.1 = [] := by
  rw [program]
  simp [statement_of_skipped_nil h, Statement.isEnd]

theorem isEnd_statement {s : TokenStream} (h : s.skipped.ahead ≠ []) :
    s.statement.1.isEnd = false := by
  cases hstatement : s.statement.1 with
  | endOfInput => exact absurd (s.statement_eq_endOfInput_iff.1 hstatement) h
  | definition | external | topLevel | malformed => rfl

theorem program_of_skipped_ne_nil {s : TokenStream} (h : s.skipped.ahead ≠ []) :
    s.program.1 = s.statement.1 :: s.statement.2.program.1 := by
  rw [program_cons (isEnd_statement h)]

theorem length_ahead_lt {s : TokenStream} (h : s.skipped.ahead ≠ []) :
    s.statement.2.ahead.length < s.ahead.length :=
  s.length_ahead_statement_lt (isEnd_statement h)

end TokenStream

end ScalarLang
