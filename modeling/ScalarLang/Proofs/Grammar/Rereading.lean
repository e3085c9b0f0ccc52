import ScalarLang.Proofs.Grammar.Locality

/-!
# Reading tokens again

Every reader is local: its result is made of those of the readers that it calls, and
`Parse.Local` goes through each of the steps. So an expression is read of its tokens again in
front of anything that cannot go it on (`Parse.local_readers`), and a statement in front of
tokens of which the first is the same (`Parse.repeats_statementHere`).
-/

namespace ScalarLang

open Reading

namespace Parse

theorem isSeparator_mark (op : Operator) (span : Span) :
    isSeparator ⟨.punctuator op.mark, span⟩ = false := by
  rcases op with op | op <;> cases op <;> rfl

/-- The reader is local at the tokens. -/
abbrev LocalAt {α : Type} {limit : List Lexeme → Nat} (offset : Nat) (move : α → α)
    (follow : List Token → Token → Prop)
    (reader : (tokens : List Lexeme) → Reading α (limit tokens)) (tokens : List Lexeme) : Prop :=
  Local offset move follow (fun tokens => (reader tokens).result) tokens (reader tokens).result

/-- The tokens end with a closing parenthesis, behind which anything may follow. -/
def Closed (w : List Token) (_ : Token) : Prop := w.getLast? = some (.punctuator .closeParen)

theorem Closed.separates {w : List Token} {c : Token} (h : Closed w c) (c' : Token) :
    Separates w c' := by
  intro name hname
  rw [Closed, hname] at h
  cases h

theorem Closed.append {v : List Token} {c : Token} (h : Closed v c) (u : List Token) (c' : Token) :
    Closed (u ++ v) c' := by
  rw [Closed] at h ⊢
  rw [List.getLast?_append, h, Option.some_or]

theorem Closed.ne_nil {w : List Token} {c : Token} (h : Closed w c) : w ≠ [] := by
  rintro rfl
  cases h

theorem Closed.cons {w : List Token} {c : Token} (h : Closed w c) (token : Token) :
    Closed (token :: w) c := h.append [token] c

theorem Stops.append {u v : List Token} {c : Token} (h : v = [] → Separates u c)
    (h' : Stops v c) : Stops (u ++ v) c :=
  ⟨h'.operator, .append h h'.call⟩

theorem Stops.of_append {u v : List Token} {c : Token} (h : Stops (u ++ v) c) :
    Stops v c ∧ (v = [] → Separates u c) := by
  refine ⟨⟨h.operator, h.call.of_append⟩, ?_⟩
  rintro rfl
  rw [List.append_nil] at h
  exact h.call

/-- Only an identifier can be a callee. -/
theorem stops_cons_iff {token : Token} (h : ∀ name, token ≠ .identifier name) {w : List Token}
    {c : Token} : Stops (token :: w) c ↔ Stops w c := by
  refine ⟨fun hstops => (Stops.of_append (u := [token]) hstops).1, ?_⟩
  refine Stops.append (u := [token]) fun _ name hname => ?_
  exact absurd (Option.some.inj hname) (h name)

namespace Local

variable {α β : Type} {offset : Nat} {move : α → α} {move' : β → β} {run : List Lexeme → Result α}
  {run' : List Lexeme → Result β} {tokens : List Lexeme} {r : Result α} {lexeme : Lexeme}

/-- A token in front of what ends with a parenthesis. -/
theorem cons_closed {run' : List Lexeme → Result α} (h : Local offset move Closed run tokens r)
    (hne : isSeparator lexeme = false)
    (hrun : ∀ rest, run' (lexeme.shift offset :: rest) = run rest) :
    Local offset move Closed run' (lexeme :: tokens) r :=
  h.cons hne (fun _ _ h => h.cons _) (fun _ _ _ h _ => h) hrun

/-- What ends with a parenthesis is separated from what follows. -/
theorem separates_of_closed (h : Local offset move Closed run tokens r) :
    Local offset move Separates run tokens r :=
  h.mono (fun _ c h => h.separates c) fun _ _ _ h _ => h

/-- A second run that ends with a parenthesis. -/
theorem bind_closed {follow : List Token → Token → Prop} (f f' : α → List Lexeme → Result β)
    (h : Local offset move follow run tokens r)
    (hf : ∀ value rest, r = (.ok value, rest) →
      Local offset move' Closed (f' (move value)) rest (f value rest)) :
    Local offset move' Closed (fun rest => (run rest).bind f') tokens (r.bind f) :=
  h.bind hf (fun u _ c _ h => h.append u c)
    fun _ _ _ _ _ _ h _ => ⟨h, fun hnil => absurd hnil h.ne_nil⟩

/-- An expression behind what ends with a parenthesis. -/
theorem closed_bind (f f' : α → List Lexeme → Result β) (h : Local offset move Closed run tokens r)
    (hf : ∀ value rest, r = (.ok value, rest) →
      Local offset move' Stops (f' (move value)) rest (f value rest)) :
    Local offset move' Stops (fun rest => (run rest).bind f') tokens (r.bind f) :=
  h.bind hf (fun _ _ c h => Stops.append fun hnil => (h hnil).separates c)
    fun _ _ _ _ _ h _ hboth => ⟨(Stops.of_append hboth).1, fun _ => h⟩

/-- A token in front of an expression that is no callee. -/
theorem cons_stops {run' : List Lexeme → Result α} (h : Local offset move Stops run tokens r)
    (hne : isSeparator lexeme = false) (hname : ∀ name, lexeme.token ≠ .identifier name)
    (hrun : ∀ rest, run' (lexeme.shift offset :: rest) = run rest) :
    Local offset move Stops run' (lexeme :: tokens) r :=
  h.cons hne (fun _ _ => (stops_cons_iff hname).2) (fun _ _ _ _ => (stops_cons_iff hname).1) hrun

/-- A second run of operators. -/
theorem bind_stops (f f' : α → List Lexeme → Result β)
    (h : Local offset move Separates run tokens r)
    (hf : ∀ value rest, r = (.ok value, rest) →
      Local offset move' Stops (f' (move value)) rest (f value rest)) :
    Local offset move' Stops (fun rest => (run rest).bind f') tokens (r.bind f) :=
  h.bind hf (fun _ _ _ => Stops.append) fun _ _ _ _ _ _ _ => Stops.of_append

end Local

variable {offset : Nat} {tokens : List Lexeme}

/-- The arguments of a call and the span that closes them, moved. -/
def shiftArguments (offset : Nat) (args : List Expr × Span) : List Expr × Span :=
  (Expr.shiftAll offset args.1, args.2.shift offset)

/-- The parenthesis behind an expression in parentheses. -/
theorem local_closingParen (offset : Nat) (span : Span) (body : Expr) (tokens : List Lexeme) :
    Local offset (Expr.shift offset) Closed
      (fun tokens => (closingParen tokens).result.map fun close =>
        (body.shift offset).withSpan ((span.shift offset).cover close))
      tokens ((closingParen tokens).result.map fun close => body.withSpan (span.cover close)) := by
  by_cases hclose : nextToken tokens = .punctuator .closeParen
  · obtain ⟨close, rest, rfl⟩ := exists_eq_cons_of_nextToken hclose nofun
    refine .single rfl rfl fun rest' _ => ?_
    rw [result_closingParen, Expr.shift_withSpan, Span.shift_cover]
    rfl
  · rw [result_closingParen_refused hclose]
    refine .refused fun rest' hnext => ?_
    rw [result_closingParen_refused (hnext ▸ hclose)]
    rfl

theorem local_primary
    (harguments : ∀ inner, inner.length < tokens.length →
      LocalAt offset (shiftArguments offset) Closed arguments inner)
    (hexpression : ∀ inner, inner.length < tokens.length →
      LocalAt offset (Expr.shift offset) Stops expression inner) :
    LocalAt offset (Expr.shift offset) Separates primary tokens := by
  -- A token that starts no primary is refused, whatever is behind it.
  have hrefused : ∀ expected, refusal? (nextToken tokens) = some expected →
      LocalAt offset (Expr.shift offset) Separates primary tokens := by
    intro expected h
    unfold LocalAt
    rw [result_primary_refused h]
    exact .refused fun rest' hnext => result_primary_refused (hnext ▸ h)
  cases tokens with
  | nil => exact hrefused _ rfl
  | cons lexeme rest =>
      obtain ⟨token, span⟩ := lexeme
      cases token with
      | endOfInput | keyword | unknown => exact hrefused _ rfl
      | number value =>
          unfold LocalAt
          rw [result_primary_number]
          exact .single rfl (.number _ _) fun _ _ => result_primary_number _ _ _
      | identifier name =>
          by_cases hcall : nextToken rest = .punctuator .openParen
          · obtain ⟨span', inner, rfl⟩ := exists_eq_cons_of_nextToken hcall nofun
            unfold LocalAt
            rw [result_primary_call]
            have hinner := harguments inner (by simp only [List.length_cons]; omega)
            have hcall := hinner.map (Expr.shift offset)
              (fun args => .call name args.1 (span.cover args.2))
              (fun args => .call name args.1 ((span.shift offset).cover args.2)) fun _ => rfl
            have hparen : Local offset (Expr.shift offset) Closed
                (fun tokens => (primary (⟨.identifier name, span.shift offset⟩ :: tokens)).result)
                (⟨.punctuator .openParen, span'⟩ :: inner) _ :=
              hcall.cons_closed rfl fun _ => result_primary_call
            refine Local.separates_of_closed ?_
            exact hparen.cons_closed rfl fun _ => rfl
          · unfold LocalAt
            rw [result_primary_var hcall]
            exact .single rfl (fun _ _ => hcall) fun rest' h => result_primary_var (h name rfl)
      | punctuator mark =>
          by_cases hopen : mark = .openParen
          · subst hopen
            unfold LocalAt
            rw [result_primary_parens]
            have hinner := hexpression rest (Reading.length_lt rest)
            have hbody := hinner.bind_closed
              (fun body rest =>
                (closingParen rest).result.map fun close => body.withSpan (span.cover close))
              (fun body rest => (closingParen rest).result.map fun close =>
                body.withSpan ((span.shift offset).cover close))
              fun body rest' _ => local_closingParen offset span body rest'
            refine Local.separates_of_closed ?_
            exact hbody.cons_closed rfl fun _ => result_primary_parens
          · refine hrefused .expression ?_
            cases mark with
            | openParen => exact absurd rfl hopen
            | _ => rfl

theorem local_operators
    (hprimary : ∀ inner, inner.length < tokens.length →
      LocalAt offset (Expr.shift offset) Separates primary inner)
    (hoperators : ∀ inner, inner.length < tokens.length →
      LocalAt offset (Chain.shift offset) Stops operators inner) :
    LocalAt offset (Chain.shift offset) Stops operators tokens := by
  by_cases hop : ∃ op : Operator, nextToken tokens = .punctuator op.mark
  · obtain ⟨op, hnext⟩ := hop
    obtain ⟨span, rest, rfl⟩ := exists_eq_cons_of_nextToken hnext nofun
    unfold LocalAt
    rw [result_operators_cons]
    have hoperand := hprimary rest (Reading.length_lt rest)
    have hlink := hoperand.bind_stops
      (fun operand rest => (operators rest).result.map fun chain => (op, operand) :: chain)
      (fun operand rest => (operators rest).result.map fun chain => (op, operand) :: chain)
      fun operand rest' heq =>
        (hoperators rest' (Nat.lt_succ_of_lt (length_lt_of_result heq))).map (Chain.shift offset)
          _ _ fun _ => rfl
    exact hlink.cons_stops (isSeparator_mark op span) (fun _ => Token.noConfusion)
      fun _ => result_operators_cons _ _ _
  · have hstops := not_exists.1 hop
    unfold LocalAt
    rw [result_operators_of_stops hstops]
    exact .read [] nofun ⟨hstops, .nil _⟩ fun rest' h =>
      result_operators_of_stops h.operator

theorem local_expression_of
    (hprimary : LocalAt offset (Expr.shift offset) Separates primary tokens)
    (hoperators : ∀ inner, inner.length < tokens.length →
      LocalAt offset (Chain.shift offset) Stops operators inner) :
    LocalAt offset (Expr.shift offset) Stops expression tokens := by
  have h := hprimary.bind_stops
    (fun first rest => (operators rest).result.map (Chain.tree first))
    (fun first rest => (operators rest).result.map (Chain.tree first))
    fun first rest heq => (hoperators rest (length_lt_of_result heq)).map (Expr.shift offset) _ _
      fun chain => (Chain.shift_tree offset first chain).symm
  unfold LocalAt
  simpa only [result_expression] using h

/-- What is behind an argument. -/
theorem local_argumentsBehind (arg : Expr)
    (hlist : ∀ inner, inner.length < tokens.length →
      LocalAt offset (shiftArguments offset) Closed argumentList inner) :
    Local offset (shiftArguments offset) Closed (argumentsBehind (arg.shift offset)) tokens
      (argumentsBehind arg tokens) := by
  by_cases hclose : nextToken tokens = .punctuator .closeParen
  · obtain ⟨close, rest, rfl⟩ := exists_eq_cons_of_nextToken hclose nofun
    exact .single rfl rfl fun _ _ => rfl
  by_cases hcomma : nextToken tokens = .punctuator .comma
  · obtain ⟨span, rest, rfl⟩ := exists_eq_cons_of_nextToken hcomma nofun
    have h := (hlist rest (Reading.length_lt rest)).map (shiftArguments offset)
      (fun args => (arg :: args.1, args.2)) (fun args => (arg.shift offset :: args.1, args.2))
      fun _ => rfl
    exact h.cons_closed rfl fun _ => rfl
  · rw [argumentsBehind_refused hclose hcomma]
    exact .refused fun rest' hnext => argumentsBehind_refused (hnext ▸ hclose) (hnext ▸ hcomma)

theorem local_argumentList
    (hexpression : LocalAt offset (Expr.shift offset) Stops expression tokens)
    (hlist : ∀ inner, inner.length < tokens.length →
      LocalAt offset (shiftArguments offset) Closed argumentList inner) :
    LocalAt offset (shiftArguments offset) Closed argumentList tokens := by
  have h := hexpression.bind_closed _ _ fun arg rest heq =>
    local_argumentsBehind arg fun inner hlt =>
      hlist inner (Nat.lt_trans hlt (length_lt_of_result heq))
  unfold LocalAt
  simpa only [result_argumentList] using h

theorem local_arguments
    (hlist : LocalAt offset (shiftArguments offset) Closed argumentList tokens) :
    LocalAt offset (shiftArguments offset) Closed arguments tokens := by
  by_cases hclose : nextToken tokens = .punctuator .closeParen
  · obtain ⟨close, rest, rfl⟩ := exists_eq_cons_of_nextToken hclose nofun
    unfold LocalAt
    rw [result_arguments_nil]
    exact .single rfl rfl fun _ _ => result_arguments_nil _ _
  · unfold LocalAt
    rw [result_arguments hclose]
    refine hlist.congr (fun value heq => ?_) fun rest hnext => result_arguments (hnext ▸ hclose)
    exact absurd (length_lt_of_result heq) (Nat.lt_irrefl _)

/-- The readers of expressions are local. -/
theorem local_readers (offset : Nat) (tokens : List Lexeme) :
    LocalAt offset (Expr.shift offset) Separates primary tokens ∧
      LocalAt offset (Expr.shift offset) Stops expression tokens ∧
      LocalAt offset (Chain.shift offset) Stops operators tokens ∧
      LocalAt offset (shiftArguments offset) Closed arguments tokens ∧
      LocalAt offset (shiftArguments offset) Closed argumentList tokens := by
  have hinner := fun (inner : List Lexeme) (_ : inner.length < tokens.length) =>
    local_readers offset inner
  have hprimary := local_primary (fun inner hlt => (hinner inner hlt).2.2.2.1)
    fun inner hlt => (hinner inner hlt).2.1
  have hoperators := local_operators (fun inner hlt => (hinner inner hlt).1)
    fun inner hlt => (hinner inner hlt).2.2.1
  have hexpression := local_expression_of hprimary fun inner hlt => (hinner inner hlt).2.2.1
  have hlist := local_argumentList hexpression fun inner hlt => (hinner inner hlt).2.2.2.2
  exact ⟨hprimary, hexpression, hoperators, local_arguments hlist, hlist⟩
  termination_by tokens.length

/-- The parameters of a prototype and the span that closes them, moved. -/
def shiftParameters (offset : Nat) (params : List String × Span) : List String × Span :=
  (params.1, params.2.shift offset)

theorem local_parameterList (offset : Nat) (tokens : List Lexeme) :
    LocalAt offset (shiftParameters offset) Closed parameterList tokens := by
  unfold LocalAt
  by_cases hparam : ∃ param, nextToken tokens = .identifier param
  · obtain ⟨param, hparam⟩ := hparam
    obtain ⟨span, rest, rfl⟩ := exists_eq_cons_of_nextToken hparam nofun
    have hrest : Local offset (shiftParameters offset) Closed (parametersBehind param) rest
        (parametersBehind param rest) := by
      by_cases hclose : nextToken rest = .punctuator .closeParen
      · obtain ⟨close, rest, rfl⟩ := exists_eq_cons_of_nextToken hclose nofun
        exact .single rfl rfl fun _ _ => rfl
      by_cases hcomma : nextToken rest = .punctuator .comma
      · obtain ⟨comma, inner, rfl⟩ := exists_eq_cons_of_nextToken hcomma nofun
        have h := (local_parameterList offset inner).map (shiftParameters offset)
          (fun params => (param :: params.1, params.2))
          (fun params => (param :: params.1, params.2)) fun _ => rfl
        exact h.cons_closed rfl fun _ => rfl
      · rw [parametersBehind_refused hclose hcomma]
        exact .refused fun rest' hnext =>
          parametersBehind_refused (hnext ▸ hclose) (hnext ▸ hcomma)
    rw [result_parameterList_cons]
    exact hrest.cons_closed rfl fun _ => result_parameterList_cons _ _ _
  · have hrefused := not_exists.1 hparam
    rw [result_parameterList_refused hrefused]
    exact .refused fun rest' hnext => result_parameterList_refused (hnext ▸ hrefused)
  termination_by tokens.length

theorem local_parameters (offset : Nat) (tokens : List Lexeme) :
    LocalAt offset (shiftParameters offset) Closed parameters tokens := by
  unfold LocalAt
  by_cases hclose : nextToken tokens = .punctuator .closeParen
  · obtain ⟨close, rest, rfl⟩ := exists_eq_cons_of_nextToken hclose nofun
    exact .single rfl rfl fun _ _ => rfl
  · rw [result_parameters hclose]
    refine (local_parameterList offset tokens).congr (fun value heq => ?_)
      fun rest hnext => result_parameters (hnext ▸ hclose)
    exact absurd (length_lt_of_result heq) (Nat.lt_irrefl _)

theorem local_prototype (offset : Nat) (tokens : List Lexeme) :
    LocalAt offset (Prototype.shift offset) Closed prototype tokens := by
  unfold LocalAt
  by_cases hname : ∃ name, nextToken tokens = .identifier name
  · obtain ⟨name, hname⟩ := hname
    obtain ⟨span, rest, rfl⟩ := exists_eq_cons_of_nextToken hname nofun
    suffices h : Local offset (Prototype.shift offset) Closed
        (fun rest => (prototype (⟨.identifier name, span.shift offset⟩ :: rest)).result) rest
        (prototype (⟨.identifier name, span⟩ :: rest)).result from
      h.cons_closed rfl fun _ => rfl
    by_cases hopen : nextToken rest = .punctuator .openParen
    · obtain ⟨span', inner, rfl⟩ := exists_eq_cons_of_nextToken hopen nofun
      have h := (local_parameters offset inner).map (Prototype.shift offset)
        (fun params => ⟨name, params.1, span.cover params.2⟩)
        (fun params => ⟨name, params.1, (span.shift offset).cover params.2⟩) fun _ => rfl
      rw [result_prototype]
      exact h.cons_closed rfl fun _ => result_prototype
    · rw [result_prototype_unopened hopen]
      exact .refused fun rest' hnext => result_prototype_unopened (hnext ▸ hopen)
  · have hrefused := not_exists.1 hname
    rw [result_prototype_refused hrefused]
    exact .refused fun rest' hnext => result_prototype_refused (hnext ▸ hrefused)

/-- A prototype and a body. -/
theorem local_definition (offset : Nat) (tokens : List Lexeme) :
    Local offset (Definition.shift offset) Stops
      (fun tokens => (prototype tokens).result.bind definitionBehind) tokens
      ((prototype tokens).result.bind definitionBehind) := by
  refine (local_prototype offset tokens).closed_bind _ _ fun p rest _ => ?_
  exact (local_readers offset rest).2.1.map (Definition.shift offset) _ _ fun _ => rfl

/-- The reader of statements is local. What stops an expression may follow every statement. -/
theorem exists_local_statementHere (offset : Nat) (tokens : List Lexeme) :
    ∃ follow, LocalAt offset (Statement.shift offset) follow statementHere tokens ∧
      ∀ w c c', follow w c → Stops w c' → follow w c' := by
  by_cases hdefinition : nextToken tokens = .keyword .definition
  · obtain ⟨span, rest, rfl⟩ := exists_eq_cons_of_nextToken hdefinition nofun
    refine ⟨Stops, ?_, fun _ _ _ _ hstops => hstops⟩
    have h := (local_definition offset rest).map (Statement.shift offset) .definition .definition
      fun _ => rfl
    unfold LocalAt
    rw [result_statementHere_definition]
    exact h.cons_stops rfl (fun _ => Token.noConfusion) fun _ => result_statementHere_definition _ _
  by_cases hexternal : nextToken tokens = .keyword .external
  · obtain ⟨span, rest, rfl⟩ := exists_eq_cons_of_nextToken hexternal nofun
    refine ⟨Closed, ?_, fun _ _ _ hclosed _ => hclosed⟩
    have h := (local_prototype offset rest).map (Statement.shift offset) .external .external
      fun _ => rfl
    unfold LocalAt
    rw [result_statementHere_external]
    exact h.cons_closed rfl fun _ => result_statementHere_external _ _
  · refine ⟨Stops, ?_, fun _ _ _ _ hstops => hstops⟩
    have h := (local_readers offset tokens).2.1.map (Statement.shift offset)
      (fun body => .topLevel (.anonymous body)) (fun body => .topLevel (.anonymous body))
      fun body => congrArg Statement.topLevel (Definition.shift_anonymous offset body).symm
    unfold LocalAt
    rw [result_statementHere_topLevel hdefinition hexternal]
    refine h.congr (fun value heq => ?_) fun rest hnext => ?_
    · obtain ⟨body, hbody, -⟩ := Result.map_eq_ok_iff.1 heq
      exact absurd (length_lt_of_result hbody) (Nat.lt_irrefl _)
    · exact result_statementHere_topLevel (hnext ▸ hdefinition) (hnext ▸ hexternal)

/-- A statement is read again in front of tokens of which the first is the same. -/
theorem repeats_statementHere (offset : Nat) (tokens : List Lexeme) :
    Repeats offset (Statement.shift offset) (fun tokens => (statementHere tokens).result) tokens
      (statementHere tokens).result := by
  obtain ⟨_, hlocal, -⟩ := exists_local_statementHere offset tokens
  exact hlocal.repeats

/-- A statement is read again in front of what stops an expression. -/
theorem reread_statementHere {part rest : List Lexeme} {statement : Statement}
    (h : (statementHere (part ++ rest)).result = (.ok statement, rest)) (rest' : List Lexeme)
    (hstops : Stops (part.map Lexeme.token) (nextToken rest')) :
    (statementHere (part ++ rest')).result = (.ok statement, rest') := by
  obtain ⟨follow, hlocal, hfollow⟩ := exists_local_statementHere 0 (part ++ rest)
  unfold LocalAt at hlocal
  rw [h] at hlocal
  obtain ⟨hnext, hread⟩ := hlocal.reread
  have hagain := hread rest' (hfollow _ _ _ hnext hstops)
  rwa [Lexeme.shift_zero, List.map_id, Statement.shift_zero] at hagain

/-- What is read of the tokens in front of others is read in front of all of which the first is the
same. -/
theorem result_statementHere_congr {part rest : List Lexeme} {r : Except Expectation Statement}
    (h : (statementHere (part ++ rest)).result = (r, rest)) (rest' : List Lexeme)
    (hnext : nextToken rest' = nextToken rest) :
    (statementHere (part ++ rest')).result = (r, rest') := by
  obtain ⟨taken, htokens, -, hrun⟩ := repeats_statementHere 0 (part ++ rest)
  rw [h] at htokens hrun
  obtain rfl : part = taken := List.append_cancel_right htokens
  have hagain := hrun rest' hnext
  rw [Lexeme.shift_zero, List.map_id] at hagain
  refine hagain.trans ?_
  cases r with
  | error expected => rfl
  | ok statement => exact congrArg (Except.ok ·, rest') statement.shift_zero

end Parse

end ScalarLang
