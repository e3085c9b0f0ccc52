import ScalarLang.Parse.Statement
import ScalarLang.Proofs.Grammar.Completeness

/-!
# The grammar of statements

    statement ::= 'def' prototype comparison | 'extern' prototype | comparison
    prototype ::= identifier '(' (identifier (',' identifier)*)? ')'

A statement is read exactly when the tokens start with a `Phrase` of this grammar, and
the token behind it does not go on its last expression (`Parse.gives_statementHere`).
-/

namespace ScalarLang

namespace Reading

variable {α β : Type} {limit limit' : Nat} {rest : List Lexeme}

@[simp] theorem gives_map (f : α → β) (p : β → Prop) (r : Reading α limit) :
    (r.map f).Gives rest p ↔ r.Gives rest fun value => p (f value) := by
  cases r <;> rfl

@[simp] theorem gives_weaken (le : limit ≤ limit') (p : α → Prop) (r : Reading α limit) :
    (r.weaken le).Gives rest p ↔ r.Gives rest p := by
  cases r <;> rfl

/-- A reading that takes `shape` gives what was taken. -/
theorem Takes.exists_of_gives {tokens : List Lexeme} {shape : List Token → α → Token → Prop}
    {p : α → Prop} {r : Reading α limit} (h : r.Takes tokens shape) (hgives : r.Gives rest p) :
    ∃ taken value, tokens = taken ++ rest ∧ p value ∧
      shape (taken.map Lexeme.token) value (nextToken rest) := by
  obtain ⟨value, shorter, rfl, hp⟩ := hgives.exists_eq
  obtain ⟨taken, htokens, hshape⟩ := h
  exact ⟨taken, value, htokens, hp, hshape⟩

/-- A keyword in front of what a reader takes. -/
theorem Takes.cons {tokens : List Lexeme} {lexeme : Lexeme} {shape : List Token → α → Token → Prop}
    {shape' : List Token → β → Token → Prop} {r : Reading α limit} (h : r.Takes tokens shape)
    (f : α → β) (le : limit ≤ limit')
    (himp : ∀ w value c, shape w value c → shape' (lexeme.token :: w) (f value) c) :
    ((r.map f).weaken le).Takes (lexeme :: tokens) shape' := by
  cases r with
  | read value rest shorter =>
      obtain ⟨taken, rfl, hshape⟩ := h
      exact ⟨lexeme :: taken, rfl, himp _ _ _ hshape⟩
  | failed expected rest bounded => exact List.IsSuffix.trans h (List.suffix_cons lexeme tokens)

end Reading

/-- The tokens of parameters behind their opening parenthesis. -/
def Prototype.paramTokens (params : List String) : List Token :=
  [.punctuator .comma].intercalate (params.map fun param => [.identifier param]) ++
    [.punctuator .closeParen]

/-- The tokens of a prototype. -/
def Prototype.tokens (name : String) (params : List String) : List Token :=
  .identifier name :: .punctuator .openParen :: paramTokens params

theorem Prototype.paramTokens_singleton (param : String) :
    paramTokens [param] = [.identifier param, .punctuator .closeParen] := rfl

theorem Prototype.paramTokens_cons {param : String} {params : List String} (h : params ≠ []) :
    paramTokens (param :: params) =
      .identifier param :: .punctuator .comma :: paramTokens params := by
  rw [paramTokens, List.map_cons, List.intercalate_cons_of_ne_nil (by simpa using h)]
  simp [paramTokens]

namespace Parse

theorem takes_parameterList (tokens : List Lexeme) :
    (parameterList tokens).Takes tokens fun w ps _ =>
      ps.1 ≠ [] ∧ w = Prototype.paramTokens ps.1 := by
  induction tokens using parameterList.induct with
  | case1 param span close rest =>
      rw [parameterList]
      exact ⟨[_, _], rfl, List.cons_ne_nil _ _, rfl⟩
  | case2 param span comma rest expected rest' bounded h ih =>
      rw [h] at ih
      rw [parameterList]
      simp only [h]
      exact ih.trans ((List.suffix_cons _ rest).trans (List.suffix_cons _ _))
  | case3 param span comma rest params close rest' shorter h ih =>
      rw [h] at ih
      obtain ⟨taken, rfl, hne, htaken⟩ := ih
      rw [parameterList]
      simp only [h]
      refine ⟨_ :: _ :: taken, rfl, List.cons_ne_nil _ _, ?_⟩
      rw [List.map_cons, List.map_cons, htaken, Prototype.paramTokens_cons hne]
  | case4 param span rest h h' =>
      rw [parameterList]
      · exact List.suffix_cons _ rest
      · exact h
      · exact h'
  | case5 tokens h h' h'' =>
      rw [parameterList]
      · exact List.suffix_refl _
      all_goals assumption

theorem takes_parameters (tokens : List Lexeme) :
    (parameters tokens).Takes tokens fun w ps _ => w = Prototype.paramTokens ps.1 := by
  unfold parameters
  split
  · exact ⟨[_], rfl, rfl⟩
  · exact (takes_parameterList tokens).mono fun _ _ _ h => h.2

theorem takes_prototype (tokens : List Lexeme) :
    (prototype tokens).Takes tokens fun w p _ => w = Prototype.tokens p.name p.params := by
  unfold prototype
  split
  next name span span' inner =>
    have hinner := takes_parameters inner
    generalize parameters inner = r at hinner ⊢
    cases r with
    | read params rest shorter =>
        obtain ⟨taken, rfl, htaken⟩ := hinner
        refine ⟨_ :: _ :: taken, rfl, ?_⟩
        rw [List.map_cons, List.map_cons, htaken]
        rfl
    | failed expected rest bounded =>
        exact hinner.trans ((List.suffix_cons _ inner).trans (List.suffix_cons _ _))
  · exact List.suffix_cons _ _
  · exact List.suffix_refl _

theorem parameterList_of_tokens {params : List String} (hne : params ≠ [])
    (taken rest : List Lexeme) (h : taken.map Lexeme.token = Prototype.paramTokens params) :
    (parameterList (taken ++ rest)).Gives rest (·.1 = params) := by
  induction params generalizing taken with
  | nil => exact absurd rfl hne
  | cons param params ih =>
      by_cases hnil : params = []
      · rw [hnil, Prototype.paramTokens_singleton] at h
        obtain ⟨span, close, rfl, hclose⟩ := exists_eq_cons_of_map h
        obtain ⟨span', rfl⟩ := exists_eq_singleton_of_map hclose
        rw [List.cons_append, List.singleton_append, parameterList, hnil]
        exact ⟨rfl, rfl⟩
      · rw [Prototype.paramTokens_cons hnil] at h
        obtain ⟨span, behind, rfl, hbehind⟩ := exists_eq_cons_of_map h
        obtain ⟨span', others, rfl, hothers⟩ := exists_eq_cons_of_map hbehind
        obtain ⟨⟨_, close⟩, shorter, hread, rfl⟩ := (ih hnil others hothers).exists_eq
        rw [List.cons_append, List.cons_append, parameterList]
        simp only [hread]
        exact ⟨rfl, rfl⟩

theorem parameters_of_tokens {params : List String} (taken rest : List Lexeme)
    (h : taken.map Lexeme.token = Prototype.paramTokens params) :
    (parameters (taken ++ rest)).Gives rest (·.1 = params) := by
  by_cases hnil : params = []
  · rw [hnil] at h ⊢
    obtain ⟨span, rfl⟩ := exists_eq_singleton_of_map h
    exact ⟨rfl, rfl⟩
  · have hgives := parameterList_of_tokens hnil taken rest h
    generalize taken ++ rest = tokens at hgives ⊢
    unfold parameters
    split
    next close inner =>
      simp only [parameterList] at hgives
      cases hgives
    · exact hgives

/-- A prototype is read exactly when the tokens start with its tokens. -/
theorem gives_prototype (tokens rest : List Lexeme) (name : String) (params : List String) :
    (prototype tokens).Gives rest (fun p => p.name = name ∧ p.params = params) ↔
      ∃ taken, tokens = taken ++ rest ∧
        taken.map Lexeme.token = Prototype.tokens name params := by
  constructor
  · intro h
    obtain ⟨taken, p, htokens, ⟨rfl, rfl⟩, htaken⟩ := (takes_prototype tokens).exists_of_gives h
    exact ⟨taken, htokens, htaken⟩
  · rintro ⟨taken, rfl, htaken⟩
    obtain ⟨span, behind, rfl, hbehind⟩ := exists_eq_cons_of_map htaken
    obtain ⟨span', inner, rfl, hinner⟩ := exists_eq_cons_of_map hbehind
    rw [List.cons_append, List.cons_append, prototype, Reading.gives_weaken, Reading.gives_map]
    obtain ⟨⟨_, close⟩, shorter, hread, rfl⟩ := (parameters_of_tokens inner rest hinner).exists_eq
    rw [hread]
    exact ⟨rfl, rfl, rfl⟩

/-- An expression is read exactly when the tokens start with a text that derives it, in front of
a token that cannot go it on. -/
theorem gives_expression (tokens rest : List Lexeme) (e : Term) :
    (expression tokens).Gives rest (·.term = e) ↔
      ∃ taken, tokens = taken ++ rest ∧ Derives (.tier .comparison) (taken.map Lexeme.token) e ∧
        Stops (taken.map Lexeme.token) (nextToken rest) := by
  constructor
  · intro h
    obtain ⟨taken, expr, htokens, rfl, hderives, hstops⟩ :=
      (takes_readers tokens).2.1.exists_of_gives h
    exact ⟨taken, htokens, hderives, hstops⟩
  · rintro ⟨taken, rfl, hderives, hstops⟩
    exact expressionReads_of_derives hderives taken rest rfl hstops

end Parse

/-- A statement without the places that it was read from. -/
inductive Phrase where
  | definition (name : String) (params : List String) (body : Term)
  | external (name : String) (params : List String)
  | topLevel (name : String) (params : List String) (body : Term)

/-- The tokens are the phrase, and the token behind them does not go on its last expression. -/
inductive Phrase.Written : List Token → Token → Phrase → Prop
  | definition {w : List Token} {c : Token} {body : Term} (name : String) (params : List String) :
      Derives (.tier .comparison) w body → Stops w c →
      Written (.keyword .definition :: (Prototype.tokens name params ++ w)) c
        (.definition name params body)
  | external (name : String) (params : List String) (c : Token) :
      Written (.keyword .external :: Prototype.tokens name params) c (.external name params)
  | topLevel {w : List Token} {c : Token} {body : Term} :
      Derives (.tier .comparison) w body → Stops w c →
      Written w c (.topLevel Prototype.anonymousName [] body)

/-- The phrase of a statement, if it was read in full. -/
def Statement.phrase? : Statement → Option Phrase
  | definition d => some (.definition d.prototype.name d.prototype.params d.body.term)
  | external p => some (.external p.name p.params)
  | topLevel d => some (.topLevel d.prototype.name d.prototype.params d.body.term)
  | endOfInput | malformed _ => none

namespace Parse

theorem takes_definition (tokens : List Lexeme) :
    (definition tokens).Takes tokens.tail fun w d c =>
      ∃ v, w = Prototype.tokens d.prototype.name d.prototype.params ++ v ∧
        Derives (.tier .comparison) v d.body.term ∧ Stops v c := by
  have hprototype := takes_prototype tokens.tail
  unfold definition
  split
  next h =>
    rw [h] at hprototype
    exact hprototype
  next p rest shorter h =>
    rw [h] at hprototype
    obtain ⟨taken, htokens, htaken⟩ := hprototype
    have hbody := (takes_readers rest).2.1
    generalize expression rest = r at hbody ⊢
    cases r with
    | read body rest' shorter' =>
        obtain ⟨taken', hrest, hderives, hstops⟩ := hbody
        refine ⟨taken ++ taken', ?_, taken'.map Lexeme.token, ?_, hderives, hstops⟩
        · rw [htokens, hrest, List.append_assoc]
        · rw [List.map_append, htaken]
    | failed expected rest' bounded =>
        exact List.IsSuffix.trans hbody ⟨taken, htokens.symm⟩

theorem takes_statementHere (tokens : List Lexeme) :
    (statementHere tokens).Takes tokens fun w statement c =>
      ∃ phrase, statement.phrase? = some phrase ∧ phrase.Written w c := by
  unfold statementHere
  split
  · exact List.suffix_refl _
  next span rest =>
    have h := takes_definition (⟨.keyword .definition, span⟩ :: rest)
    refine h.cons Statement.definition _ fun w d c h => ?_
    obtain ⟨v, rfl, hderives, hstops⟩ := h
    exact ⟨_, rfl, .definition _ _ hderives hstops⟩
  next span rest =>
    have h := takes_prototype rest
    refine h.cons Statement.external _ fun w p c h => ?_
    rw [h]
    exact ⟨_, rfl, .external _ _ _⟩
  · have h := (takes_readers tokens).2.1
    unfold topLevel
    generalize expression tokens = r at h ⊢
    cases r with
    | read body rest shorter =>
        obtain ⟨taken, rfl, hderives, hstops⟩ := h
        exact ⟨taken, rfl, _, rfl, .topLevel hderives hstops⟩
    | failed expected rest bounded => exact h

theorem gives_definition {t middle rest : List Lexeme} {name : String} {params : List String}
    {body : Term}
    (hprototype : (prototype t.tail).Gives middle fun p => p.name = name ∧ p.params = params)
    (hbody : (expression middle).Gives rest (·.term = body)) :
    (definition t).Gives rest
      fun d => (Statement.definition d).phrase? = some (.definition name params body) := by
  obtain ⟨p, shorter, hread, rfl, rfl⟩ := hprototype.exists_eq
  obtain ⟨expr, shorter', hread', rfl⟩ := hbody.exists_eq
  rw [definition]
  simp only [hread, Reading.gives_weaken, Reading.gives_map, hread']
  exact ⟨rfl, rfl⟩

theorem gives_external {t rest : List Lexeme} {name : String} {params : List String}
    (hprototype : (prototype t.tail).Gives rest fun p => p.name = name ∧ p.params = params) :
    (external t).Gives rest
      fun p => (Statement.external p).phrase? = some (.external name params) := by
  obtain ⟨p, shorter, hread, rfl, rfl⟩ := hprototype.exists_eq
  rw [external, hread]
  exact ⟨rfl, rfl⟩

/-- A statement is read exactly when the tokens start with its phrase. -/
theorem gives_statementHere (tokens rest : List Lexeme) (phrase : Phrase) :
    (statementHere tokens).Gives rest (·.phrase? = some phrase) ↔
      ∃ taken, tokens = taken ++ rest ∧
        phrase.Written (taken.map Lexeme.token) (nextToken rest) := by
  constructor
  · intro h
    obtain ⟨taken, statement, htokens, hphrase, phrase', hphrase', hwritten⟩ :=
      (takes_statementHere tokens).exists_of_gives h
    obtain rfl := Option.some.inj (hphrase.symm.trans hphrase')
    exact ⟨taken, htokens, hwritten⟩
  · rintro ⟨taken, rfl, hwritten⟩
    generalize hw : taken.map Lexeme.token = w at hwritten
    generalize hc : nextToken rest = c at hwritten
    cases hwritten with
    | definition name params hderives hstops =>
        obtain ⟨span, behind, rfl, hbehind⟩ := exists_eq_cons_of_map hw
        obtain ⟨head, body, rfl, hhead, rfl⟩ := List.map_eq_append_iff.1 hbehind
        have hprototype := (gives_prototype _ (body ++ rest) name params).2 ⟨head, rfl, hhead⟩
        have hbody := (gives_expression _ rest _).2 ⟨body, rfl, hderives, hc ▸ hstops⟩
        rw [List.cons_append, List.append_assoc, statementHere]
        have hgives := gives_definition (t := ⟨.keyword .definition, span⟩ :: _) hprototype hbody
        exact (Reading.gives_weaken _ _ _).2 ((Reading.gives_map _ _ _).2 hgives)
    | external name params =>
        obtain ⟨span, head, rfl, hhead⟩ := exists_eq_cons_of_map hw
        have hprototype := (gives_prototype _ rest name params).2 ⟨head, rfl, hhead⟩
        have hgives := gives_external (t := ⟨.keyword .external, span⟩ :: _) hprototype
        rw [List.cons_append, statementHere]
        exact (Reading.gives_weaken _ _ _).2 ((Reading.gives_map _ _ _).2 hgives)
    | topLevel hderives hstops =>
        have hbody := (gives_expression _ rest _).2 ⟨taken, rfl, hw ▸ hderives, hw ▸ hc ▸ hstops⟩
        generalize taken ++ rest = tokens at hbody ⊢
        unfold statementHere
        split
        · simp only [expression, primary] at hbody
          cases hbody
        · simp only [expression, primary] at hbody
          cases hbody
        · simp only [expression, primary] at hbody
          cases hbody
        · obtain ⟨expr, shorter, hread, rfl⟩ := hbody.exists_eq
          rw [topLevel, Reading.gives_map, Reading.gives_map, hread]
          exact ⟨rfl, rfl⟩

end Parse

namespace TokenStream

/-- The tokens are in front of those ahead of the other stream. -/
structure Splits (s : TokenStream) (taken : List Lexeme) (after : TokenStream) : Prop where
  ahead : s.ahead = taken ++ after.ahead
  stop : after.stop = s.stop

theorem token_current (s : TokenStream) : s.current.token = nextToken s.ahead := by
  obtain ⟨ahead, stop⟩ := s
  cases ahead <;> rfl

theorem outcome_ok_iff {α : Type} {limit : Nat} (s after : TokenStream) (r : Reading α limit)
    (p : α → Prop) :
    (∃ value, s.outcome r = (.ok value, after) ∧ p value) ↔
      after.stop = s.stop ∧ r.Gives after.ahead p := by
  obtain ⟨ahead, stop⟩ := after
  cases r with
  | read value rest shorter =>
      constructor
      · rintro ⟨_, heq, hp⟩
        cases heq
        exact ⟨rfl, rfl, hp⟩
      · rintro ⟨rfl, rfl, hp⟩
        exact ⟨value, rfl, hp⟩
  | failed expected rest bounded =>
      constructor
      · rintro ⟨_, heq, -⟩
        cases heq
      · rintro ⟨-, h⟩
        cases h

/-- The stream behind the separators in front of the next statement. -/
def skipped (s : TokenStream) : TokenStream := ⟨s.ahead.dropWhile Parse.isSeparator, s.stop⟩

/-- The next statement has a phrase exactly when the reader behind the separators does. -/
theorem statement_phrase_iff (s after : TokenStream) (phrase : Phrase) :
    s.statement.1.phrase? = some phrase ∧ s.statement.2 = after ↔
      after.stop = s.stop ∧
        (Parse.statementHere s.skipped.ahead).Gives after.ahead (·.phrase? = some phrase) := by
  unfold statement skipped
  generalize s.ahead.dropWhile Parse.isSeparator = tokens
  cases tokens with
  | nil =>
      rw [Parse.statementHere]
      constructor
      · rintro ⟨h, -⟩
        cases h
      · rintro ⟨-, h⟩
        cases h
  | cons lexeme rest =>
      rw [← outcome_ok_iff]
      dsimp only
      generalize s.outcome (Parse.statementHere (lexeme :: rest)) = o
      obtain ⟨_ | statement, after'⟩ := o
      · constructor
        · rintro ⟨h, -⟩
          cases h
        · rintro ⟨_, h, -⟩
          cases h
      · constructor
        · rintro ⟨h, rfl⟩
          exact ⟨statement, rfl, h⟩
        · rintro ⟨_, h, hp⟩
          cases h
          exact ⟨hp, rfl⟩

/-- Behind the separators there is the end of input, a phrase, or an error. -/
theorem statement_cases (s : TokenStream) :
    s.skipped.ahead = [] ∧ s.statement.1 = .endOfInput ∨
      s.skipped.ahead ≠ [] ∧ ((∃ phrase, s.statement.1.phrase? = some phrase) ∨
        ∃ error, s.statement.1 = .malformed error) := by
  unfold statement skipped
  generalize s.ahead.dropWhile Parse.isSeparator = tokens
  cases tokens with
  | nil => exact .inl ⟨rfl, rfl⟩
  | cons lexeme rest =>
      have htakes := Parse.takes_statementHere (lexeme :: rest)
      refine .inr ⟨List.cons_ne_nil _ _, ?_⟩
      dsimp only
      generalize Parse.statementHere (lexeme :: rest) = r at htakes ⊢
      cases r with
      | read statement rest' shorter =>
          obtain ⟨_, _, phrase, hphrase, _⟩ := htakes
          exact .inl ⟨phrase, hphrase⟩
      | failed expected rest' bounded => exact .inr ⟨_, rfl⟩

theorem statement_eq_endOfInput_iff (s : TokenStream) :
    s.statement.1 = .endOfInput ↔ s.skipped.ahead = [] := by
  obtain ⟨hnil, hend⟩ | ⟨hne, ⟨phrase, hphrase⟩ | ⟨error, herror⟩⟩ := s.statement_cases
  · exact ⟨fun _ => hnil, fun _ => hend⟩
  · refine ⟨fun h => ?_, fun h => absurd h hne⟩
    rw [h] at hphrase
    cases hphrase
  · refine ⟨fun h => ?_, fun h => absurd h hne⟩
    rw [h] at herror
    cases herror

theorem statement_eq_malformed_iff (s : TokenStream) :
    (∃ error, s.statement.1 = .malformed error) ↔
      s.skipped.ahead ≠ [] ∧ ∀ phrase, s.statement.1.phrase? ≠ some phrase := by
  obtain ⟨hnil, hend⟩ | ⟨hne, ⟨phrase, hphrase⟩ | ⟨error, herror⟩⟩ := s.statement_cases
  · refine ⟨fun ⟨error, h⟩ => ?_, fun h => absurd hnil h.1⟩
    rw [hend] at h
    cases h
  · refine ⟨fun ⟨error, h⟩ => ?_, fun h => absurd hphrase (h.2 phrase)⟩
    rw [h] at hphrase
    cases hphrase
  · refine ⟨fun _ => ⟨hne, fun phrase h => ?_⟩, fun _ => ⟨error, herror⟩⟩
    rw [herror] at h
    cases h

/-- The tokens have one split into an expression and what cannot go it on. -/
theorem split_unique {s after after' : TokenStream} {taken taken' : List Lexeme} {tree tree' : Term}
    (hsplit : s.Splits taken after) (hsplit' : s.Splits taken' after')
    (h : Derives (.tier .comparison) (taken.map Lexeme.token) tree)
    (h' : Derives (.tier .comparison) (taken'.map Lexeme.token) tree')
    (hstops : Stops (taken.map Lexeme.token) after.current.token)
    (hstops' : Stops (taken'.map Lexeme.token) after'.current.token) :
    taken = taken' ∧ after = after' ∧ tree = tree' := by
  rw [token_current] at hstops hstops'
  have hgives := (Parse.gives_expression _ _ tree).2 ⟨taken, hsplit.ahead, h, hstops⟩
  have hgives' := (Parse.gives_expression _ _ tree').2 ⟨taken', hsplit'.ahead, h', hstops'⟩
  obtain ⟨e, shorter, heq, rfl⟩ := hgives.exists_eq
  rw [heq] at hgives'
  obtain ⟨hahead, rfl⟩ := hgives'
  refine ⟨List.append_cancel_right (hsplit.ahead.symm.trans ?_), ?_, rfl⟩
  · rw [hahead]
    exact hsplit'.ahead
  · obtain ⟨ahead, stop⟩ := after
    obtain ⟨ahead', stop'⟩ := after'
    obtain rfl : stop = s.stop := hsplit.stop
    obtain rfl : stop' = s.stop := hsplit'.stop
    exact congrArg (TokenStream.mk · s.stop) hahead

/-- The readers of expressions and statements take exactly what the grammar derives: the longest
expression, and behind the separators a phrase, the end of input or an error. -/
theorem readers_match_grammar (s : TokenStream) :
    (∀ tree after,
      (∃ e, s.outcome (Parse.expression s.ahead) = (.ok e, after) ∧ e.term = tree) ↔
        ∃ taken, s.Splits taken after ∧
          Derives (.tier .comparison) (taken.map Lexeme.token) tree ∧
          Stops (taken.map Lexeme.token) after.current.token) ∧
    (∀ taken after tree taken' after' tree', s.Splits taken after → s.Splits taken' after' →
      Derives (.tier .comparison) (taken.map Lexeme.token) tree →
      Derives (.tier .comparison) (taken'.map Lexeme.token) tree' →
      Stops (taken.map Lexeme.token) after.current.token →
      Stops (taken'.map Lexeme.token) after'.current.token →
      taken = taken' ∧ after = after' ∧ tree = tree') ∧
    (∀ phrase after,
      s.statement.1.phrase? = some phrase ∧ s.statement.2 = after ↔
        ∃ taken, s.skipped.Splits taken after ∧
          phrase.Written (taken.map Lexeme.token) after.current.token) ∧
    (s.statement.1 = .endOfInput ↔ s.skipped.ahead = []) ∧
    ((∃ error, s.statement.1 = .malformed error) ↔
      s.skipped.ahead ≠ [] ∧ ∀ (phrase : Phrase) taken after, s.skipped.Splits taken after →
        ¬ phrase.Written (taken.map Lexeme.token) after.current.token) := by
  have hstatement : ∀ phrase after,
      s.statement.1.phrase? = some phrase ∧ s.statement.2 = after ↔
        ∃ taken, s.skipped.Splits taken after ∧
          phrase.Written (taken.map Lexeme.token) after.current.token := by
    intro phrase after
    rw [statement_phrase_iff, Parse.gives_statementHere]
    constructor
    · rintro ⟨hstop, taken, htaken, hwritten⟩
      exact ⟨taken, ⟨htaken, hstop⟩, after.token_current ▸ hwritten⟩
    · rintro ⟨taken, hsplit, hwritten⟩
      exact ⟨hsplit.stop, taken, hsplit.ahead, after.token_current ▸ hwritten⟩
  refine ⟨fun tree after => ?_, ?_, hstatement, s.statement_eq_endOfInput_iff, ?_⟩
  · rw [outcome_ok_iff s after (Parse.expression s.ahead) (·.term = tree), Parse.gives_expression]
    constructor
    · rintro ⟨hstop, taken, htaken, hderives, hstops⟩
      exact ⟨taken, ⟨htaken, hstop⟩, hderives, after.token_current ▸ hstops⟩
    · rintro ⟨taken, hsplit, hderives, hstops⟩
      exact ⟨hsplit.stop, taken, hsplit.ahead, hderives, after.token_current ▸ hstops⟩
  · intro taken after tree taken' after' tree' hsplit hsplit' h h' hstops hstops'
    exact split_unique hsplit hsplit' h h' hstops hstops'
  · rw [statement_eq_malformed_iff]
    refine and_congr_right fun _ => ⟨fun h phrase taken after hsplit hwritten => ?_,
      fun h phrase hphrase => ?_⟩
    · exact h phrase ((hstatement phrase after).2 ⟨taken, hsplit, hwritten⟩).1
    · obtain ⟨taken, hsplit, hwritten⟩ := (hstatement phrase _).1 ⟨hphrase, rfl⟩
      exact h phrase taken _ hsplit hwritten

end TokenStream

end ScalarLang
