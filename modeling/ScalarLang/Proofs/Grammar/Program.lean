import ScalarLang.Proofs.Grammar.Statement
import ScalarLang.Proofs.Session.Tree

/-!
# Programs as they are parsed

A word of the source starts with a letter, so no identifier is the reserved name of
expressions at the top level. Every statement that the parser makes is therefore
`Named`: it has the reserved name exactly if it is an expression.
-/

namespace ScalarLang

namespace Scanner

theorem wordToken_ne {c : Char} (h : c.isAlpha) (word : List Char) :
    wordToken (c :: word) ≠ .identifier Prototype.anonymousName := by
  unfold wordToken
  dsimp only
  split
  · nofun
  · intro heq
    have hname := congrArg String.toList (Token.identifier.inj heq)
    have hreserved : Prototype.anonymousName.toList = '_' :: "_anon_expr".toList := by decide
    rw [String.toList_ofList, hreserved] at hname
    rw [(List.cons.inj hname).1] at h
    cases h

theorem numeralToken_ne (numeral : List Char) (name : String) :
    numeralToken numeral ≠ .identifier name := by
  unfold numeralToken
  split
  · intro heq
    cases heq
  · intro heq
    cases heq

theorem token_split_ne (c : Char) (rest : List Char) :
    (split c rest).1.token? ≠ some (.identifier Prototype.anonymousName) := by
  unfold split
  split
  · nofun
  split
  · nofun
  split
  next halpha => exact fun h => wordToken_ne halpha _ (Option.some.inj h)
  split
  · exact fun h => numeralToken_ne _ _ (Option.some.inj h)
  split <;> nofun

theorem token_ne_of_mem_pieces {text : List Char} {piece : Piece} (h : piece ∈ pieces text) :
    piece.token? ≠ some (.identifier Prototype.anonymousName) := by
  induction text using pieces.induct with
  | case1 =>
      rw [pieces_nil] at h
      cases h
  | case2 c rest ih =>
      rw [pieces_cons] at h
      rcases List.mem_cons.1 h with rfl | h
      · exact token_split_ne c rest
      · exact ih h

theorem exists_piece_of_mem_locate {offset : Nat} {parts : List Piece} {lexeme : Lexeme}
    (h : lexeme ∈ locate offset parts) : ∃ piece ∈ parts, piece.token? = some lexeme.token := by
  induction parts generalizing offset with
  | nil => cases h
  | cons piece parts ih =>
      rw [locate] at h
      split at h
      next token htoken =>
        rcases List.mem_cons.1 h with rfl | h
        · exact ⟨piece, List.mem_cons_self, htoken⟩
        · obtain ⟨piece', hmem, hpiece⟩ := ih h
          exact ⟨piece', List.mem_cons_of_mem _ hmem, hpiece⟩
      · obtain ⟨piece', hmem, hpiece⟩ := ih h
        exact ⟨piece', List.mem_cons_of_mem _ hmem, hpiece⟩

end Scanner

namespace TokenStream

/-- No identifier ahead is the reserved name. -/
def Unreserved (s : TokenStream) : Prop :=
  ∀ lexeme ∈ s.ahead, lexeme.token ≠ .identifier Prototype.anonymousName

theorem unreserved_ofSource (source : String) : (ofSource source).Unreserved := by
  intro lexeme hmem htoken
  obtain ⟨piece, hpiece, heq⟩ := Scanner.exists_piece_of_mem_locate hmem
  rw [htoken] at heq
  exact Scanner.token_ne_of_mem_pieces hpiece heq

theorem Unreserved.suffix {s s' : TokenStream} (h : s.Unreserved) (hsuffix : s'.ahead <:+ s.ahead) :
    s'.Unreserved := fun lexeme hmem => h lexeme (hsuffix.subset hmem)

/-- Reading a statement leaves the tokens behind it. -/
theorem ahead_statement_suffix (s : TokenStream) : s.statement.2.ahead <:+ s.ahead := by
  refine List.IsSuffix.trans ?_ (List.dropWhile_suffix Parse.isSeparator)
  unfold statement
  generalize s.ahead.dropWhile Parse.isSeparator = tokens
  cases tokens with
  | nil => exact List.suffix_refl _
  | cons lexeme rest =>
      have htakes := Parse.takes_statementHere (lexeme :: rest)
      dsimp only
      generalize Parse.statementHere (lexeme :: rest) = r at htakes ⊢
      cases r with
      | read statement rest' shorter =>
          obtain ⟨taken, htokens, -⟩ := htakes
          exact ⟨taken, htokens.symm⟩
      | failed expected rest' bounded => exact (List.tail_suffix rest').trans htakes

end TokenStream

/-- The name of a statement that is written without the reserved name. -/
theorem Phrase.Written.named {statement : Statement} {phrase : Phrase} {w : List Token} {c : Token}
    (h : phrase.Written w c) (hphrase : statement.phrase? = some phrase)
    (hw : .identifier Prototype.anonymousName ∉ w) : statement.Named := by
  cases statement with
  | definition d =>
      cases hphrase
      cases h
      intro hname
      refine hw (List.mem_cons_of_mem _ (List.mem_append_left _ ?_))
      rw [hname]
      exact List.mem_cons_self
  | external p =>
      cases hphrase
      cases h
      intro hname
      refine hw (List.mem_cons_of_mem _ ?_)
      rw [hname]
      exact List.mem_cons_self
  | topLevel d =>
      generalize hp : phrase = p at h
      cases h with
      | topLevel =>
          subst hp
          exact (Phrase.topLevel.inj (Option.some.inj hphrase)).1
      | definition | external =>
          subst hp
          cases hphrase
  | malformed | endOfInput => trivial

namespace TokenStream

theorem Unreserved.statement_named {s : TokenStream} (h : s.Unreserved) : s.statement.1.Named := by
  obtain ⟨_, hend⟩ | ⟨_, ⟨phrase, hphrase⟩ | ⟨error, herror⟩⟩ := s.statement_cases
  · rw [hend]
    trivial
  · obtain ⟨_, hgives⟩ := (s.statement_phrase_iff s.statement.2 phrase).1 ⟨hphrase, rfl⟩
    obtain ⟨taken, htaken, hwritten⟩ := (Parse.gives_statementHere _ _ _).1 hgives
    refine hwritten.named hphrase fun hmem => ?_
    obtain ⟨lexeme, hlexeme, htoken⟩ := List.mem_map.1 hmem
    have hskipped : lexeme ∈ s.skipped.ahead := by
      rw [htaken]
      exact List.mem_append_left _ hlexeme
    exact h lexeme ((List.dropWhile_suffix Parse.isSeparator).subset hskipped) htoken
  · rw [herror]
    trivial

theorem Unreserved.named_of_mem_program {s : TokenStream} (h : s.Unreserved) {statement : Statement}
    (hmem : statement ∈ s.program.1) : statement.Named := by
  unfold program at hmem
  split at hmem
  · cases hmem
  next hlast =>
    have fewer := s.length_ahead_statement_lt (Bool.eq_false_iff.2 hlast)
    rcases List.mem_cons.1 hmem with rfl | hmem
    · exact h.statement_named
    · exact (h.suffix s.ahead_statement_suffix).named_of_mem_program hmem
  termination_by s.ahead.length

theorem program_cons {s : TokenStream} (h : s.statement.1.isEnd = false) :
    s.program = (s.statement.1 :: s.statement.2.program.1, s.statement.2.program.2) := by
  rw [program]
  simp [h]

end TokenStream

/-- The statement is one that the parser makes of a source text. -/
def Statement.Parsed (statement : Statement) : Prop :=
  statement = .endOfInput ∨ ∃ source, statement ∈ parseProgram source

theorem Statement.Parsed.named {statement : Statement} (h : statement.Parsed) :
    statement.Named := by
  obtain rfl | ⟨source, hmem⟩ := h
  · trivial
  · exact (TokenStream.unreserved_ofSource source).named_of_mem_program hmem

/-- The first statement of a source text is one that the parser makes. -/
theorem Statement.parsed_first (source : String) :
    (TokenStream.ofSource source).statement.1.Parsed := by
  cases hend : (TokenStream.ofSource source).statement.1.isEnd with
  | true =>
      refine .inl ?_
      revert hend
      cases (TokenStream.ofSource source).statement.1 with
      | endOfInput => exact fun _ => rfl
      | definition | external | topLevel | malformed => nofun
  | false =>
      refine .inr ⟨source, ?_⟩
      rw [parseProgram, TokenStream.program_cons hend]
      exact List.mem_cons_self

/-- A definition that calls itself is parsed. -/
theorem Statement.parsed_recursion :
    (Statement.definition ⟨⟨"f", [], ⟨4, 7⟩⟩, .call "f" [] ⟨8, 11⟩⟩).Parsed := by
  have hlexemes : Scanner.lexemes "def f() f()".toList =
      [⟨.keyword .definition, ⟨0, 3⟩⟩, ⟨.identifier "f", ⟨4, 5⟩⟩,
        ⟨.punctuator .openParen, ⟨5, 6⟩⟩, ⟨.punctuator .closeParen, ⟨6, 7⟩⟩,
        ⟨.identifier "f", ⟨8, 9⟩⟩, ⟨.punctuator .openParen, ⟨9, 10⟩⟩,
        ⟨.punctuator .closeParen, ⟨10, 11⟩⟩] := by decide +kernel
  have hparsed := parsed_first "def f() f()"
  rw [TokenStream.ofSource, hlexemes] at hparsed
  simpa [TokenStream.statement, Parse.isSeparator, Parse.statementHere, Parse.definition,
    Parse.prototype, Parse.parameters, Parse.expression, Parse.primary, Parse.climb,
    Parse.arguments, TokenStream.outcome, Reading.map, Reading.weaken, Span.cover] using hparsed

/-- A call without arguments is parsed. -/
theorem Statement.parsed_call :
    (Statement.topLevel (.anonymous (.call "f" [] ⟨0, 3⟩))).Parsed := by
  have hlexemes : Scanner.lexemes "f()".toList =
      [⟨.identifier "f", ⟨0, 1⟩⟩, ⟨.punctuator .openParen, ⟨1, 2⟩⟩,
        ⟨.punctuator .closeParen, ⟨2, 3⟩⟩] := by decide +kernel
  have hparsed := parsed_first "f()"
  rw [TokenStream.ofSource, hlexemes] at hparsed
  simpa [TokenStream.statement, Parse.isSeparator, Parse.statementHere, Parse.topLevel,
    Parse.expression, Parse.primary, Parse.climb, Parse.arguments, TokenStream.outcome,
    Reading.map, Reading.weaken, Span.cover] using hparsed

end ScalarLang
