import ScalarLang.Proofs.Grammar.Spans

/-!
# The places of a statement

A statement names the places of its prototype and of the nodes of its expression, or that of
the token at which it is an error (`Statement.places`). That token is one of the source
(`Statement.exists_failsAt`), and every place of a parsed statement cuts a text out of the
source (`Statement.exists_cuts`).
-/

namespace ScalarLang

/-- The span is a part of the source, from one boundary of characters to another. -/
structure Span.IsIn (span : Span) (source : String) : Prop where
  le : span.start ≤ span.stop
  stop_le : span.stop ≤ source.utf8ByteSize
  isValid_start : String.Pos.Raw.IsValid source ⟨span.start⟩
  isValid_stop : String.Pos.Raw.IsValid source ⟨span.stop⟩

theorem Span.Cuts.isIn {span : Span} {source text : String} (h : span.Cuts source text) :
    span.IsIn source := by
  have hle := h.stop_le
  obtain ⟨before, after, hsource, hstart, hstop⟩ := h
  constructor
  · rw [← hstart, ← hstop, String.utf8ByteSize_append]
    exact Nat.le_add_right _ _
  · exact hle
  · refine String.Pos.Raw.isValid_iff_exists_append.2 ⟨before, text ++ after, ?_, ?_⟩
    · rw [hsource, String.append_assoc]
    · rw [← hstart]
      rfl
  · refine String.Pos.Raw.isValid_iff_exists_append.2 ⟨before ++ text, after, hsource, ?_⟩
    rw [← hstop]
    rfl

namespace Statement

/-- The statement is an error at the token. -/
def FailsAt (statement : Statement) (found : Lexeme) : Prop :=
  ∃ expected, statement = .malformed (.ofLexeme expected found)

/-- The places that are known of a statement. -/
def places : Statement → List Span
  | definition d | topLevel d => d.prototype.span :: d.body.nodes.map Expr.span
  | external p => [p.span]
  | malformed error => [error.span]
  | endOfInput => []

theorem span_mem_places {statement : Statement} {e : Expr} (h : statement.expression? = some e) :
    e.span ∈ statement.places := by
  have hnode : e.span ∈ e.nodes.map Expr.span := by
    rw [e.nodes_eq]
    exact List.mem_cons_self
  cases statement with
  | definition d | topLevel d =>
      cases h
      exact List.mem_cons_of_mem _ hnode
  | external | endOfInput | malformed => cases h

end Statement

namespace TokenStream

/-- The current token behind some of the tokens is one of them all. -/
theorem current_mem_toList {s : TokenStream} {rest : List Lexeme} (h : rest <:+ s.ahead) :
    (TokenStream.mk rest s.stop).current ∈ s.toList := by
  cases rest with
  | nil => exact List.mem_append_right _ (List.mem_singleton_self _)
  | cons lexeme rest => exact List.mem_append_left _ (h.subset List.mem_cons_self)

theorem stop_statement (s : TokenStream) : s.statement.2.stop = s.stop := by
  by_cases hnil : s.skipped.ahead = []
  · rw [statement_of_skipped_nil hnil]
  · rw [statement_of_skipped_eq rfl hnil]
    generalize (Parse.statementHere s.skipped.ahead).result = r
    obtain ⟨_ | _, rest⟩ := r <;> rfl

/-- A statement leaves some of the tokens ahead, and the end of the text. -/
theorem toList_statement_subset (s : TokenStream) : s.statement.2.toList ⊆ s.toList := by
  rw [toList, toList, final, final, stop_statement]
  intro lexeme hmem
  rcases List.mem_append.1 hmem with hahead | hfinal
  · exact List.mem_append_left _ (s.ahead_statement_suffix.subset hahead)
  · exact List.mem_append_right _ hfinal

/-- An error of a program is at one of the tokens, or at the end of input. -/
theorem exists_failsAt_of_mem_program {s : TokenStream} {error : ParseError}
    (h : .malformed error ∈ s.program.1) :
    ∃ found ∈ s.toList, (Statement.malformed error).FailsAt found := by
  by_cases hnil : s.skipped.ahead = []
  · rw [program_of_skipped_nil hnil] at h
    cases h
  · have fewer := length_ahead_lt hnil
    rw [program_of_skipped_ne_nil hnil] at h
    rcases List.mem_cons.1 h with hfirst | hlater
    · have htakes := Parse.takes_statementHere s.skipped.ahead
      rw [statement_of_skipped_eq rfl hnil] at hfirst
      generalize Parse.statementHere s.skipped.ahead = r at htakes hfirst
      cases r with
      | read statement rest shorter =>
          obtain ⟨_, _, phrase, hphrase, _⟩ := htakes
          obtain rfl : .malformed error = statement := hfirst
          cases hphrase
      | failed expected rest bounded =>
          have hsuffix : rest <:+ s.ahead := htakes.trans (List.dropWhile_suffix _)
          exact ⟨_, current_mem_toList hsuffix, expected, hfirst⟩
    · obtain ⟨found, hfound, hfails⟩ := exists_failsAt_of_mem_program hlater
      exact ⟨found, s.toList_statement_subset hfound, hfails⟩
  termination_by s.ahead.length

/-- A token of a source cuts its text out of it, and the end of input nothing. -/
theorem exists_cuts_of_mem_tokenize {source : String} {found : Lexeme}
    (h : found ∈ tokenize source) : ∃ text, found.span.Cuts source text := by
  rcases List.mem_append.1 h with hahead | hfinal
  · obtain ⟨before, after, hsplit⟩ := List.append_of_mem hahead
    have hpart : [found] <:+: (ofSource source).ahead := ⟨before, after, by simp [hsplit]⟩
    obtain ⟨text, hcuts, -⟩ := exists_text hpart (Spans.singleton found)
    exact ⟨text, hcuts⟩
  · rw [List.mem_singleton.1 hfinal]
    refine ⟨"", source, "", ?_, rfl, ?_⟩
    · simp
    · rw [String.append_empty]
      rfl

end TokenStream

namespace Statement

variable {source : String} {statement : Statement}

/-- A statement that is an error is one at a token of the source. -/
theorem exists_failsAt {error : ParseError} (h : .malformed error ∈ parseProgram source) :
    ∃ found ∈ tokenize source, (malformed error).FailsAt found :=
  TokenStream.exists_failsAt_of_mem_program h

/-- The expression of a parsed statement is spelled by tokens of the source. -/
theorem exists_spells {e : Expr} (h : statement ∈ parseProgram source)
    (he : statement.expression? = some e) :
    ∃ part, part <:+: (TokenStream.ofSource source).ahead ∧ Spells part e := by
  obtain ⟨tokens, rest, hsuffix, hread⟩ | ⟨error, rfl⟩ :=
    TokenStream.exists_suffix_of_mem_program h
  · obtain ⟨tokens', rest', hsuffix', hread'⟩ := Parse.exists_expression_of_statementHere hread he
    obtain ⟨part, rfl, hspells⟩ := Parse.exists_spells hread'
    exact ⟨part, (List.prefix_append part rest').isInfix.trans (hsuffix'.trans hsuffix).isInfix,
      hspells⟩
  · cases he

theorem exists_cuts_node {e node : Expr} (h : statement ∈ parseProgram source)
    (he : statement.expression? = some e) (hnode : node ∈ e.nodes) :
    ∃ text, node.span.Cuts source text := by
  obtain ⟨part, hpart, hspells⟩ := exists_spells h he
  obtain ⟨part', hinside, hnode⟩ := hspells.exists_isInfix node hnode
  obtain ⟨text, hcuts, -⟩ := TokenStream.exists_text (hinside.trans hpart) hnode.spans
  exact ⟨text, hcuts⟩

theorem exists_cuts_prototype {p : Prototype} (h : statement ∈ parseProgram source)
    (hp : statement.prototype? = some p) : ∃ text, p.span.Cuts source text := by
  obtain ⟨tokens, rest, hsuffix, hread⟩ | ⟨error, rfl⟩ :=
    TokenStream.exists_suffix_of_mem_program h
  · obtain ⟨tokens', rest', hsuffix', hread'⟩ := Parse.exists_prototype_of_statementHere hread hp
    obtain ⟨part, rfl, hspans, -⟩ := Parse.exists_spans_prototype hread'
    have hpart := (List.prefix_append part rest').isInfix.trans (hsuffix'.trans hsuffix).isInfix
    obtain ⟨text, hcuts, -⟩ := TokenStream.exists_text hpart hspans
    exact ⟨text, hcuts⟩
  · cases hp

/-- The prototype of an expression at the top level is at the place of the expression. -/
theorem span_prototype_of_topLevel {d : Definition} (h : .topLevel d ∈ parseProgram source) :
    d.prototype.span = d.body.span := by
  obtain ⟨tokens, rest, -, hread⟩ | ⟨error, herror⟩ := TokenStream.exists_suffix_of_mem_program h
  · obtain ⟨_, _, _, _, _, _, _, _, heq⟩ | ⟨_, _, _, _, _, heq⟩ | ⟨body, -, heq⟩ :=
      Parse.cases_of_statementHere hread
    · cases heq
    · cases heq
    · cases heq
      rfl
  · cases herror

/-- Every place of a parsed statement is one in the source. -/
theorem exists_cuts (h : statement ∈ parseProgram source) :
    ∀ span ∈ statement.places, ∃ text, span.Cuts source text := by
  intro span hspan
  cases statement with
  | definition d =>
      rcases List.mem_cons.1 hspan with rfl | hspan
      · exact exists_cuts_prototype h rfl
      · obtain ⟨node, hnode, rfl⟩ := List.mem_map.1 hspan
        exact exists_cuts_node h rfl hnode
  | topLevel d =>
      rcases List.mem_cons.1 hspan with rfl | hspan
      · rw [span_prototype_of_topLevel h]
        refine exists_cuts_node h rfl ?_
        rw [d.body.nodes_eq]
        exact List.mem_cons_self
      · obtain ⟨node, hnode, rfl⟩ := List.mem_map.1 hspan
        exact exists_cuts_node h rfl hnode
  | external p =>
      rw [List.mem_singleton.1 hspan]
      exact exists_cuts_prototype h rfl
  | malformed error =>
      obtain ⟨found, hfound, expected, herror⟩ := exists_failsAt h
      rw [List.mem_singleton.1 hspan, malformed.inj herror, ParseError.span_ofLexeme]
      exact TokenStream.exists_cuts_of_mem_tokenize hfound
  | endOfInput => cases hspan

end Statement

end ScalarLang
