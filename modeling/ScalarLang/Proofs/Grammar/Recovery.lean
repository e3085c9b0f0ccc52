import Mathlib.Data.List.Nodup
import ScalarLang.Proofs.Grammar.Places
import ScalarLang.Proofs.Grammar.Semicolon

/-!
# A declaration behind errors

After an error reading goes on behind the token at which the error was. A keyword ends what can
be read in front of it, so in front of a declaration the same statements are read as at the end
of input, until one of them is unfinished there (`TokenStream.exists_program_append`). That one
is an error at the keyword, which is passed over. So a declaration on a line of its own is read,
behind whatever errors there are, if and only if none of them is at the end of input
(`mem_parseProgram_append_declaration_iff`).
-/

namespace ScalarLang

/-- An error is at a single token. -/
theorem ParseError.eq_of_ofLexeme_eq {expected expected' : Expectation} {found found' : Lexeme}
    (h : ofLexeme expected found = ofLexeme expected' found') : found = found' := by
  obtain ⟨token, span⟩ := found
  obtain ⟨token', span'⟩ := found'
  cases token <;> cases token' <;> cases h <;> rfl

theorem Statement.FailsAt.eq {statement : Statement} {found found' : Lexeme}
    (h : statement.FailsAt found) (h' : statement.FailsAt found') : found = found' := by
  obtain ⟨expected, rfl⟩ := h
  obtain ⟨expected', herror⟩ := h'
  exact ParseError.eq_of_ofLexeme_eq (Statement.malformed.inj herror)

theorem Statement.prototype?_shift {offset : Nat} {statement : Statement} {p : Prototype}
    (h : statement.prototype? = some p) :
    (statement.shift offset).prototype? = some (p.shift offset) := by
  cases statement with
  | definition | external =>
      cases h
      rfl
  | topLevel | malformed | endOfInput => cases h

/-! ### The place of a declaration -/

/-- The places of the tokens of a source are different. -/
theorem TokenStream.nodup_starts (source : String) :
    ((ofSource source).ahead.map (·.span.start)).Nodup := by
  have hpartitions := Scanner.partitions_lexemes source.toList
  refine List.pairwise_map.2 (hpartitions.ordered.imp_of_mem fun hx _ hle => ?_)
  exact Nat.ne_of_lt (Nat.lt_of_lt_of_le (hpartitions.nonempty _ hx) hle)

theorem TokenStream.token_ne_endOfInput (source : String) :
    ∀ x ∈ (ofSource source).ahead, x.token ≠ .endOfInput := by
  intro x hx
  obtain ⟨_, _, -, hmunch⟩ := (Scanner.partitions_lexemes source.toList).munch x hx
  exact hmunch.ne_endOfInput

namespace Parse

variable {tokens tokens' rest rest' : List Lexeme} {statement : Statement} {p : Prototype}

/-- The prototype of a declaration starts behind the keyword. -/
theorem exists_keyword_of_statementHere (h : (statementHere tokens).result = (.ok statement, rest))
    (hp : statement.prototype? = some p) :
    ∃ word span first inner, tokens = ⟨.keyword word, span⟩ :: first :: inner ∧
      first.span.start = p.span.start := by
  have hfirst {behind rest' : List Lexeme} (h : (prototype behind).result = (.ok p, rest')) :
      ∃ first inner, behind = first :: inner ∧ first.span.start = p.span.start := by
    obtain ⟨part, rfl, hspans, -⟩ := exists_spans_prototype h
    obtain ⟨first, inner, rfl⟩ := List.exists_cons_of_ne_nil hspans.ne_nil
    exact ⟨first, inner ++ rest', rfl, Option.some.inj hspans.start⟩
  obtain ⟨span, behind, p', rest', body, rfl, hprototype, -, rfl⟩ |
    ⟨span, behind, p', rfl, hprototype, rfl⟩ | ⟨body, -, rfl⟩ := cases_of_statementHere h
  · cases hp
    obtain ⟨first, inner, rfl, hstart⟩ := hfirst hprototype
    exact ⟨_, span, first, inner, rfl, hstart⟩
  · cases hp
    obtain ⟨first, inner, rfl, hstart⟩ := hfirst hprototype
    exact ⟨_, span, first, inner, rfl, hstart⟩
  · cases hp

/-- A declaration is read at one place only. -/
theorem eq_of_statementHere {all : List Lexeme} (hall : (all.map (·.span.start)).Nodup)
    (hsuffix : tokens <:+ all) (hsuffix' : tokens' <:+ all)
    (h : (statementHere tokens).result = (.ok statement, rest))
    (h' : (statementHere tokens').result = (.ok statement, rest'))
    (hp : statement.prototype? = some p) : tokens = tokens' := by
  obtain ⟨word, span, first, inner, rfl, hstart⟩ := exists_keyword_of_statementHere h hp
  obtain ⟨word', span', first', inner', rfl, hstart'⟩ := exists_keyword_of_statementHere h' hp
  obtain ⟨before, hbefore⟩ := hsuffix
  obtain ⟨before', hbefore'⟩ := hsuffix'
  rw [List.append_cons] at hbefore hbefore'
  have hfirst : first ∈ all := by
    rw [← hbefore]
    exact List.mem_append_right _ List.mem_cons_self
  have hfirst' : first' ∈ all := by
    rw [← hbefore']
    exact List.mem_append_right _ List.mem_cons_self
  obtain rfl : first = first' :=
    List.inj_on_of_nodup_map hall hfirst hfirst' (hstart.trans hstart'.symm)
  have hnodup := hall.of_map
  rw [← hbefore, List.nodup_append] at hnodup
  obtain ⟨-, hinner, hbehind⟩ := hnodup
  have heq := (List.append_cons_inj_of_notMem
    (fun hmem => hbehind _ hmem _ List.mem_cons_self rfl)
    (List.nodup_cons.1 hinner).1).1 (hbefore.trans hbefore'.symm)
  obtain ⟨hkeyword, -, rfl⟩ := heq
  obtain ⟨-, hkeyword⟩ := List.append_inj' hkeyword rfl
  rw [List.cons.inj hkeyword |>.1]

/-- A keyword goes on no expression. -/
theorem stops_keyword (w : List Token) (word : Keyword) : Stops w (.keyword word) := ⟨nofun, nofun⟩

section Keyword

variable {front back : List Lexeme} {word : Keyword}

/-- What is read at the end of input is read in front of a keyword, but for errors at the end. -/
theorem result_statementHere_append (hback : nextToken back = .keyword word)
    {r : Except Expectation Statement} (h : (statementHere front).result = (r, rest))
    (hend : rest = [] → ∃ statement, r = .ok statement) :
    (statementHere (front ++ back)).result = (r, rest ++ back) := by
  obtain ⟨taken, htaken, -, -⟩ := repeats_statementHere 0 front
  rw [h] at htaken
  rw [htaken] at h ⊢
  rw [List.append_assoc]
  cases rest with
  | nil =>
      obtain ⟨statement, rfl⟩ := hend rfl
      exact reread_statementHere h back (hback ▸ stops_keyword _ word)
  | cons x rest => exact result_statementHere_congr h (x :: rest ++ back) rfl

/-- In front of a keyword, an error at the end of input is one at the keyword, or the keyword is
passed over. -/
theorem suffix_of_statementHere_append {expected : Expectation}
    (h : (statementHere front).result = (.error expected, [])) {r : Reading.Result Statement}
    (hagain : (statementHere (front ++ back)).result = r) :
    r.2 <:+ back.tail ∨ ∃ expected, r = (.error expected, back) := by
  obtain ⟨taken, htaken, -, -⟩ := repeats_statementHere 0 (front ++ back)
  obtain ⟨result, rest⟩ := r
  rw [hagain] at htaken
  dsimp only at htaken ⊢
  by_cases hrest : rest = back
  · subst hrest
    cases result with
    | error expected => exact .inr ⟨expected, rfl⟩
    | ok statement =>
        have hread := reread_statementHere hagain [] (.endOfInput _)
        rw [List.append_nil, h] at hread
        cases hread
  refine .inl ?_
  obtain ⟨extra, -, hextra⟩ | ⟨extra, hfront, hextra⟩ := List.append_eq_append_iff.1 htaken
  · cases extra with
    | nil => exact absurd hextra.symm hrest
    | cons x extra =>
        rw [hextra]
        exact List.suffix_append extra rest
  · cases extra with
    | nil => exact absurd hextra hrest
    | cons x extra =>
        -- Only tokens in front of the keyword are taken, and the same ones at the end of input.
        rw [hfront, hextra, List.append_assoc] at hagain
        have hread := result_statementHere_congr hagain (x :: extra) rfl
        rw [← hfront, h] at hread
        cases hread

end Keyword

end Parse

/-! ### In front of a keyword -/

namespace TokenStream

/-- The next statement is an error at the end of input. -/
def Unfinished (s : TokenStream) : Prop :=
  s.skipped.ahead ≠ [] ∧
    ∃ expected, (Parse.statementHere s.skipped.ahead).result = (.error expected, [])

theorem Unfinished.failsAt {s : TokenStream} (h : s.Unfinished) :
    s.statement.1.FailsAt s.final := by
  obtain ⟨hne, expected, hresult⟩ := h
  refine ⟨expected, ?_⟩
  rw [statement_of_skipped_eq rfl hne, hresult]
  rfl

section Keyword

variable {front back : List Lexeme} {word : Keyword}

/-- The statement of a stream that has one, in front of other tokens. -/
theorem statement_append (stop stop' : Nat) (hne : (mk front stop').skipped.ahead ≠ []) :
    (mk (front ++ back) stop).statement =
      ofResult stop (Parse.statementHere ((mk front stop').skipped.ahead ++ back)).result :=
  statement_of_skipped_eq (ahead_skipped_append back stop stop' hne)
    (List.append_ne_nil_of_left_ne_nil hne back)

/-- In front of a keyword the same statement is read as at the end of input, unless it is
unfinished there. -/
theorem statement_append_keyword (hback : nextToken back = .keyword word)
    (hfront : ∀ x ∈ front, x.token ≠ .endOfInput) (stop stop' : Nat)
    (hne : (mk front stop').skipped.ahead ≠ []) (h : ¬ (mk front stop').Unfinished) :
    ∃ statement middle, (mk front stop').statement = (statement, ⟨middle, stop'⟩) ∧
      (mk (front ++ back) stop).statement = (statement, ⟨middle ++ back, stop⟩) ∧
      ¬ statement.FailsAt (mk front stop').final := by
  rw [statement_of_skipped_eq rfl hne, statement_append stop stop' hne]
  obtain ⟨taken, htaken, -, -⟩ := Parse.repeats_statementHere 0 (mk front stop').skipped.ahead
  generalize hresult : (Parse.statementHere (mk front stop').skipped.ahead).result = r at htaken ⊢
  obtain ⟨expected | statement, rest⟩ := r
  · cases rest with
    | nil => exact absurd ⟨hne, expected, hresult⟩ h
    | cons x rest =>
        rw [Parse.result_statementHere_append hback hresult nofun]
        refine ⟨_, rest, rfl, rfl, fun hfails => ?_⟩
        obtain rfl : x = (mk front stop').final := Statement.FailsAt.eq ⟨expected, rfl⟩ hfails
        have hmem : (mk front stop').final ∈ (mk front stop').skipped.ahead := by
          rw [htaken]
          exact List.mem_append_right _ List.mem_cons_self
        exact hfront _ ((List.dropWhile_suffix Parse.isSeparator).subset hmem) rfl
  · rw [Parse.result_statementHere_append hback hresult fun _ => ⟨statement, rfl⟩]
    refine ⟨statement, rest, rfl, rfl, ?_⟩
    exact fun ⟨_, hfails⟩ => (Parse.ne_of_statementHere hresult).2 _ hfails

/-- In front of a keyword the same statements are read as at the end of input, up to one that is
unfinished there. -/
theorem exists_program_append (hback : nextToken back = .keyword word) (front : List Lexeme)
    (hfront : ∀ x ∈ front, x.token ≠ .endOfInput) (stop stop' : Nat) :
    ∃ early middle, middle <:+ front ∧
      (mk front stop').program.1 = early ++ (mk middle stop').program.1 ∧
      (mk (front ++ back) stop).program.1 = early ++ (mk (middle ++ back) stop).program.1 ∧
      (∀ statement ∈ early, ¬ statement.FailsAt (mk front stop').final) ∧
      ((mk middle stop').skipped.ahead = [] ∨ (mk middle stop').Unfinished) := by
  by_cases hnil : (mk front stop').skipped.ahead = []
  · exact ⟨[], front, List.suffix_refl _, rfl, rfl, nofun, .inl hnil⟩
  by_cases hunfinished : (mk front stop').Unfinished
  · exact ⟨[], front, List.suffix_refl _, rfl, rfl, nofun, .inr hunfinished⟩
  obtain ⟨statement, behind, hstatement, hstatement', hfails⟩ :=
    statement_append_keyword hback hfront stop stop' hnil hunfinished
  have hne : (mk (front ++ back) stop).skipped.ahead ≠ [] := by
    rw [ahead_skipped_append back stop stop' hnil]
    exact List.append_ne_nil_of_left_ne_nil hnil back
  have hsuffix : behind <:+ front := by
    have h := (mk front stop').ahead_statement_suffix
    rwa [hstatement] at h
  have fewer : behind.length < front.length := by
    have h := length_ahead_lt hnil
    rwa [hstatement] at h
  obtain ⟨early, middle, hmiddle, hprogram, hprogram', hearly, hend⟩ :=
    exists_program_append hback behind (fun x hx => hfront x (hsuffix.subset hx)) stop stop'
  refine ⟨statement :: early, middle, hmiddle.trans hsuffix, ?_, ?_,
    List.forall_mem_cons.2 ⟨hfails, hearly⟩, hend⟩
  · rw [program_of_skipped_ne_nil hnil, hstatement, hprogram]
    rfl
  · rw [program_of_skipped_ne_nil hne, hstatement', hprogram']
    rfl
  termination_by front.length

/-- If no statement is unfinished, all those in front of a keyword are read, and then those from
the keyword on. -/
theorem program_append_keyword (hback : nextToken back = .keyword word)
    (hfront : ∀ x ∈ front, x.token ≠ .endOfInput) (stop stop' : Nat)
    (h : ∀ statement ∈ (mk front stop').program.1, ¬ statement.FailsAt (mk front stop').final) :
    (mk (front ++ back) stop).program.1 =
      (mk front stop').program.1 ++ (mk back stop).program.1 := by
  obtain ⟨early, middle, -, hprogram, hprogram', -, hnil | hunfinished⟩ :=
    exists_program_append hback front hfront stop stop'
  · have hskipped := ahead_skipped_append_of_nil back stop stop' hnil
    rw [hprogram, hprogram', program_congr hskipped rfl, program_of_skipped_nil hnil,
      List.append_nil]
  · refine absurd hunfinished.failsAt (h _ ?_)
    rw [hprogram, program_of_skipped_ne_nil hunfinished.1]
    exact List.mem_append_right _ List.mem_cons_self

/-- Behind an unfinished statement a keyword is passed over. -/
theorem Unfinished.statement_suffix {stop' : Nat} (h : (mk front stop').Unfinished)
    (stop : Nat) :
    (mk (front ++ back) stop).statement.2.ahead <:+ back.tail := by
  obtain ⟨hne, expected, hresult⟩ := h
  rw [statement_append stop stop' hne]
  generalize hagain :
    (Parse.statementHere ((mk front stop').skipped.ahead ++ back)).result = r
  obtain hsuffix | ⟨expected, rfl⟩ := Parse.suffix_of_statementHere_append hresult hagain
  · obtain ⟨_ | statement, rest⟩ := r
    · exact (List.tail_suffix rest).trans hsuffix
    · exact hsuffix
  · exact List.suffix_refl _

/-- Behind an unfinished statement, what is read from a keyword on is not among the statements. -/
theorem Unfinished.not_mem_program {stop' : Nat} (h : (mk front stop').Unfinished) (stop : Nat)
    (hstarts : ((front ++ back).map (·.span.start)).Nodup) {statement : Statement} {p : Prototype}
    {rest : List Lexeme} (hread : (Parse.statementHere back).result = (.ok statement, rest))
    (hp : statement.prototype? = some p) : statement ∉ (mk (front ++ back) stop).program.1 := by
  have hskipped := ahead_skipped_append back stop stop' h.1
  have hne : (mk (front ++ back) stop).skipped.ahead ≠ [] := by
    rw [hskipped]
    exact List.append_ne_nil_of_left_ne_nil h.1 back
  have hunique {tokens rest' : List Lexeme} (hsuffix : tokens <:+ front ++ back)
      (hagain : (Parse.statementHere tokens).result = (.ok statement, rest')) : tokens = back :=
    Parse.eq_of_statementHere hstarts hsuffix (List.suffix_append front back) hagain hread hp
  rw [program_of_skipped_ne_nil hne]
  intro hmem
  rcases List.mem_cons.1 hmem with hfirst | hlater
  · -- The statement in front of the keyword is read of more tokens.
    rw [statement_of_skipped_eq rfl hne] at hfirst
    generalize hresult : (Parse.statementHere (mk (front ++ back) stop).skipped.ahead).result = r
      at hfirst
    obtain ⟨_ | statement', rest'⟩ := r
    · rw [hfirst] at hp
      cases hp
    · obtain rfl : statement = statement' := hfirst
      have heq := hskipped.symm.trans (hunique (List.dropWhile_suffix _) hresult)
      exact h.1 (List.append_left_eq_self.1 heq)
  · -- The other ones are read of fewer tokens.
    obtain ⟨tokens, rest', hsuffix, hresult⟩ | ⟨error, rfl⟩ := exists_suffix_of_mem_program hlater
    · have htail := hsuffix.trans (h.statement_suffix stop)
      obtain rfl := hunique
        ((htail.trans (List.tail_suffix back)).trans (List.suffix_append front back)) hresult
      obtain ⟨word, span, first, inner, rfl, -⟩ := Parse.exists_keyword_of_statementHere hread hp
      exact absurd htail.length_le (Nat.not_succ_le_self _)
    · cases hp

/-- If what is read from a keyword on is among the statements, none of those in front of it is
unfinished. -/
theorem not_failsAt_of_mem_program (hback : nextToken back = .keyword word)
    (hfront : ∀ x ∈ front, x.token ≠ .endOfInput) (stop stop' : Nat)
    (hstarts : ((front ++ back).map (·.span.start)).Nodup) {statement : Statement} {p : Prototype}
    {rest : List Lexeme} (hread : (Parse.statementHere back).result = (.ok statement, rest))
    (hp : statement.prototype? = some p) (hmem : statement ∈ (mk (front ++ back) stop).program.1)
    (hnew : statement ∉ (mk front stop').program.1) :
    ∀ failed ∈ (mk front stop').program.1, ¬ failed.FailsAt (mk front stop').final := by
  obtain ⟨early, middle, hmiddle, hprogram, hprogram', hearly, hnil | hunfinished⟩ :=
    exists_program_append hback front hfront stop stop'
  · rw [hprogram, program_of_skipped_nil hnil, List.append_nil]
    exact hearly
  · rw [hprogram'] at hmem
    rw [hprogram] at hnew
    rcases List.mem_append.1 hmem with hmem | hmem
    · exact absurd (List.mem_append_left _ hmem) hnew
    · have hsublist := (hmiddle.sublist.append_right back).map (·.span.start)
      exact absurd hmem (hunfinished.not_mem_program stop (hstarts.sublist hsublist) hread hp)

end Keyword

end TokenStream

/-! ### A declaration on a line of its own -/

/-- The text is a single definition or external declaration, with no semicolon in front. -/
structure Declares (text : String) (statement : Statement) : Prop where
  program_eq : parseProgram text = [statement]
  isSome_prototype : statement.prototype?.isSome
  start : nextToken (TokenStream.ofSource text).ahead ≠ .punctuator .semicolon

namespace Declares

variable {text : String} {statement : Statement}

theorem exists_reads (h : Declares text statement) :
    ∃ rest, (Parse.statementHere (TokenStream.ofSource text).ahead).result =
      (.ok statement, rest) := by
  have hprogram := h.program_eq
  have hne : (TokenStream.ofSource text).skipped.ahead ≠ [] := by
    intro hnil
    rw [parseProgram, TokenStream.program_of_skipped_nil hnil] at hprogram
    cases hprogram
  have hskipped : (TokenStream.ofSource text).skipped.ahead =
      (TokenStream.ofSource text).ahead := by
    have hstart := h.start
    rw [TokenStream.skipped] at hne ⊢
    generalize (TokenStream.ofSource text).ahead = tokens at hstart hne ⊢
    cases tokens with
    | nil => rfl
    | cons x tokens =>
        have hseparator : ¬ Parse.isSeparator x = true := fun h => hstart (eq_of_beq h)
        exact List.dropWhile_cons_of_neg hseparator
  rw [parseProgram, TokenStream.program_of_skipped_ne_nil hne,
    TokenStream.statement_of_skipped_eq hskipped (hskipped ▸ hne)] at hprogram
  have hfirst := (List.cons.inj hprogram).1
  generalize (Parse.statementHere (TokenStream.ofSource text).ahead).result = r at hfirst
  obtain ⟨_ | statement', rest⟩ := r
  · have hsome := h.isSome_prototype
    rw [← hfirst] at hsome
    cases hsome
  · exact ⟨rest, congrArg (Except.ok ·, rest) hfirst⟩

/-- Further on in a text, the declaration is read from a keyword on. -/
theorem exists_reads_shift (h : Declares text statement) (offset : Nat) :
    ∃ word rest, nextToken ((TokenStream.ofSource text).shift offset).ahead = .keyword word ∧
      (Parse.statementHere ((TokenStream.ofSource text).shift offset).ahead).result =
        (.ok (statement.shift offset), rest) := by
  obtain ⟨p, hp⟩ := Option.isSome_iff_exists.1 h.isSome_prototype
  obtain ⟨rest, hread⟩ := h.exists_reads
  obtain ⟨word, span, first, inner, htext, -⟩ := Parse.exists_keyword_of_statementHere hread hp
  have hrun := (Parse.repeats_statementHere offset (TokenStream.ofSource text).ahead).run_map
  rw [hread] at hrun
  refine ⟨word, rest.map (Lexeme.shift offset), ?_, hrun⟩
  rw [TokenStream.shift, htext]
  rfl

end Declares

theorem TokenStream.ofSource_append_newline (source source' : String) :
    ofSource (source ++ "\n" ++ source') =
      ⟨(ofSource source).ahead ++ ((ofSource source').shift (source.utf8ByteSize + 1)).ahead,
        ((ofSource source').shift (source.utf8ByteSize + 1)).stop⟩ := by
  have hlexemes := Scanner.lexemes_append_newline source.toList source'.toList
  rw [Scanner.byteLength_toList] at hlexemes
  have hstop : (source ++ "\n" ++ source').utf8ByteSize =
      source'.utf8ByteSize + (source.utf8ByteSize + 1) := by
    rw [String.utf8ByteSize_append, String.utf8ByteSize_append, Nat.add_comm]
    rfl
  rw [ofSource, hstop, String.toList_append, String.toList_append, List.append_assoc]
  exact congrArg (TokenStream.mk · _) hlexemes

/-- No statement of a source is further on than the source is long. -/
theorem Statement.shift_not_mem_parseProgram {source : String} {statement : Statement}
    (h : statement.prototype?.isSome) {offset : Nat} (hoffset : source.utf8ByteSize < offset) :
    statement.shift offset ∉ parseProgram source := by
  obtain ⟨p, hp⟩ := Option.isSome_iff_exists.1 h
  intro hmem
  obtain ⟨text, hcuts⟩ := exists_cuts_prototype hmem (prototype?_shift hp)
  have hle := hcuts.isIn.le
  have hstop := hcuts.stop_le
  rw [Prototype.shift, Span.shift] at hle hstop
  dsimp only at hle hstop
  omega

namespace Declares

variable {text : String} {statement : Statement}

/-- Behind a text without an error at its end, the declaration is read last. -/
theorem parseProgram_append (h : Declares text statement) {source : String}
    (hnone : ∀ failed ∈ parseProgram source,
      ¬ failed.FailsAt (TokenStream.ofSource source).final) :
    parseProgram (source ++ "\n" ++ text) =
      parseProgram source ++ [statement.shift (source.utf8ByteSize + 1)] := by
  obtain ⟨word, -, hback, -⟩ := h.exists_reads_shift (source.utf8ByteSize + 1)
  have hprogram := TokenStream.program_append_keyword hback (TokenStream.token_ne_endOfInput source)
    ((TokenStream.ofSource text).shift (source.utf8ByteSize + 1)).stop _ hnone
  have htext := TokenStream.program_shift (source.utf8ByteSize + 1) (TokenStream.ofSource text)
  rw [← parseProgram, h.program_eq] at htext
  rw [parseProgram, TokenStream.ofSource_append_newline, hprogram]
  exact congrArg (parseProgram source ++ ·) htext

/-- Behind a text with an error at its end, the declaration is not read. -/
theorem not_failsAt_of_mem (h : Declares text statement) {source : String}
    (hmem : statement.shift (source.utf8ByteSize + 1) ∈ parseProgram (source ++ "\n" ++ text)) :
    ∀ failed ∈ parseProgram source, ¬ failed.FailsAt (TokenStream.ofSource source).final := by
  obtain ⟨p, hp⟩ := Option.isSome_iff_exists.1 h.isSome_prototype
  obtain ⟨word, rest, hback, hread⟩ := h.exists_reads_shift (source.utf8ByteSize + 1)
  have hstarts := TokenStream.nodup_starts (source ++ "\n" ++ text)
  have hnew := Statement.shift_not_mem_parseProgram h.isSome_prototype
    (Nat.lt_succ_self source.utf8ByteSize)
  rw [TokenStream.ofSource_append_newline] at hstarts
  rw [parseProgram, TokenStream.ofSource_append_newline] at hmem
  exact TokenStream.not_failsAt_of_mem_program hback (TokenStream.token_ne_endOfInput source) _ _
    hstarts hread (Statement.prototype?_shift hp) hmem hnew

end Declares

/-- A declaration on the line behind a text is among the statements, as much further on as the
text is long, if and only if none of the statements of the text is an error at the end of input.
Then they are the same statements as without the declaration, and it is the last one. -/
theorem mem_parseProgram_append_declaration_iff (source : String) {text : String}
    {statement : Statement} (h : Declares text statement) :
    let offset := source.utf8ByteSize + 1
    let final := (TokenStream.ofSource source).final
    (statement.shift offset ∈ parseProgram (source ++ "\n" ++ text) ↔
      ∀ failed ∈ parseProgram source, ¬ failed.FailsAt final) ∧
    (parseProgram (source ++ "\n" ++ text) = parseProgram source ++ [statement.shift offset] ↔
      ∀ failed ∈ parseProgram source, ¬ failed.FailsAt final) := by
  intro offset final
  have hmem (heq : parseProgram (source ++ "\n" ++ text) =
      parseProgram source ++ [statement.shift offset]) :
      statement.shift offset ∈ parseProgram (source ++ "\n" ++ text) := by
    rw [heq]
    exact List.mem_append_right _ (List.mem_singleton_self _)
  refine ⟨⟨h.not_failsAt_of_mem, fun hnone => hmem (h.parseProgram_append hnone)⟩, ?_⟩
  exact ⟨fun heq => h.not_failsAt_of_mem (hmem heq), h.parseProgram_append⟩

/-- A definition that calls itself is a declaration. -/
theorem declares_recursion :
    Declares "def f() f()" (.definition ⟨⟨"f", [], ⟨4, 7⟩⟩, .call "f" [] ⟨8, 11⟩⟩) := by
  have hlexemes : Scanner.lexemes "def f() f()".toList =
      [⟨.keyword .definition, ⟨0, 3⟩⟩, ⟨.identifier "f", ⟨4, 5⟩⟩, ⟨.punctuator .openParen, ⟨5, 6⟩⟩,
        ⟨.punctuator .closeParen, ⟨6, 7⟩⟩, ⟨.identifier "f", ⟨8, 9⟩⟩,
        ⟨.punctuator .openParen, ⟨9, 10⟩⟩, ⟨.punctuator .closeParen, ⟨10, 11⟩⟩] := by
    decide +kernel
  refine ⟨?_, rfl, ?_⟩
  · rw [parseProgram, TokenStream.ofSource, hlexemes,
      TokenStream.program_of_skipped_ne_nil (by decide)]
    simp [TokenStream.statement, Parse.isSeparator, Parse.statementHere, Parse.definition,
      Parse.prototype, Parse.parameters, Parse.expression, Parse.primary, Parse.climb,
      Parse.arguments, TokenStream.outcome, Reading.map, Reading.weaken, Span.cover]
    exact TokenStream.program_of_skipped_nil rfl
  · rw [TokenStream.ofSource, hlexemes]
    decide

/-- Behind a definition that has no name, a declaration is read. -/
theorem mem_parseProgram_append_recursion :
    let recursion := Statement.definition ⟨⟨"f", [], ⟨4, 7⟩⟩, .call "f" [] ⟨8, 11⟩⟩
    parseProgram "def (" = [.malformed (.unexpectedToken .functionName (.punctuator .openParen)
        ⟨4, 5⟩)] ∧
      Declares "def f() f()" recursion ∧
      recursion.shift 6 ∈ parseProgram ("def (" ++ "\n" ++ "def f() f()") := by
  intro recursion
  have hlexemes : Scanner.lexemes "def (".toList =
      [⟨.keyword .definition, ⟨0, 3⟩⟩, ⟨.punctuator .openParen, ⟨4, 5⟩⟩] := by decide +kernel
  have hprogram : parseProgram "def (" =
      [.malformed (.unexpectedToken .functionName (.punctuator .openParen) ⟨4, 5⟩)] := by
    rw [parseProgram, TokenStream.ofSource, hlexemes,
      TokenStream.program_of_skipped_ne_nil (by decide)]
    simp [TokenStream.statement, Parse.isSeparator, Parse.statementHere, Parse.definition,
      Parse.prototype, TokenStream.outcome, Reading.map, Reading.weaken, ParseError.ofLexeme]
    exact TokenStream.program_of_skipped_nil rfl
  refine ⟨hprogram, declares_recursion, ?_⟩
  refine (mem_parseProgram_append_declaration_iff "def (" declares_recursion).1.2 ?_
  rw [hprogram]
  intro failed hfailed hfails
  rw [List.mem_singleton.1 hfailed] at hfails
  have hfound : Statement.FailsAt _ ⟨.punctuator .openParen, ⟨4, 5⟩⟩ := ⟨.functionName, rfl⟩
  cases congrArg Lexeme.token (hfound.eq hfails)

/-- A sum without its second operand is an error at the keyword on the next line, and what is
declared there is not read. -/
theorem not_mem_parseProgram_append_unfinished :
    ¬ ∀ (source text : String) (statement : Statement),
      (∃ error, .malformed error ∈ parseProgram source) → Declares text statement →
        statement.shift (source.utf8ByteSize + 1) ∈ parseProgram (source ++ "\n" ++ text) := by
  have hsum : Scanner.lexemes "x +".toList =
      [⟨.identifier "x", ⟨0, 1⟩⟩, ⟨.punctuator .plus, ⟨2, 3⟩⟩] := by decide +kernel
  have hmalformed : parseProgram "x +" =
      [.malformed (.unexpectedToken .expression .endOfInput ⟨3, 3⟩)] := by
    rw [parseProgram, TokenStream.ofSource, hsum,
      TokenStream.program_of_skipped_ne_nil (by decide)]
    simp [TokenStream.statement, Parse.isSeparator, Parse.statementHere, Parse.topLevel,
      Parse.expression, Parse.primary, Parse.climb, Parse.operand, TokenStream.outcome, Reading.map,
      Reading.weaken, Operator.ofMark?, Operator.all, Operator.mark, ParseError.ofLexeme]
    exact ⟨rfl, TokenStream.program_of_skipped_nil rfl⟩
  have hlexemes : Scanner.lexemes ("x +" ++ "\n" ++ "def f() f()").toList =
      [⟨.identifier "x", ⟨0, 1⟩⟩, ⟨.punctuator .plus, ⟨2, 3⟩⟩, ⟨.keyword .definition, ⟨4, 7⟩⟩,
        ⟨.identifier "f", ⟨8, 9⟩⟩, ⟨.punctuator .openParen, ⟨9, 10⟩⟩,
        ⟨.punctuator .closeParen, ⟨10, 11⟩⟩, ⟨.identifier "f", ⟨12, 13⟩⟩,
        ⟨.punctuator .openParen, ⟨13, 14⟩⟩, ⟨.punctuator .closeParen, ⟨14, 15⟩⟩] := by
    decide +kernel
  have hprogram : parseProgram ("x +" ++ "\n" ++ "def f() f()") =
      [.malformed (.unexpectedToken .expressionNotKeyword (.keyword .definition) ⟨4, 7⟩),
        .topLevel (.anonymous (.call "f" [] ⟨8, 11⟩)),
        .topLevel (.anonymous (.call "f" [] ⟨12, 15⟩))] := by
    rw [parseProgram, TokenStream.ofSource, hlexemes,
      TokenStream.program_of_skipped_ne_nil (by decide)]
    simp [TokenStream.statement, Parse.isSeparator, Parse.statementHere, Parse.topLevel,
      Parse.expression, Parse.primary, Parse.climb, Parse.operand, TokenStream.outcome, Reading.map,
      Reading.weaken, Operator.ofMark?, Operator.all, Operator.mark, ParseError.ofLexeme]
    rw [TokenStream.program_of_skipped_ne_nil (by decide)]
    simp [TokenStream.statement, Parse.isSeparator, Parse.statementHere, Parse.topLevel,
      Parse.expression, Parse.primary, Parse.climb, Parse.arguments, TokenStream.outcome,
      Reading.map, Reading.weaken, Span.cover]
    rw [TokenStream.program_of_skipped_ne_nil (by decide)]
    simp [TokenStream.statement, Parse.isSeparator, Parse.statementHere, Parse.topLevel,
      Parse.expression, Parse.primary, Parse.climb, Parse.arguments, TokenStream.outcome,
      Reading.map, Reading.weaken, Span.cover]
    exact TokenStream.program_of_skipped_nil rfl
  intro h
  have hmem := h "x +" "def f() f()" _ ⟨_, hmalformed ▸ List.mem_singleton_self _⟩
    declares_recursion
  rw [hprogram] at hmem
  simp [Statement.shift] at hmem

end ScalarLang
