import ScalarLang.Proofs.Grammar.Places
import ScalarLang.Proofs.Session.Safety
import ScalarLang.Session.Interpreter

/-!
# Diagnostics account for failures

Every failure of a parsed statement comes with one diagnostic, and nothing else does. Its stage
says what the statement failed at: an unknown token, another token, emission or its run
(`Session.Verdict`). Prototypes of earlier sources are emitted again on demand, but no check is
made at the place of another statement (`TreeSession.span_mem_places`), so the span of a
diagnostic is one of the source that is being run (`Session.diagnostics_account`). An interpreter
whose diagnostics are taken after every source hands over those of the last one.
-/

namespace ScalarLang

/-! ### Where a check is made -/

theorem bind_eq_error_iff {α β ε : Type} {x : Except ε α} {f : α → Except ε β} {error : ε} :
    x >>= f = .error error ↔
      x = .error error ∨ ∃ value, x = .ok value ∧ f value = .error error := by
  cases x <;> simp [bind, Except.bind]

mutual

/-- Every node of an expression is visited once. -/
theorem Expr.visits_perm_nodes (e : Expr) : e.visits.Perm e.nodes := by
  cases e with
  | number value span | var name span => exact .refl _
  | binary op lhs rhs span =>
      rw [visits, nodes, ← List.append_assoc]
      refine (List.perm_append_singleton _ _).trans (.cons _ ?_)
      exact lhs.visits_perm_nodes.append rhs.visits_perm_nodes
  | call callee args span => exact (Expr.visitsAll_perm_nodesAll args).cons _
  termination_by structural e

theorem Expr.visitsAll_perm_nodesAll (es : List Expr) :
    (Expr.visitsAll es).Perm (Expr.nodesAll es) := by
  cases es with
  | nil => exact .nil
  | cons e es => exact e.visits_perm_nodes.append (Expr.visitsAll_perm_nodesAll es)
  termination_by structural es

end

section Check

variable {arity? : String → Option Nat} {params : List String} {error : EmissionError}

/-- An expression is refused at one of its nodes. -/
theorem Expr.exists_node_of_check {e : Expr} (h : e.check arity? params = .error error) :
    ∃ node ∈ e.nodes, error.span? = some node.span := by
  obtain ⟨before, node, after, hvisits, hrefusal, -⟩ := check_eq_error_iff.1 h
  refine ⟨node, e.visits_perm_nodes.mem_iff.1 ?_, (of_refusal? hrefusal).2⟩
  rw [hvisits]
  exact List.mem_append_right before List.mem_cons_self

/-- The body of a definition is refused at one of its nodes, or with no place at all. -/
theorem Definition.span_of_checkBody {d : Definition} (h : d.checkBody arity? = .error error) :
    ∀ span ∈ error.span?, span ∈ d.body.nodes.map Expr.span := by
  intro span hspan
  rw [checkBody, bind_eq_error_iff] at h
  obtain hbody | ⟨_, -, hclashes⟩ := h
  · obtain ⟨node, hnode, hplace⟩ := Expr.exists_node_of_check hbody
    rw [hplace] at hspan
    cases hspan
    exact List.mem_map_of_mem hnode
  · split at hclashes
    · cases hclashes
    · cases hclashes
      cases hspan

end Check

namespace TreeSession

variable {t : TreeSession} {q : Prototype} {error : EmissionError}

theorem span_of_checkArity (h : t.checkArity q = .error error) : error.span? = some q.span := by
  rw [checkArity] at h
  repeat' split at h
  all_goals
    cases h
    try rfl

theorem span_of_checkName (h : t.checkName q = .error error) : error.span? = some q.span := by
  rw [checkName] at h
  split at h
  · cases h
    rfl
  · split at h
    · cases h
      rfl
    · exact span_of_checkArity h

theorem span_of_checkExternal (h : t.checkExternal q = .error error) :
    error.span? = some q.span := by
  rw [checkExternal] at h
  split at h
  · cases h
    rfl
  · exact span_of_checkArity h

/-- A definition is refused at its prototype, at a node of its body, or with no place at all. -/
theorem span_of_check {d : Definition} (h : t.check d = .error error) :
    ∀ span ∈ error.span?, span ∈ d.prototype.span :: d.body.nodes.map Expr.span := by
  intro span hspan
  rw [check, bind_eq_error_iff] at h
  obtain hname | ⟨_, -, hbody⟩ := h
  · rw [span_of_checkName hname] at hspan
    cases hspan
    exact List.mem_cons_self
  · exact List.mem_cons_of_mem _ (Definition.span_of_checkBody hbody span hspan)

/-- The diagnostic of a statement has a place of that statement, if it has one. -/
theorem span_mem_places (t : TreeSession) (statement : Statement) :
    ∀ d ∈ (t.handle statement).1.diagnostic, ∀ span ∈ d.span, span ∈ statement.places := by
  intro diagnostic hdiagnostic span hspan
  cases statement with
  | definition d =>
      rw [handle] at hdiagnostic
      cases hcheck : t.check d with
      | ok _ =>
          rw [hcheck] at hdiagnostic
          cases hdiagnostic
      | error error =>
          rw [hcheck] at hdiagnostic
          cases hdiagnostic
          exact span_of_check hcheck span hspan
  | external q =>
      rw [handle] at hdiagnostic
      cases hcheck : t.checkExternal q with
      | ok _ =>
          rw [hcheck] at hdiagnostic
          cases hdiagnostic
      | error error =>
          rw [hcheck] at hdiagnostic
          cases hdiagnostic
          have hplace : error.span? = some span := hspan
          rw [span_of_checkExternal hcheck] at hplace
          exact List.mem_singleton.2 (Option.some.inj hplace).symm
  | topLevel d =>
      rw [handle] at hdiagnostic
      cases hcheck : t.check d with
      | error error =>
          rw [hcheck] at hdiagnostic
          cases hdiagnostic
          exact span_of_check hcheck span hspan
      | ok _ =>
          rw [hcheck] at hdiagnostic
          dsimp only [Run.answer] at hdiagnostic
          cases hresult : (t.run d).result with
          | ok value =>
              rw [hresult] at hdiagnostic
              cases hdiagnostic
          | error error =>
              rw [hresult] at hdiagnostic
              cases hdiagnostic
              cases hspan
              have hbody : (Statement.topLevel d).expression? = some d.body := rfl
              exact Statement.span_mem_places hbody
  | malformed error =>
      cases hdiagnostic
      cases hspan
      exact List.mem_singleton_self _
  | endOfInput => cases hdiagnostic

end TreeSession

/-! ### What a statement failed at -/

/-- The error of a failure. -/
def failure? {α : Type} : Except EmissionError α → Option EmissionError
  | .ok _ => none
  | .error error => some error

/-- The stage of the diagnostic. -/
def Answer.stage? (a : Answer) : Option Stage := a.diagnostic.map Diagnostic.stage

namespace Session

/-- The error for which no code is emitted for a statement. -/
def emissionError? (s : Session) : Statement → Option EmissionError
  | .definition d => failure? (s.define d).1
  | .external p => failure? (s.declare p).1
  | .topLevel d => failure? (s.emitTopLevel d).1
  | .malformed _ | .endOfInput => none

/-- What the answer to a statement holds: a diagnostic with the failure, of which there is at most
one, or none of them. -/
inductive Verdict (s : Session) (statement : Statement) (a : Answer) : Prop
  | malformed (error : ParseError) : statement = .malformed error → a.outcome = .failed →
      a.diagnostic = some (.ofParseError error) → Verdict s statement a
  | emission (error : EmissionError) : s.emissionError? statement = some error →
      s.runError? statement = none → a.outcome = .failed →
      a.diagnostic = some (.ofEmissionError error) → Verdict s statement a
  | run (error : ExecutionError) (span : Span) : s.emissionError? statement = none →
      s.runError? statement = some error → a.outcome = .failed →
      a.diagnostic = some (.ofExecutionError error span) → Verdict s statement a
  | success : (∀ error, statement ≠ .malformed error) → s.emissionError? statement = none →
      s.runError? statement = none → a.outcome.isFailed = false →
      a.diagnostic = none → Verdict s statement a

theorem verdict_definition (s : Session) (d : Definition) :
    s.Verdict (.definition d) (s.handle (.definition d)).1 := by
  have herror : s.emissionError? (.definition d) = failure? (s.define d).1 := rfl
  rw [handle, handleDefinition]
  rcases hdefine : s.define d with ⟨error | signature, s'⟩
  · rw [hdefine] at herror
    exact .emission error herror rfl rfl rfl
  · rw [hdefine] at herror
    exact .success (fun _ => Statement.noConfusion) herror rfl rfl rfl

theorem verdict_external (s : Session) (p : Prototype) :
    s.Verdict (.external p) (s.handle (.external p)).1 := by
  have herror : s.emissionError? (.external p) = failure? (s.declare p).1 := rfl
  rw [handle, handleExternal]
  rcases hdeclare : s.declare p with ⟨error | signature, s'⟩
  · rw [hdeclare] at herror
    exact .emission error herror rfl rfl rfl
  · rw [hdeclare] at herror
    exact .success (fun _ => Statement.noConfusion) herror rfl rfl rfl

theorem verdict_topLevel (s : Session) (d : Definition) :
    s.Verdict (.topLevel d) (s.handle (.topLevel d)).1 := by
  have herror : s.emissionError? (.topLevel d) = failure? (s.emitTopLevel d).1 := rfl
  rw [handle, handleTopLevel]
  rcases hemit : s.emitTopLevel d with ⟨error | signature, emitted⟩
  · rw [hemit] at herror
    refine .emission error herror ?_ rfl rfl
    rw [runError?, hemit]
  · rw [hemit] at herror
    dsimp only
    cases hresult : (emitted.runTopLevel d.prototype.name).1.result with
    | ok value =>
        refine .success (fun _ => Statement.noConfusion) herror ?_ rfl rfl
        simp only [runError?, hemit, hresult]
    | error error =>
        refine .run error _ herror ?_ rfl rfl
        simp only [runError?, hemit, hresult]

/-- The end of input is the only statement without a verdict. -/
theorem verdict_handle (s : Session) {statement : Statement} (h : statement ≠ .endOfInput) :
    s.Verdict statement (s.handle statement).1 := by
  cases statement with
  | definition d => exact s.verdict_definition d
  | external p => exact s.verdict_external p
  | topLevel d => exact s.verdict_topLevel d
  | malformed error => exact .malformed error rfl rfl rfl
  | endOfInput => exact absurd rfl h

end Session

/-- The answer to a statement of the source accounts for its failure: there is a diagnostic exactly
when it failed, with the stage at which it did and a place of the statement. -/
structure Answer.Accounts (a : Answer) (s : Session) (source : String) (statement : Statement) :
    Prop where
  failed : a.outcome.isFailed = a.diagnostic.isSome
  tokenize : a.stage? = some .tokenize ↔ ∃ found ∈ ScalarLang.tokenize source,
    (∃ text, found.token = .unknown text) ∧ statement.FailsAt found
  parse : a.stage? = some .parse ↔ ∃ found ∈ ScalarLang.tokenize source,
    (∀ text, found.token ≠ .unknown text) ∧ statement.FailsAt found
  emit : a.stage? = some .emit ↔ (s.emissionError? statement).isSome
  execute : a.stage? = some .execute ↔ (s.runError? statement).isSome
  not_internal : a.stage? ≠ some .internal
  places : ∀ d ∈ a.diagnostic, ∀ span ∈ d.span, span ∈ statement.places ∧ span.IsIn source

namespace Statement.FailsAt

variable {error : ParseError} {found : Lexeme}

theorem stage_eq_tokenize (h : (malformed error).FailsAt found) {text : String}
    (htoken : found.token = .unknown text) :
    (Diagnostic.ofParseError error).stage = .tokenize := by
  obtain ⟨expected, heq⟩ := h
  rw [malformed.inj heq, ParseError.ofLexeme, htoken]
  rfl

theorem stage_eq_parse (h : (malformed error).FailsAt found)
    (htoken : ∀ text, found.token ≠ .unknown text) :
    (Diagnostic.ofParseError error).stage = .parse := by
  obtain ⟨expected, heq⟩ := h
  rw [malformed.inj heq, ParseError.ofLexeme]
  split
  next text htext => exact absurd htext (htoken text)
  · rfl

end Statement.FailsAt

theorem ExecutionError.OfProgram.stage_eq {limit : Nat} {error : ExecutionError}
    (h : error.OfProgram limit) (span : Span) :
    (Diagnostic.ofExecutionError error span).stage = .execute := by
  cases h <;> rfl

namespace Session.Verdict

variable {s : Session} {source : String} {statement : Statement} {a : Answer}

theorem isFailed_eq (h : s.Verdict statement a) : a.outcome.isFailed = a.diagnostic.isSome := by
  cases h with
  | malformed error _ houtcome hdiagnostic | emission error _ _ houtcome hdiagnostic
  | run error span _ _ houtcome hdiagnostic =>
      rw [houtcome, hdiagnostic]
      rfl
  | success _ _ _ houtcome hdiagnostic =>
      rw [houtcome, hdiagnostic]
      rfl

/-- Only an error of the parser is at a token. -/
theorem not_failsAt (h : ∀ error, statement ≠ .malformed error) (found : Lexeme) :
    ¬ statement.FailsAt found := fun ⟨_, heq⟩ => h _ heq

theorem accounts (h : s.Verdict statement a) (hmem : statement ∈ parseProgram source) {limit : Nat}
    (herrors : ∀ error ∈ s.runError? statement, error.OfProgram limit)
    (hplaces : ∀ d ∈ a.diagnostic, ∀ span ∈ d.span, span ∈ statement.places) :
    a.Accounts s source statement := by
  have hinside : ∀ d ∈ a.diagnostic, ∀ span ∈ d.span,
      span ∈ statement.places ∧ span.IsIn source := by
    intro d hd span hspan
    obtain ⟨text, hcuts⟩ := Statement.exists_cuts hmem span (hplaces d hd span hspan)
    exact ⟨hplaces d hd span hspan, hcuts.isIn⟩
  have hfailed := h.isFailed_eq
  cases h with
  | malformed error hstatement houtcome hdiagnostic =>
      subst hstatement
      obtain ⟨found, hfound, hfails⟩ := Statement.exists_failsAt hmem
      have hstage : a.stage? = some (Diagnostic.ofParseError error).stage := by
        rw [Answer.stage?, hdiagnostic, Option.map_some]
      refine ⟨hfailed, ?_, ?_, ?_, ?_, ?_, hinside⟩
      · rw [hstage, Option.some.injEq]
        refine ⟨fun h => ⟨found, hfound, ?_, hfails⟩, ?_⟩
        · by_contra hknown
          rw [hfails.stage_eq_parse (not_exists.1 hknown)] at h
          cases h
        · rintro ⟨found', -, ⟨text, htext⟩, hfails'⟩
          exact hfails'.stage_eq_tokenize htext
      · rw [hstage, Option.some.injEq]
        refine ⟨fun h => ⟨found, hfound, fun text htext => ?_, hfails⟩, ?_⟩
        · rw [hfails.stage_eq_tokenize htext] at h
          cases h
        · rintro ⟨found', -, hknown, hfails'⟩
          exact hfails'.stage_eq_parse hknown
      all_goals
        rw [hstage]
        cases error <;> simp [Diagnostic.ofParseError, emissionError?, runError?]
  | emission error hemission hrun houtcome hdiagnostic =>
      have hwell : ∀ error, statement ≠ .malformed error := by
        rintro error rfl
        cases hemission
      have hstage : a.stage? = some .emit := by
        rw [Answer.stage?, hdiagnostic]
        rfl
      refine ⟨hfailed, ?_, ?_, ?_, ?_, ?_, hinside⟩ <;>
        simp [hstage, hemission, hrun, not_failsAt hwell]
  | run error span hemission hrun houtcome hdiagnostic =>
      have hwell : ∀ error, statement ≠ .malformed error := by
        rintro error rfl
        cases hrun
      have hstage : a.stage? = some .execute := by
        rw [Answer.stage?, hdiagnostic, Option.map_some, (herrors error hrun).stage_eq]
      refine ⟨hfailed, ?_, ?_, ?_, ?_, ?_, hinside⟩ <;>
        simp [hstage, hemission, hrun, not_failsAt hwell]
  | success hwell hemission hrun houtcome hdiagnostic =>
      have hstage : a.stage? = none := by
        rw [Answer.stage?, hdiagnostic, Option.map_none]
      refine ⟨hfailed, ?_, ?_, ?_, ?_, ?_, hinside⟩ <;>
        simp [hstage, hemission, hrun, not_failsAt hwell]

end Session.Verdict

/-- A parsed statement is not the end of input. -/
theorem Statement.ne_endOfInput_of_mem {source : String} {statement : Statement}
    (h : statement ∈ parseProgram source) : statement ≠ .endOfInput := by
  rintro rfl
  obtain ⟨tokens, rest, -, hread⟩ | ⟨error, herror⟩ := TokenStream.exists_suffix_of_mem_program h
  · exact (Parse.ne_of_statementHere hread).1 rfl
  · cases herror

namespace Session

theorem Realizes.accounts {s : Session} {settings : Settings} {t : TreeSession}
    (h : s.Realizes settings t) {source : String} {statement : Statement}
    (hmem : statement ∈ parseProgram source) :
    (s.handle statement).1.Accounts s source statement := by
  have hnamed := named_of_mem_parseProgram source statement hmem
  have hverdict := s.verdict_handle (Statement.ne_endOfInput_of_mem hmem)
  have hplaces : ∀ d ∈ (s.handle statement).1.bare.diagnostic, ∀ span ∈ d.span,
      span ∈ statement.places := by
    rw [(h.handle hnamed).1]
    exact t.span_mem_places statement
  exact hverdict.accounts hmem (h.ofProgram_runError? statement) hplaces

theorem length_handleAll (s : Session) (statements : List Statement) :
    (s.handleAll statements).1.length = statements.length := by
  induction statements generalizing s with
  | nil => rfl
  | cons statement statements ih => simp [handleAll_cons, ih]

/-- A diagnostic is there exactly when the statement failed. -/
theorem isFailed_handleAll (s : Session) {statements : List Statement}
    (h : ∀ statement ∈ statements, statement ≠ .endOfInput) :
    ∀ a ∈ (s.handleAll statements).1, a.outcome.isFailed = a.diagnostic.isSome := by
  induction statements generalizing s with
  | nil => exact List.forall_mem_nil _
  | cons statement statements ih =>
      obtain ⟨hfirst, hlater⟩ := List.forall_mem_cons.1 h
      rw [handleAll_cons, List.forall_mem_cons]
      exact ⟨(s.verdict_handle hfirst).isFailed_eq, ih _ hlater⟩

/-- A success has no diagnostic, and neither has the end of input. -/
theorem diagnostic_handle_eq_none {s : Session} {statement : Statement}
    (h : (s.handle statement).1.outcome.isFailed = false) :
    (s.handle statement).1.diagnostic = none := by
  by_cases hend : statement = .endOfInput
  · rw [hend]
    rfl
  · rwa [(s.verdict_handle hend).isFailed_eq, Option.isSome_eq_false_iff,
      Option.isNone_iff_eq_none] at h

/-- Every answer to a parsed program accounts for its statement, in the state in front of it. -/
theorem Realizes.accounts_of_split {s : Session} {settings : Settings} {t : TreeSession}
    (h : s.Realizes settings t) {source : String} {before after : List Statement}
    {statement : Statement} (hsplit : parseProgram source = before ++ statement :: after) :
    (s.runSource source).1[before.length]? =
        some (((s.handleAll before).2.handle statement).1) ∧
      ((s.handleAll before).2.handle statement).1.Accounts (s.handleAll before).2 source
        statement := by
  have hmem (other : Statement) (hother : other ∈ before ++ statement :: after) :
      other ∈ parseProgram source := hsplit ▸ hother
  have hnamed : ∀ other ∈ before, other.Named := fun other hother =>
    named_of_mem_parseProgram source other (hmem other (List.mem_append_left _ hother))
  refine ⟨?_, (h.handleAll hnamed).2.accounts (hmem statement (by simp))⟩
  rw [runSource, hsplit, handleAll_append, handleAll_cons, ← s.length_handleAll before,
    List.getElem?_append_right (Nat.le_refl _), Nat.sub_self]
  rfl

end Session

/-- The diagnostics of answers are those of the failures among them. -/
theorem Answer.map_diagnostic_filter {answers : List Answer}
    (h : ∀ a ∈ answers, a.outcome.isFailed = a.diagnostic.isSome) :
    (answers.filter (·.outcome.isFailed)).map Answer.diagnostic =
      (answers.filterMap Answer.diagnostic).map some := by
  induction answers with
  | nil => rfl
  | cons a answers ih =>
      obtain ⟨hfirst, hlater⟩ := List.forall_mem_cons.1 h
      cases hdiagnostic : a.diagnostic with
      | none =>
          rw [hdiagnostic] at hfirst
          rw [List.filter_cons_of_neg (by simp [hfirst]), List.filterMap_cons_none hdiagnostic,
            ih hlater]
      | some d =>
          rw [hdiagnostic] at hfirst
          rw [List.filter_cons_of_pos (by simp [hfirst]), List.filterMap_cons_some hdiagnostic,
            List.map_cons, List.map_cons, ih hlater, hdiagnostic]

namespace Interpreter

/-- Handles every statement of a source, and takes the diagnostics. -/
def runSource (i : Interpreter) (source : String) : (List Response × Diagnostics) × Interpreter :=
  let (responses, i) := i.runToEnd source
  let (diagnostics, i) := i.takeDiagnostics
  ((responses, diagnostics), i)

/-- Runs sources one after the other, and takes the diagnostics after each of them. -/
def runSources (i : Interpreter) : List String → List (List Response × Diagnostics) × Interpreter
  | [] => ([], i)
  | source :: sources =>
    let (handled, i) := i.runSource source
    let (later, i) := i.runSources sources
    (handled :: later, i)

/-- The diagnostics that are taken after a source are those of its answers. -/
theorem runSource_ofSession (s : Session) (source : String) :
    (ofSession s).runSource source =
      (((s.runSource source).1.map Answer.response,
          ⟨(s.runSource source).1.filterMap Answer.diagnostic⟩),
        .ofSession (s.runSource source).2) := by
  rw [runSource, runToEnd, handleAll_eq]
  rfl

theorem runSources_ofSession (s : Session) (sources : List String) :
    ((ofSession s).runSources sources).2 = .ofSession (s.runSources sources).2 := by
  induction sources generalizing s with
  | nil => rfl
  | cons source sources ih => rw [runSources, runSource_ofSession, Session.runSources, ← ih]

/-- No diagnostics are there after a source exactly when no statement of it failed. -/
theorem isEmpty_diagnostics_runToEnd (s : Session) (source : String) :
    ((ofSession s).runToEnd source).2.diagnostics.isEmpty = true ↔
      ∀ response ∈ ((ofSession s).runToEnd source).1, response.outcome.isFailed = false := by
  have hne : ∀ statement ∈ parseProgram source, statement ≠ .endOfInput :=
    fun _ => Statement.ne_endOfInput_of_mem
  rw [runToEnd, handleAll_eq, ofSession, Diagnostics.isEmpty, Diagnostics.items_empty,
    List.nil_append, List.isEmpty_iff, List.filterMap_eq_nil_iff, List.forall_mem_map]
  refine forall₂_congr fun a ha => ?_
  rw [Answer.response, s.isFailed_handleAll hne a ha, Option.isSome_eq_false_iff,
    Option.isNone_iff_eq_none]

end Interpreter

/-- Whatever an interpreter ran before, the diagnostics that are taken after a source are those of
its failures, in order. Each accounts for its statement, and its span is a place of that statement
in the source. -/
theorem Session.diagnostics_account (settings : Settings) (limit : Nat) (earlier : List String)
    (source : String) :
    let s := ((Session.new settings limit).runSources earlier).2
    let answers := (s.runSource source).1
    let i := ((Interpreter.new settings limit).runSources earlier).2
    let responses := (i.runSource source).1.1
    let taken := (i.runSource source).1.2
    i = .ofSession s ∧
      responses = answers.map Answer.response ∧
      taken.items = answers.filterMap Answer.diagnostic ∧
      taken.items.length = responses.countP (·.outcome.isFailed) ∧
      (answers.filterMap Answer.diagnostic).length = answers.countP (·.outcome.isFailed) ∧
      (answers.filter (·.outcome.isFailed)).map Answer.diagnostic =
        (answers.filterMap Answer.diagnostic).map some ∧
      ∀ before statement after, parseProgram source = before ++ statement :: after →
        let reached := (s.handleAll before).2
        let answer := (reached.handle statement).1
        answers[before.length]? = some answer ∧ answer.Accounts reached source statement := by
  intro s answers i responses taken
  obtain ⟨t, hrealizes⟩ := exists_realizes settings limit earlier
  have hne : ∀ statement ∈ parseProgram source, statement ≠ .endOfInput :=
    fun _ => Statement.ne_endOfInput_of_mem
  have hdiagnostics := Answer.map_diagnostic_filter (s.isFailed_handleAll hne)
  have hcount : (answers.filterMap Answer.diagnostic).length =
      answers.countP (·.outcome.isFailed) := by
    have hlength := congrArg List.length hdiagnostics
    rw [List.length_map, List.length_map, ← List.countP_eq_length_filter] at hlength
    exact hlength.symm
  have hreached : i = .ofSession s := Interpreter.runSources_ofSession _ earlier
  have hsource := hreached ▸ Interpreter.runSource_ofSession s source
  have hresponses : responses = answers.map Answer.response := congrArg (·.1.1) hsource
  have htaken : taken.items = answers.filterMap Answer.diagnostic := congrArg (·.1.2.items) hsource
  refine ⟨hreached, hresponses, htaken, ?_, hcount, hdiagnostics,
    fun before statement after => hrealizes.accounts_of_split⟩
  rw [hresponses, htaken, hcount, List.countP_map]
  rfl

/-- The declaration is of an earlier source; what is refused is at the call in this one. -/
theorem Session.diagnostics_account_arity :
    let s := ((Session.new .standard 3).runSources ["extern f(x)"]).2
    let statement := Statement.topLevel (.anonymous (.call "f" [] ⟨0, 3⟩))
    let answer := (s.handle statement).1
    parseProgram "f()" = [] ++ statement :: [] ∧
      answer.diagnostic = some (.ofEmissionError (.arityMismatch "f" 1 0 ⟨0, 3⟩)) ∧
      answer.Accounts s "f()" statement := by
  intro s statement answer
  have hlexemes : Scanner.lexemes "f()".toList =
      [⟨.identifier "f", ⟨0, 1⟩⟩, ⟨.punctuator .openParen, ⟨1, 2⟩⟩,
        ⟨.punctuator .closeParen, ⟨2, 3⟩⟩] := by decide +kernel
  have hearlier : Scanner.lexemes "extern f(x)".toList =
      [⟨.keyword .external, ⟨0, 6⟩⟩, ⟨.identifier "f", ⟨7, 8⟩⟩, ⟨.punctuator .openParen, ⟨8, 9⟩⟩,
        ⟨.identifier "x", ⟨9, 10⟩⟩, ⟨.punctuator .closeParen, ⟨10, 11⟩⟩] := by decide +kernel
  have hprogram : parseProgram "f()" = [] ++ statement :: [] := by
    rw [parseProgram, TokenStream.ofSource, hlexemes,
      TokenStream.program_of_skipped_ne_nil (by decide)]
    simp [TokenStream.statement, Parse.isSeparator, Parse.statementHere, Parse.topLevel,
      Parse.expression, Parse.primary, Parse.climb, Parse.arguments, TokenStream.outcome,
      Reading.map, Reading.weaken, Span.cover, statement]
    exact TokenStream.program_of_skipped_nil rfl
  have hs : s = ((Session.new .standard 3).handleAll [.external ⟨"f", ["x"], ⟨7, 11⟩⟩]).2 := by
    have hexternal : parseProgram "extern f(x)" = [.external ⟨"f", ["x"], ⟨7, 11⟩⟩] := by
      rw [parseProgram, TokenStream.ofSource, hearlier,
        TokenStream.program_of_skipped_ne_nil (by decide)]
      simp [TokenStream.statement, Parse.isSeparator, Parse.statementHere, Parse.external,
        Parse.prototype, Parse.parameters, Parse.parameterList, TokenStream.outcome, Reading.map,
        Reading.weaken, Span.cover]
      exact TokenStream.program_of_skipped_nil rfl
    rw [← hexternal]
    rfl
  obtain ⟨-, -, -, -, -, -, haccounts⟩ := diagnostics_account .standard 3 ["extern f(x)"] "f()"
  refine ⟨hprogram, ?_, (haccounts [] statement [] hprogram).2⟩
  simp only [answer, hs]
  decide

end ScalarLang
