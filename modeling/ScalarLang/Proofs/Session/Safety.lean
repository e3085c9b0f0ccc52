import ScalarLang.Proofs.Evaluation.Safety
import ScalarLang.Proofs.Session.Compilation

/-!
# No source text leads to an internal error

Whatever texts a session runs one after the other, a run of one of their expressions
fails only for a reason of the program (`Session.runErrors_runSources`): its entry is
there, and its code reads nothing that is undefined. So no diagnostic is that of an
internal error.
-/

namespace ScalarLang

namespace Session

/-- The error that the run of an expression at the top level ends with. -/
def runError? (s : Session) : Statement → Option ExecutionError
  | .topLevel d =>
    match s.emitTopLevel d with
    | (.error _, _) => none
    | (.ok _, emitted) =>
      match (emitted.runTopLevel d.prototype.name).1.result with
      | .ok _ => none
      | .error error => some error
  | .definition _ | .external _ | .malformed _ | .endOfInput => none

/-- The errors that the runs of statements end with, in order. -/
def runErrors (s : Session) : List Statement → List ExecutionError
  | [] => []
  | statement :: statements =>
    (s.runError? statement).toList ++ (s.handle statement).2.runErrors statements

/-- Runs source texts one after the other. -/
def runSources (s : Session) : List String → List Answer × Session
  | [] => ([], s)
  | source :: sources =>
    ((s.runSource source).1 ++ ((s.runSource source).2.runSources sources).1,
      ((s.runSource source).2.runSources sources).2)

/-- Texts are handled as their statements are. -/
theorem runSources_eq_handleAll (s : Session) (sources : List String) :
    s.runSources sources = s.handleAll (sources.flatMap parseProgram) := by
  induction sources generalizing s with
  | nil => rfl
  | cons source sources ih =>
      rw [runSources, ih, List.flatMap_cons, handleAll_append]
      rfl

/-- Where a diagnostic comes from: the parser, emission, or the error of a run. -/
inductive Explains (s : Session) (statement : Statement) : Diagnostic → Prop
  | parse (error : ParseError) : Explains s statement (.ofParseError error)
  | emission (error : EmissionError) : Explains s statement (.ofEmissionError error)
  | run (error : ExecutionError) (span : Span) : error ∈ s.runError? statement →
      Explains s statement (.ofExecutionError error span)

theorem explains_handle (s : Session) (statement : Statement) :
    ∀ diagnostic ∈ (s.handle statement).1.diagnostic, s.Explains statement diagnostic := by
  intro diagnostic hdiagnostic
  cases statement with
  | definition d =>
      rw [handle, handleDefinition] at hdiagnostic
      split at hdiagnostic
      · cases hdiagnostic
      · cases hdiagnostic
        exact .emission _
  | external p =>
      rw [handle, handleExternal] at hdiagnostic
      split at hdiagnostic
      · cases hdiagnostic
      · cases hdiagnostic
        exact .emission _
  | topLevel d =>
      rw [handle, handleTopLevel] at hdiagnostic
      rcases hemit : s.emitTopLevel d with ⟨error | signature, emitted⟩
      · rw [hemit] at hdiagnostic
        cases hdiagnostic
        exact .emission error
      · rw [hemit] at hdiagnostic
        dsimp only at hdiagnostic
        cases hresult : (emitted.runTopLevel d.prototype.name).1.result with
        | ok value =>
            rw [hresult] at hdiagnostic
            cases hdiagnostic
        | error error =>
            rw [hresult] at hdiagnostic
            cases hdiagnostic
            refine .run error _ ?_
            rw [runError?, hemit]
            dsimp only
            rw [hresult]
            rfl
  | malformed error =>
      cases hdiagnostic
      exact .parse error
  | endOfInput => cases hdiagnostic

end Session

/-- The diagnostic is not that of an internal error, and that of a run is for a reason of the
program. -/
structure Diagnostic.Safe (limit : Nat) (diagnostic : Diagnostic) : Prop where
  not_internal : diagnostic.stage ≠ .internal
  of_execute : diagnostic.stage = .execute → ∃ error span,
    ExecutionError.OfProgram limit error ∧ diagnostic = .ofExecutionError error span

theorem ExecutionError.OfProgram.safe {limit : Nat} {error : ExecutionError}
    (h : error.OfProgram limit) (span : Span) :
    (Diagnostic.ofExecutionError error span).Safe limit where
  not_internal := by cases h <;> nofun
  of_execute _ := ⟨error, span, h, rfl⟩

theorem Session.Explains.safe {s : Session} {statement : Statement} {limit : Nat}
    (herrors : ∀ error ∈ s.runError? statement, error.OfProgram limit) {diagnostic : Diagnostic}
    (h : s.Explains statement diagnostic) : diagnostic.Safe limit := by
  cases h with
  | parse error => cases error <;> exact ⟨nofun, nofun⟩
  | emission error => exact ⟨nofun, nofun⟩
  | run error span hmem => exact (herrors error hmem).safe span

theorem TreeSession.limit_handle (t : TreeSession) (statement : Statement) :
    (t.handle statement).2.limit = t.limit := by
  rw [handle_snd]
  split
  · cases statement <;> rfl
  · rfl

namespace TreeSession.Sound

variable {t : TreeSession}

/-- The run of a checked definition has no faults. -/
theorem ofProgram_run (h : t.Sound) {d : Definition} (hd : d.Checked) {error : ExecutionError}
    (hrun : (t.run d).result = .error error) : error.OfProgram t.limit := by
  have hopened : ∀ d' ∈ d :: t.opened, Definition.Checked d' :=
    List.forall_mem_cons.2 ⟨hd, h.checked _ List.mem_cons_self⟩
  have hunits : ∀ unit ∈ (d :: t.opened) :: t.sealed, ∀ d' ∈ unit, Definition.Checked d' :=
    List.forall_mem_cons.2 ⟨hopened, fun unit hunit =>
      h.checked unit (List.mem_cons_of_mem _ hunit)⟩
  exact (Units.failsOnly_evaluate hunits t.limit t.limit hopened hd []).toRun hrun

end TreeSession.Sound

namespace Session.Realizes

variable {s : Session} {settings : Settings} {t : TreeSession}

theorem ofProgram_runError? (h : s.Realizes settings t) (statement : Statement) :
    ∀ error ∈ s.runError? statement, error.OfProgram t.limit := by
  intro error herror
  cases statement with
  | topLevel d =>
      have hok := h.isOk_emitTopLevel d
      rw [runError?] at herror
      rcases hemit : s.emitTopLevel d with ⟨error' | signature, emitted⟩
      · rw [hemit] at herror
        cases herror
      · rw [hemit] at herror hok
        dsimp only at herror
        rw [h.run_emitted hemit] at herror
        cases hcheck : t.check d with
        | error error' =>
            rw [hcheck] at hok
            cases hok
        | ok _ =>
            cases hresult : (t.run d).result with
            | ok value =>
                rw [hresult] at herror
                cases herror
            | error error' =>
                rw [hresult] at herror
                cases herror
                exact h.sound.ofProgram_run ⟨_, (TreeSession.check_eq_ok hcheck).2⟩ hresult
  | definition | external | malformed | endOfInput => cases herror

theorem ofProgram_handleAll (h : s.Realizes settings t) {statements : List Statement}
    (hnamed : ∀ statement ∈ statements, statement.Named) :
    (∀ error ∈ s.runErrors statements, error.OfProgram t.limit) ∧
      ∀ answer ∈ (s.handleAll statements).1, ∀ diagnostic ∈ answer.diagnostic,
        diagnostic.Safe t.limit := by
  induction statements generalizing s t with
  | nil => exact ⟨List.forall_mem_nil _, List.forall_mem_nil _⟩
  | cons statement statements ih =>
      obtain ⟨hfirst, hlater⟩ := List.forall_mem_cons.1 hnamed
      have herrors := h.ofProgram_runError? statement
      obtain ⟨herrors', hanswers⟩ := ih (h.handle hfirst).2 hlater
      rw [t.limit_handle] at herrors' hanswers
      rw [runErrors, handleAll_cons, List.forall_mem_append, List.forall_mem_cons]
      refine ⟨⟨fun error hmem => herrors error (Option.mem_toList.1 hmem), herrors'⟩, ?_, hanswers⟩
      exact fun diagnostic hmem => (s.explains_handle statement diagnostic hmem).safe herrors

end Session.Realizes

theorem named_of_mem_parseProgram (source : String) :
    ∀ statement ∈ parseProgram source, statement.Named :=
  fun _ hmem => Statement.Parsed.named (.inr ⟨source, hmem⟩)

/-- The session behind any source texts realizes a session on trees. -/
theorem Session.exists_realizes (settings : Settings) (limit : Nat) (sources : List String) :
    ∃ t, ((Session.new settings limit).runSources sources).2.Realizes settings t := by
  have hnamed : ∀ statement ∈ sources.flatMap parseProgram, statement.Named := by
    intro statement hmem
    obtain ⟨source, -, hmem⟩ := List.mem_flatMap.1 hmem
    exact named_of_mem_parseProgram source statement hmem
  rw [runSources_eq_handleAll]
  exact ⟨_, ((Session.Realizes.new settings limit).handleAll hnamed).2⟩

/-- Running source texts fails only for reasons of the program. No diagnostic is that of an internal
error, and every diagnostic of a run tells of such a failure. -/
theorem Session.runErrors_runSources (settings : Settings) (limit : Nat) (sources : List String) :
    (∀ error ∈ (Session.new settings limit).runErrors (sources.flatMap parseProgram),
      error.OfProgram limit) ∧
    ∀ answer ∈ ((Session.new settings limit).runSources sources).1,
      ∀ diagnostic ∈ answer.diagnostic, diagnostic.stage ≠ .internal ∧
        (diagnostic.stage = .execute → ∃ error span,
          ExecutionError.OfProgram limit error ∧ diagnostic = .ofExecutionError error span) := by
  have hnamed : ∀ statement ∈ sources.flatMap parseProgram, statement.Named := by
    intro statement hmem
    obtain ⟨source, -, hmem⟩ := List.mem_flatMap.1 hmem
    exact Statement.Parsed.named (.inr ⟨source, hmem⟩)
  rw [runSources_eq_handleAll]
  obtain ⟨herrors, hanswers⟩ := (Session.Realizes.new settings limit).ofProgram_handleAll hnamed
  refine ⟨herrors, fun answer hanswer diagnostic hdiagnostic => ?_⟩
  have hsafe := hanswers answer hanswer diagnostic hdiagnostic
  exact ⟨hsafe.not_internal, hsafe.of_execute⟩

end ScalarLang
