import ScalarLang.Session.Outcome

/-!
# Interpreters

An interpreter is a session with the diagnostics of what it handled. They stay
with it until they are taken (`Interpreter.takeDiagnostics`), so what is taken
are those of all statements since they were taken last, in order
(`Interpreter.handleAll_eq`).
-/

namespace ScalarLang

/-- What is given back for a statement. The diagnostic of a failure is with the interpreter. -/
structure Response where
  outcome : Outcome
  /-- The calls of natives, in order. -/
  calls : List NativeCall
  deriving DecidableEq, Repr, Inhabited

def Answer.response (a : Answer) : Response := ⟨a.outcome, a.calls⟩

structure Interpreter where
  session : Session
  diagnostics : Diagnostics
  deriving DecidableEq, Repr, Inhabited

namespace Interpreter

/-- The interpreter of a session, without any diagnostics. -/
def ofSession (s : Session) : Interpreter := ⟨s, .empty⟩

def new (settings : Settings) (limit : Nat) : Interpreter := ofSession (.new settings limit)

/-- Hands over the diagnostics that were collected, and goes on without them. -/
def takeDiagnostics (i : Interpreter) : Diagnostics × Interpreter :=
  (i.diagnostics, ofSession i.session)

/-- Handles a statement and collects its diagnostic. -/
def handle (i : Interpreter) (statement : Statement) : Response × Interpreter :=
  let (a, s) := i.session.handle statement
  (a.response, ⟨s, i.diagnostics.collect a.diagnostic⟩)

def handleAll (i : Interpreter) : List Statement → List Response × Interpreter
  | [] => ([], i)
  | statement :: statements =>
    let (response, i) := i.handle statement
    let (responses, i) := i.handleAll statements
    (response :: responses, i)

/-- Handles every statement of a source. -/
def runToEnd (i : Interpreter) (source : String) : List Response × Interpreter :=
  i.handleAll (parseProgram source)

theorem handleAll_cons (i : Interpreter) (statement : Statement) (statements : List Statement) :
    i.handleAll (statement :: statements) =
      ((i.handle statement).1 :: ((i.handle statement).2.handleAll statements).1,
        ((i.handle statement).2.handleAll statements).2) := rfl

/-- The responses to statements are the answers of the session, and their diagnostics are behind
those that were there. -/
theorem handleAll_eq (i : Interpreter) (statements : List Statement) :
    i.handleAll statements =
      ((i.session.handleAll statements).1.map Answer.response,
        ⟨(i.session.handleAll statements).2, ⟨i.diagnostics.items ++
          (i.session.handleAll statements).1.filterMap Answer.diagnostic⟩⟩) := by
  induction statements generalizing i with
  | nil => simp [handleAll]
  | cons statement statements ih =>
    rw [handleAll_cons, ih, Session.handleAll_cons, List.map_cons, List.filterMap_cons, handle]
    cases hdiagnostic : (i.session.handle statement).1.diagnostic <;> simp [hdiagnostic]

end Interpreter

end ScalarLang
