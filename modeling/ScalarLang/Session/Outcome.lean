import ScalarLang.Diagnostic.Basic
import ScalarLang.Parse.Statement
import ScalarLang.Session.Basic

/-!
# Outcomes of statements

`Session.handle` carries out a statement and answers with its outcome, the
diagnostic if it failed, and the calls of natives that it made. Source texts are
handled statement by statement, and a failure does not stop the ones behind it.
-/

namespace ScalarLang

/-- What a statement came to. A success holds the listing of its code, if the session lists
code. -/
inductive Outcome where
  | defined (name : String) (code : Option String)
  | declared (name : String) (code : Option String)
  | evaluated (value : Float) (code : Option String)
  | failed
  deriving DecidableEq, Repr, Inhabited

namespace Outcome

/-- The listing of the code under a comment that names the kind of statement. -/
def listing? : Outcome → Option String
  | defined _ code => code.map ("; parsed a function definition\n" ++ ·)
  | declared _ code => code.map ("; parsed an external\n" ++ ·)
  | evaluated _ code => code.map ("; parsed a top-level\n" ++ ·)
  | failed => none

def text : Outcome → String
  | defined _ _ => "Parsed a function definition."
  | declared _ _ => "Read an extern."
  | evaluated value _ => "Evaluated to " ++ Decimal.plain value
  | failed => ""

def isFailed : Outcome → Bool
  | failed => true
  | _ => false

end Outcome

/-- What a session answers to a statement. -/
structure Answer where
  outcome : Outcome
  diagnostic : Option Diagnostic
  /-- The calls of natives, in order. -/
  calls : List NativeCall
  deriving DecidableEq, Repr, Inhabited

namespace Answer

/-- The answer of a success without a run. -/
def success (outcome : Outcome) : Answer := ⟨outcome, none, []⟩

/-- The answer of a failure without a run. -/
def failure (d : Diagnostic) : Answer := ⟨.failed, some d, []⟩

end Answer

namespace Session

/-- The listing of a function of the open unit, if the session lists code. -/
def code? (s : Session) (signature : Signature) : Option String :=
  if s.settings.listCode then some (s.openUnit.listing signature.name) else none

def handleDefinition (s : Session) (d : Definition) : Answer × Session :=
  match s.define d with
  | (.ok signature, s) => (.success (.defined d.prototype.name (s.code? signature)), s)
  | (.error error, s) => (.failure (.ofEmissionError error), s)

def handleExternal (s : Session) (p : Prototype) : Answer × Session :=
  match s.declare p with
  | (.ok signature, s) => (.success (.declared p.name (s.code? signature)), s)
  | (.error error, s) => (.failure (.ofEmissionError error), s)

/-- Handles an expression at the top level. Its code is listed before it runs, because its unit is
sealed then. -/
def handleTopLevel (s : Session) (d : Definition) : Answer × Session :=
  match s.emitTopLevel d with
  | (.error error, s) => (.failure (.ofEmissionError error), s)
  | (.ok signature, emitted) =>
    let (run, s) := emitted.runTopLevel d.prototype.name
    match run.result with
    | .ok value => (⟨.evaluated value (emitted.code? signature), none, run.calls⟩, s)
    | .error error => (⟨.failed, some (.ofExecutionError error d.body.span), run.calls⟩, s)

/-- Handles a statement. The end of input comes to nothing, without a diagnostic. -/
def handle (s : Session) : Statement → Answer × Session
  | .definition d => s.handleDefinition d
  | .external p => s.handleExternal p
  | .topLevel d => s.handleTopLevel d
  | .malformed error => (.failure (.ofParseError error), s)
  | .endOfInput => (⟨.failed, none, []⟩, s)

def handleAll (s : Session) : List Statement → List Answer × Session
  | [] => ([], s)
  | statement :: statements =>
    let (answer, s) := s.handle statement
    let (answers, s) := s.handleAll statements
    (answer :: answers, s)

def runSource (s : Session) (source : String) : List Answer × Session :=
  s.handleAll (parseProgram source)

@[simp] theorem handleAll_nil (s : Session) : s.handleAll [] = ([], s) := rfl

theorem handleAll_cons (s : Session) (statement : Statement) (statements : List Statement) :
    s.handleAll (statement :: statements) =
      ((s.handle statement).1 :: ((s.handle statement).2.handleAll statements).1,
        ((s.handle statement).2.handleAll statements).2) := rfl

theorem handleAll_append (s : Session) (first later : List Statement) :
    s.handleAll (first ++ later) =
      ((s.handleAll first).1 ++ ((s.handleAll first).2.handleAll later).1,
        ((s.handleAll first).2.handleAll later).2) := by
  induction first generalizing s with
  | nil => rfl
  | cons statement first ih => simp [handleAll_cons, ih]

end Session

end ScalarLang
