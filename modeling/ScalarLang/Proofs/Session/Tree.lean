import ScalarLang.Proofs.Emission.Compiled
import ScalarLang.Proofs.Evaluation.Tree
import ScalarLang.Session.Outcome

/-!
# Sessions on trees

A `TreeSession` emits no code. It keeps what it accepted, which are the recorded
prototypes and the definitions of every unit. `TreeSession.check` says what a
definition is refused for, `TreeSession.run` evaluates trees, and
`TreeSession.handle` answers to a statement with these two alone.
-/

namespace ScalarLang

/-- The state of a session on trees. -/
structure TreeSession where
  limit : Nat
  /-- The recorded prototypes, the latest first. -/
  recorded : List Prototype
  /-- The definitions of the open unit, the latest first. -/
  opened : List Definition
  /-- The definitions of the sealed units, the newest unit first. -/
  sealed : Units

/-- The answer of a run to an expression read from `span`, without a listing. -/
def Run.answer (r : Run) (span : Span) : Answer :=
  match r.result with
  | .ok value => ⟨.evaluated value none, none, r.calls⟩
  | .error error => ⟨.failed, some (.ofExecutionError error span), r.calls⟩

/-- The outcome without the listing of its code. -/
def Outcome.bare : Outcome → Outcome
  | .defined name _ => .defined name none
  | .declared name _ => .declared name none
  | .evaluated value _ => .evaluated value none
  | .failed => .failed

/-- The answer without the listing of the code. -/
def Answer.bare (a : Answer) : Answer := { a with outcome := a.outcome.bare }

namespace TreeSession

def new (limit : Nat) : TreeSession := ⟨limit, [], [], []⟩

/-- The session behind a statement for which code was emitted. -/
def accept (t : TreeSession) : Statement → TreeSession
  | .definition d =>
    { t with recorded := d.prototype :: t.recorded, opened := d :: t.opened }
  | .external q => { t with recorded := q :: t.recorded }
  | .topLevel _ => { t with opened := [], sealed := t.opened :: t.sealed }
  | .malformed _ | .endOfInput => t

/-- The arity of a recorded function. -/
def arity? (t : TreeSession) (name : String) : Option Nat :=
  (t.recorded.find? (·.name == name)).map fun q => q.params.length

/-- Whether the open unit defines a name. -/
def defines (t : TreeSession) (name : String) : Bool := (Definition.find? t.opened name).isSome

/-- Whether a definition of the open unit calls a name. -/
def calls (t : TreeSession) (name : String) : Bool :=
  t.opened.any fun d => d.body.calls.any (·.name == name)

/-- Refuses another number of parameters for a name that the open unit defines or calls. -/
def checkArity (t : TreeSession) (q : Prototype) : Except EmissionError Unit :=
  match t.arity? q.name with
  | none => .ok ()
  | some arity =>
    if arity = q.params.length then .ok ()
    else if t.defines q.name then .error (.redefinition q.name q.span)
    else if t.calls q.name then .error (.declarationInUse q.name arity q.span)
    else .ok ()

def checkExternal (t : TreeSession) (q : Prototype) : Except EmissionError Unit :=
  match q.repeated? with
  | some param => .error (.duplicateParameter q.name param q.span)
  | none => t.checkArity q

/-- What a definition is refused for before its body is looked at. -/
def checkName (t : TreeSession) (q : Prototype) : Except EmissionError Unit :=
  match q.repeated? with
  | some param => .error (.duplicateParameter q.name param q.span)
  | none =>
    if t.defines q.name then .error (.redefinition q.name q.span) else t.checkArity q

def check (t : TreeSession) (d : Definition) : Except EmissionError Unit := do
  t.checkName d.prototype
  d.checkBody fun name =>
    if name = d.prototype.name then some d.prototype.params.length else t.arity? name

/-- Evaluates a definition without parameters in the open unit. -/
def run (t : TreeSession) (d : Definition) : Run :=
  (Units.evaluate ((d :: t.opened) :: t.sealed) t.limit t.limit (d :: t.opened) d []).toRun

def handle (t : TreeSession) (statement : Statement) : Answer × TreeSession :=
  match statement with
  | .definition d =>
    match t.check d with
    | .ok () => (.success (.defined d.prototype.name none), t.accept statement)
    | .error error => (.failure (.ofEmissionError error), t)
  | .external q =>
    match t.checkExternal q with
    | .ok () => (.success (.declared q.name none), t.accept statement)
    | .error error => (.failure (.ofEmissionError error), t)
  | .topLevel d =>
    match t.check d with
    | .ok () => ((t.run d).answer d.body.span, t.accept statement)
    | .error error => (.failure (.ofEmissionError error), t)
  | .malformed error => (.failure (.ofParseError error), t)
  | .endOfInput => (⟨.failed, none, []⟩, t)

def handleAll (t : TreeSession) : List Statement → List Answer × TreeSession
  | [] => ([], t)
  | statement :: statements =>
    ((t.handle statement).1 :: ((t.handle statement).2.handleAll statements).1,
      ((t.handle statement).2.handleAll statements).2)

theorem handleAll_cons (t : TreeSession) (statement : Statement) (statements : List Statement) :
    t.handleAll (statement :: statements) =
      ((t.handle statement).1 :: ((t.handle statement).2.handleAll statements).1,
        ((t.handle statement).2.handleAll statements).2) := rfl

end TreeSession

/-- The statement is named as the parser names statements: an expression at the top level, and
nothing else, has the reserved name. -/
def Statement.Named : Statement → Prop
  | .definition d => d.prototype.name ≠ Prototype.anonymousName
  | .external q => q.name ≠ Prototype.anonymousName
  | .topLevel d => d.prototype.name = Prototype.anonymousName
  | .malformed _ | .endOfInput => True

end ScalarLang
