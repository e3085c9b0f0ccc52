import ScalarLang.Emission.Definition
import ScalarLang.Engine.Run

/-!
# Sessions

A session emits definitions, declarations and expressions into its open unit. To
run an expression it seals the unit, hands it to the engine and opens the next
one, so later units can call what earlier ones define. The prototypes recorded
for definitions and declarations outlive every unit, the bindings of parameters
only the body that they are made for.
-/

namespace ScalarLang

structure Settings where
  /-- The name of every unit. -/
  moduleName : String
  /-- Whether outcomes come with a listing of the code. -/
  listCode : Bool
  deriving DecidableEq, Repr, Inhabited

def Settings.standard : Settings := ⟨"my cool jit", false⟩

structure Session where
  settings : Settings
  openUnit : OpenUnit
  engine : Engine
  /-- The values of the parameters of the function that is being emitted, the last parameter
  first. -/
  bindings : List (String × Code.Operand)
  /-- The prototypes recorded so far, the latest first. -/
  prototypes : List Prototype
  /-- The number of units sealed so far. -/
  sealedUnits : Nat
  deriving DecidableEq, Repr, Inhabited

namespace Session

def new (settings : Settings) (limit : Nat) : Session where
  settings := settings
  openUnit := .new settings.moduleName
  engine := .new limit
  bindings := []
  prototypes := []
  sealedUnits := 0

def prototype? (s : Session) (name : String) : Option Prototype :=
  s.prototypes.find? (·.name == name)

/-- Emits into the open unit of the session. What a failure leaves there stays. -/
def emit {α : Type} (s : Session) (action : Emit α) : Except EmissionError α × Session :=
  match action s.openUnit with
  | .ok value u => (.ok value, { s with openUnit := u })
  | .error error u => (.error error, { s with openUnit := u })

def record (p : Prototype) : Except EmissionError Signature × Session →
    Except EmissionError Signature × Session
  | (.ok signature, s) => (.ok signature, { s with prototypes := p :: s.prototypes })
  | (.error error, s) => (.error error, s)

/-- What emission sees of the session besides the open unit. -/
def environment (s : Session) : Environment := ⟨s.bindings, s.prototypes⟩

/-- The signature of a function that a call can name. -/
def callee? (s : Session) (name : String) : Except EmissionError (Option Signature) × Session :=
  s.emit (s.environment.callee? name)

/-- The session with other bindings than before. -/
def withBindings (s : Session) (bindings : List (String × Code.Operand)) : Session :=
  { s with bindings := bindings }

/-- Emits the body of a declared function. Its parameters take the place of all bindings. -/
def emitBody (s : Session) (d : Definition) : Except EmissionError Unit × Session :=
  match s.emit (Emit.openBody d.prototype.name d.prototype.params) with
  | (.error error, s) => (.error error, s)
  | (.ok bindings, s) =>
    let bound := s.withBindings bindings.reverse
    bound.emit (d.fillBody bound.environment)

/-- Emits a function and forgets the bindings of its body. If the body cannot be emitted it is
dropped again, and the function with it unless another function calls it. The prototype is not
recorded. -/
def emitTopLevel (s : Session) (d : Definition) : Except EmissionError Signature × Session :=
  match s.emit d.declare with
  | (.error error, s) => (.error error, s)
  | (.ok signature, s) =>
    match s.emitBody d with
    | (.ok _, s) => (.ok signature, s.withBindings [])
    | (.error error, s) =>
      (.error error, { s.withBindings [] with openUnit := s.openUnit.discard d.prototype.name })

/-- Emits a definition and records its prototype, unless its name is the reserved one. -/
def define (s : Session) (d : Definition) : Except EmissionError Signature × Session :=
  if d.prototype.isAnonymous then s.emitTopLevel d else record d.prototype (s.emitTopLevel d)

def declare (s : Session) (p : Prototype) : Except EmissionError Signature × Session :=
  record p (s.emit p.emit)

/-- Seals the open unit, runs `symbol` in it and opens the next unit. -/
def runTopLevel (s : Session) (symbol : String) : Run × Session :=
  let (module, u) := s.openUnit.takeModule
  let (run, engine) := s.engine.execute module symbol
  (run, { s with
    openUnit := u.reopen s.settings.moduleName
    engine := engine
    sealedUnits := s.sealedUnits + 1 })

/-- Emits and runs an expression at the top level. -/
def evaluate (s : Session) (d : Definition) : Except EmissionError Run × Session :=
  match s.emitTopLevel d with
  | (.error error, s) => (.error error, s)
  | (.ok _, s) =>
    let (run, s) := s.runTopLevel d.prototype.name
    (.ok run, s)

end Session

end ScalarLang
