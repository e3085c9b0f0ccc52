import ScalarLang.Emission.OpenUnit
import ScalarLang.Expr

/-!
# Emission of expressions

A call needs its callee in the open unit. If it is not there yet, the prototype
recorded for the name is declared on demand. The callee and the number of
arguments are checked before any argument is looked at; an operator is checked
after both operands.
-/

namespace ScalarLang

/-- What emission sees besides the open unit. -/
structure Environment where
  /-- The values of the parameters, the last parameter first. -/
  bindings : List (String × Code.Operand)
  /-- The prototypes recorded so far, the latest first. -/
  prototypes : List Prototype
  deriving DecidableEq, Repr, Inhabited

/-- The latest prototype recorded for a name. -/
def Environment.prototype? (env : Environment) (name : String) : Option Prototype :=
  env.prototypes.find? (·.name == name)

namespace Prototype

/-- The first parameter that stands earlier too. -/
def repeated? (p : Prototype) : Option String := (Code.repeats [] p.params).head?

/-- Refuses a prototype with a repeated parameter. -/
def check (p : Prototype) : Emit Unit :=
  match p.repeated? with
  | some param => throw (.duplicateParameter p.name param p.span)
  | none => pure ()

/-- Replaces a declaration with another number of parameters, unless a function calls it. -/
def redeclare (p : Prototype) (existing : Signature) : Emit Signature := do
  let u ← get
  if u.isReferenced p.name then throw (.declarationInUse p.name existing.arity p.span)
  set (u.discard p.name)
  Emit.declare p.name p.params

/-- Declares a prototype in the open unit. A function of that name with the same number of
parameters is reused, and a mere declaration with another number is replaced; a definition is
never touched. -/
def emit (p : Prototype) : Emit Signature := do
  p.check
  let u ← get
  match u.lookup? p.name with
  | none => Emit.declare p.name p.params
  | some existing =>
    if existing.arity = p.params.length then return existing
    else if u.hasBody p.name then throw (.redefinition p.name p.span)
    else p.redeclare existing

end Prototype

namespace Environment

/-- The signature of a callee, if it is known. A callee of the open unit comes first; another one
is declared from its recorded prototype. -/
def callee? (env : Environment) (name : String) : Emit (Option Signature) := do
  match (← get).lookup? name with
  | some signature => return some signature
  | none =>
    match env.prototype? name with
    | some p => return some (← p.emit)
    | none => return none

/-- The signature of the callee of a call at `span` with `count` arguments. -/
def callee (env : Environment) (name : String) (count : Nat) (span : Span) : Emit Signature := do
  match ← env.callee? name with
  | none => throw (.unknownFunction name span)
  | some signature =>
    if signature.arity = count then return signature
    else throw (.arityMismatch name signature.arity count span)

end Environment

/-- Emits a binary operation on operands that are emitted already. -/
def emitOperator (op : Char) (lhs rhs : Code.Operand) (span : Span) : Emit Code.Operand :=
  match Operator.ofChar? op with
  | some (.arithmetic op) => Emit.arithmetic op lhs rhs
  | some (.comparison op) => Emit.compare op lhs rhs
  | none => throw (.unknownOperator op span)

mutual

/-- Emits an expression into the open body and returns where its value is. -/
def Expr.emit (env : Environment) (e : Expr) : Emit Code.Operand :=
  match e with
  | .number value _ => return .constant value
  | .var name span =>
    match env.bindings.lookup name with
    | some operand => return operand
    | none => throw (.unknownVariable name span)
  | .binary op lhs rhs span => do
    let lhs ← lhs.emit env
    let rhs ← rhs.emit env
    emitOperator op lhs rhs span
  | .call name args span => do
    let signature ← env.callee name args.length span
    let args ← Expr.emitAll env args
    Emit.call signature.name args
  termination_by structural e

def Expr.emitAll (env : Environment) (es : List Expr) : Emit (List Code.Operand) :=
  match es with
  | [] => return []
  | e :: es => do
    let operand ← e.emit env
    return operand :: (← Expr.emitAll env es)
  termination_by structural es

end

end ScalarLang
