import ScalarLang.Expr
import ScalarLang.Operator
import ScalarLang.Proofs.Evaluation.Code

/-!
# Evaluation of trees

The meaning of a program without any code: `Expr.eval` evaluates a tree from left
to right, and `Units.evaluate` evaluates the body of a definition, whose calls go
to the definitions of the units. A unit is here the list of its definitions, the
latest first, and the units are listed the newest first.
-/

namespace ScalarLang

/-- Applies an operator. -/
def Operator.apply : Operator → Float → Float → Float
  | arithmetic op => op.apply
  | comparison op => op.apply

mutual

/-- The value of an expression, given what a call comes to and the values of the variables. A
variable without a value and an operator that the language does not know are faults. -/
def Expr.eval (call : String → List Float → Eval Float) (bindings : List (String × Float))
    (e : Expr) : Eval Float :=
  match e with
  | .number value _ => return value
  | .var name _ =>
    match bindings.lookup name with
    | some value => return value
    | none => throw (.engine (.report s!"variable {name} has no value"))
  | .binary op lhs rhs _ => do
    let x ← lhs.eval call bindings
    let y ← rhs.eval call bindings
    match Operator.ofChar? op with
    | some op => return op.apply x y
    | none => throw (.engine (.report s!"operator {op} has no meaning"))
  | .call callee args _ => do
    let values ← Expr.evalAll call bindings args
    call callee values
  termination_by structural e

/-- The values of expressions, from left to right. -/
def Expr.evalAll (call : String → List Float → Eval Float) (bindings : List (String × Float))
    (es : List Expr) : Eval (List Float) :=
  match es with
  | [] => return []
  | e :: es => do
    let value ← e.eval call bindings
    return value :: (← Expr.evalAll call bindings es)
  termination_by structural es

end

/-- The definition of the given name among the definitions of a unit. -/
def Definition.find? (unit : List Definition) (name : String) : Option Definition :=
  unit.find? (·.prototype.name == name)

/-- What a call in a program runs: a definition, with the unit it belongs to, or a native. -/
inductive ProgramCallee where
  | definition (unit : List Definition) (d : Definition)
  | native (native : Native)

/-- The definitions of several units, the newest unit first. -/
abbrev Units := List (List Definition)

namespace Units

/-- What a call of `name` from the unit `own` runs: the definition of the same unit, else that of
the newest unit that has one, else the native of that name. -/
def resolve? (units : Units) (own : List Definition) (name : String) : Option ProgramCallee :=
  match (own :: units).findSome? fun unit => (Definition.find? unit name).map (unit, ·) with
  | some (unit, d) => some (.definition unit d)
  | none => (Native.ofName? name).map .native

/-- What a call comes to, given how to evaluate a definition. -/
def dispatch (units : Units) (evaluate : List Definition → Definition → List Float → Eval Float)
    (own : List Definition) (callee : String) (args : List Float) : Eval Float :=
  match units.resolve? own callee with
  | none => throw (.unresolvedSymbol callee)
  | some (.native native) => native.perform args
  | some (.definition unit d) => evaluate unit d args

/-- The value of a definition of the unit `own`, if `room` of at most `limit` activations may
still be started. The room is looked at before the arguments are counted. -/
def evaluate (units : Units) (limit : Nat) :
    (room : Nat) → (own : List Definition) → Definition → List Float → Eval Float
  | 0, _, _, _ => throw (.stackOverflow limit)
  | room + 1, own, d, args =>
    if d.prototype.params.length = args.length then
      d.body.eval (units.dispatch (units.evaluate limit room) own)
        (d.prototype.params.zip args).reverse
    else throw (.callArity d.prototype.name d.prototype.params.length args.length)

end Units

end ScalarLang
