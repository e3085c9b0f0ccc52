import ScalarLang.Emission.Expression

/-!
# Emission of definitions

A definition completes a declaration of its name, or adds a function. The body is
then opened and filled; in between its parameters are bound.
-/

namespace ScalarLang

namespace Definition

/-- The declaration that the definition completes: the one of the open unit if it has as many
parameters, a new one otherwise. A definition is never replaced. -/
def declare (d : Definition) : Emit Signature := do
  let p := d.prototype
  p.check
  let u ← get
  match u.lookup? p.name with
  | none => Emit.declare p.name p.params
  | some existing =>
    if u.hasBody p.name then throw (.redefinition p.name p.span)
    else if existing.arity = p.params.length then return existing
    else p.redeclare existing

/-- Emits the expression of the open body, given what it can see, and closes the body with its
value. -/
def fillBody (d : Definition) (env : Environment) : Emit Unit := do
  let value ← d.body.emit env
  Emit.closeBody d.prototype.name value

end Definition

end ScalarLang
