import ScalarLang.Code.Basic
import ScalarLang.Native

/-!
# Loaded units

An engine keeps the units handed to it as long as they hold a body, the newest
first. A call runs the body of that name in the unit of the caller, else in the
newest unit that has one, else the native of that name.
-/

namespace ScalarLang

/-- A function body together with the unit that it lives in. -/
structure Target where
  unit : Code.Module
  function : Code.Function
  entry : Code.Block
  deriving DecidableEq, Repr, Inhabited

/-- The body under the given name in a unit, if the first function of that name has one. -/
def Code.Module.target? (unit : Code.Module) (name : String) : Option Target := do
  let function ← unit.find? name
  let entry ← function.entryBlock?
  return ⟨unit, function, entry⟩

inductive Callee where
  | body (target : Target)
  | native (native : Native)
  deriving DecidableEq, Repr, Inhabited

/-- The loaded units and the number of activations that may be alive at once. -/
structure Engine where
  /-- The loaded units, the newest first. -/
  units : List Code.Module
  limit : Nat
  deriving DecidableEq, Repr, Inhabited

namespace Engine

/-- The limit of activations unless another is given. -/
def defaultLimit : Nat := 1024

def new (limit : Nat) : Engine := ⟨[], limit⟩

def load (e : Engine) (unit : Code.Module) : Engine := { e with units := unit :: e.units }

/-- Removes the first function called `symbol` from the first of the units that has one, and the
unit too if no body is left in it. -/
def unloadFrom (symbol : String) : List Code.Module → List Code.Module
  | [] => []
  | unit :: older =>
    match unit.find? symbol with
    | none => unit :: unloadFrom symbol older
    | some _ =>
      let remaining := unit.erase symbol
      if remaining.isBodiless then older else remaining :: older

/-- Removes the newest function called `symbol`. -/
def unload (e : Engine) (symbol : String) : Engine :=
  { e with units := unloadFrom symbol e.units }

/-- What a call of `name` from the unit `caller` runs. -/
def resolve? (e : Engine) (caller : Code.Module) (name : String) : Option Callee :=
  match (caller.target? name).or (e.units.findSome? (·.target? name)) with
  | some target => some (.body target)
  | none => (Native.ofName? name).map .native

@[simp] theorem units_load (e : Engine) (unit : Code.Module) :
    (e.load unit).units = unit :: e.units := rfl

@[simp] theorem limit_load (e : Engine) (unit : Code.Module) : (e.load unit).limit = e.limit := rfl

@[simp] theorem limit_unload (e : Engine) (symbol : String) :
    (e.unload symbol).limit = e.limit := rfl

end Engine

end ScalarLang
