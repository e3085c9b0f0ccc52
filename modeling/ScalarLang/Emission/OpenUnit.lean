import ScalarLang.Code.Folding
import ScalarLang.Emission.Error

/-!
# The open unit

Code is emitted into one open unit at a time. It remembers which function has its
body open, where instructions go to the end of the last block, and how many
registers that body has used. Closing a body validates the function and folds its
constants. An action that fails keeps what it changed before.
-/

namespace ScalarLang

/-- A function that can be called: its name and the number of its parameters. -/
structure Signature where
  name : String
  arity : Nat
  deriving DecidableEq, Repr, Inhabited

/-- The unit that code is emitted into. -/
structure OpenUnit where
  module : Code.Module
  /-- The function whose body is open. -/
  target : Option String
  /-- The number given to the latest register. -/
  registers : Nat
  deriving DecidableEq, Repr, Inhabited

def Code.Function.signature (f : Code.Function) : Signature := ⟨f.name, f.params.length⟩

namespace Code

/-- Changes the last block of a list. -/
def changeLast (change : Block → Block) : List Block → List Block
  | [] => []
  | [block] => [change block]
  | block :: next :: blocks => block :: changeLast change (next :: blocks)

namespace Function

/-- The function with an instruction added to its last block. -/
def append (i : Instruction) (f : Function) : Function :=
  { f with
    blocks := changeLast (fun b => { b with instructions := b.instructions ++ [i] }) f.blocks }

/-- The function with the value that its last block returns. -/
def terminate (value : Operand) (f : Function) : Function :=
  { f with blocks := changeLast (fun b => { b with terminator := some value }) f.blocks }

/-- The function with new parameter names and an empty block added to its body. -/
def openEntry (params : List String) (f : Function) : Function :=
  { f with params := params, blocks := f.blocks ++ [⟨"entry", [], none⟩] }

def withoutBody (f : Function) : Function := { f with blocks := [] }

@[simp] theorem name_append (i : Instruction) (f : Function) : (f.append i).name = f.name := rfl

@[simp] theorem params_append (i : Instruction) (f : Function) :
    (f.append i).params = f.params := rfl

@[simp] theorem name_terminate (value : Operand) (f : Function) :
    (f.terminate value).name = f.name := rfl

@[simp] theorem params_terminate (value : Operand) (f : Function) :
    (f.terminate value).params = f.params := rfl

@[simp] theorem name_openEntry (params : List String) (f : Function) :
    (f.openEntry params).name = f.name := rfl

@[simp] theorem name_withoutBody (f : Function) : f.withoutBody.name = f.name := rfl

end Function

end Code

namespace OpenUnit

def new (name : String) : OpenUnit := ⟨⟨name, []⟩, none, 0⟩

def lookup? (u : OpenUnit) (name : String) : Option Signature :=
  (u.module.find? name).map Code.Function.signature

def hasBody (u : OpenUnit) (name : String) : Bool :=
  (u.module.find? name).any (!·.isDeclaration)

/-- Whether a function other than `name` calls `name`. -/
def isReferenced (u : OpenUnit) (name : String) : Bool := u.module.references name

def change (u : OpenUnit) (name : String) (f : Code.Function → Code.Function) : OpenUnit :=
  { u with module := u.module.modify name f }

/-- Drops the body of a function, and the function as well unless another one calls it. -/
def discard (u : OpenUnit) (name : String) : OpenUnit :=
  let u := { u with target := if u.target = some name then none else u.target }
  if u.isReferenced name then u.change name Code.Function.withoutBody
  else { u with module := u.module.erase name }

/-- The listing of a function of the open unit, or nothing if there is none of that name. -/
def listing (u : OpenUnit) (name : String) : String :=
  ((u.module.find? name).map Code.Function.text).getD ""

/-- Takes the module out of the open unit, which is left without a name and functions. -/
def takeModule (u : OpenUnit) : Code.Module × OpenUnit :=
  (u.module, { u with module := ⟨"", []⟩, target := none })

def reopen (u : OpenUnit) (name : String) : OpenUnit :=
  { u with module := ⟨name, []⟩, registers := 0 }

end OpenUnit

abbrev Emit := EStateM EmissionError OpenUnit

namespace Emit

/-- Adds a declaration, unless the open unit knows the name. -/
def declare (name : String) (params : List String) : Emit Signature := do
  let u ← get
  if (u.module.find? name).isSome then throw (.failure (.alreadyDeclared name))
  set { u with module := u.module.push ⟨name, params, []⟩ }
  return ⟨name, params.length⟩

/-- Opens the body of a function. Its parameters get the given names, and each is bound to its
argument. -/
def openBody (name : String) (params : List String) : Emit (List (String × Code.Operand)) := do
  let u ← get
  if (u.module.find? name).isNone then throw (.failure (.notInUnit name))
  set { u.change name (·.openEntry params) with target := some name, registers := 0 }
  return params.map fun param => (param, .argument param)

/-- A register that the open body has not used: a stem that tells what computes it, and a
number. -/
def newRegister (stem : String) : Emit String := do
  modify fun u => { u with registers := u.registers + 1 }
  return stem ++ Nat.repr (← get).registers

/-- Adds an instruction to the open body and returns the register that it assigns. -/
def append (i : Code.Instruction) : Emit Code.Operand := do
  let u ← get
  match u.target with
  | some name =>
    if u.hasBody name then
      set (u.change name (·.append i))
      return .register i.dest
    else throw (.failure .noInsertionPoint)
  | none => throw (.failure .noInsertionPoint)

/-- The stem of the registers that an arithmetic operator assigns. -/
def arithmeticStem : Arithmetic → String
  | .add => "addtmp"
  | .sub => "subtmp"
  | .mul => "multmp"
  | .div => "divtmp"

def arithmetic (op : Arithmetic) (lhs rhs : Code.Operand) : Emit Code.Operand := do
  append (.arithmetic op (← newRegister (arithmeticStem op)) lhs rhs)

/-- Emits a comparison whose value is one or zero. -/
def compare (op : Comparison) (lhs rhs : Code.Operand) : Emit Code.Operand := do
  let flag ← append (.compare op (← newRegister "cmptmp") lhs rhs)
  append (.widen (← newRegister "booltmp") flag)

def call (callee : String) (args : List Code.Operand) : Emit Code.Operand := do
  append (.call (← newRegister "calltmp") callee args)

/-- Closes the body of a function with the value that it returns. An invalid function is refused
as it is; a valid one has its constants folded. -/
def closeBody (name : String) (value : Code.Operand) : Emit Unit := do
  modify fun u => { u with target := none }
  let u ← get
  match u.module.find? name with
  | none => throw (.failure (.notInUnit name))
  | some f =>
    if f.isDeclaration then throw (.failure (.noBody name))
    let closed := u.change name (·.terminate value)
    set closed
    let violations := (f.terminate value).violations closed.module
    if violations ≠ [] then throw (.failure (.invalid name violations))
    set (closed.change name Code.Function.fold)

end Emit

end ScalarLang
