import ScalarLang.Operator

/-!
# Code

Straight-line code over doubles with named registers. A module is one
compilation unit, a list of functions; a function without blocks is a
declaration. Execution only ever enters the first block of a function, so a
block ends with the value it returns. Names are looked up from the front of the
list of functions, and `find?`, `modify` and `erase` all act on the first
function of a name.
-/

namespace ScalarLang

namespace Code

inductive Operand where
  | constant (value : Float)
  | register (name : String)
  | argument (name : String)
  deriving DecidableEq, Repr, Inhabited

/-- A computation or a call that assigns a register. A comparison yields a flag, and `widen`
makes a number of it; both have the value one or zero. -/
inductive Instruction where
  | arithmetic (op : Arithmetic) (dest : String) (lhs rhs : Operand)
  | compare (op : Comparison) (dest : String) (lhs rhs : Operand)
  | widen (dest : String) (value : Operand)
  | call (dest : String) (callee : String) (args : List Operand)
  deriving DecidableEq, Repr, Inhabited

/-- A labelled list of instructions. A terminated block says which value it returns. -/
structure Block where
  label : String
  instructions : List Instruction
  terminator : Option Operand
  deriving DecidableEq, Repr, Inhabited

/-- A function. It has no blocks if it is only declared. -/
structure Function where
  name : String
  params : List String
  blocks : List Block
  deriving DecidableEq, Repr, Inhabited

/-- A compilation unit. -/
structure Module where
  name : String
  functions : List Function
  deriving DecidableEq, Repr, Inhabited

def Operand.constant? : Operand → Option Float
  | constant value => some value
  | register _ | argument _ => none

namespace Instruction

def dest : Instruction → String
  | arithmetic _ dest _ _ | compare _ dest _ _ | widen dest _ | call dest _ _ => dest

/-- What the instruction reads, in order. -/
def operands : Instruction → List Operand
  | arithmetic _ _ lhs rhs | compare _ _ lhs rhs => [lhs, rhs]
  | widen _ value => [value]
  | call _ _ args => args

def mapOperands (f : Operand → Operand) : Instruction → Instruction
  | arithmetic op dest lhs rhs => arithmetic op dest (f lhs) (f rhs)
  | compare op dest lhs rhs => compare op dest (f lhs) (f rhs)
  | widen dest value => widen dest (f value)
  | call dest callee args => call dest callee (args.map f)

/-- The value of a computation, given how to read its operands. A call has none. -/
def evaluate (read : Operand → Option Float) : Instruction → Option Float
  | arithmetic op _ lhs rhs => do return op.apply (← read lhs) (← read rhs)
  | compare op _ lhs rhs => do return op.apply (← read lhs) (← read rhs)
  | widen _ value => read value
  | call _ _ _ => none

def callee? : Instruction → Option String
  | call _ callee _ => some callee
  | _ => none

@[simp] theorem dest_mapOperands (f : Operand → Operand) (i : Instruction) :
    (i.mapOperands f).dest = i.dest := by
  cases i <;> rfl

@[simp] theorem operands_mapOperands (f : Operand → Operand) (i : Instruction) :
    (i.mapOperands f).operands = i.operands.map f := by
  cases i <;> rfl

@[simp] theorem callee?_mapOperands (f : Operand → Operand) (i : Instruction) :
    (i.mapOperands f).callee? = i.callee? := by
  cases i <;> rfl

/-- What has a value is no call. -/
theorem callee?_eq_none_of_evaluate {read : Operand → Option Float} {i : Instruction}
    {value : Float} (h : i.evaluate read = some value) : i.callee? = none := by
  cases i with
  | call dest callee args => cases h
  | arithmetic | compare | widen => rfl

/-- A call has no value, and a computation has none if one of its operands cannot be read. -/
theorem evaluate_eq_none_iff {read : Operand → Option Float} {i : Instruction} :
    i.evaluate read = none ↔ (i.callee? = none → ∃ o ∈ i.operands, read o = none) := by
  cases i with
  | arithmetic op dest lhs rhs | compare op dest lhs rhs =>
    cases hl : read lhs <;> cases hr : read rhs <;> simp [evaluate, operands, callee?, hl, hr]
  | widen dest value => simp [evaluate, operands, callee?]
  | call dest callee args => simp [evaluate, callee?]

end Instruction

namespace Function

def isDeclaration (f : Function) : Bool := f.blocks.isEmpty

def entryBlock? (f : Function) : Option Block := f.blocks.head?

def calls (f : Function) (name : String) : Bool :=
  f.blocks.any fun block => block.instructions.any (·.callee? == some name)

end Function

namespace Module

def find? (m : Module) (name : String) : Option Function := m.functions.find? (·.name == name)

/-- Changes the first function of the given name in a list. -/
def modifyFirst (name : String) (change : Function → Function) : List Function → List Function
  | [] => []
  | f :: fs => if f.name == name then change f :: fs else f :: modifyFirst name change fs

def modify (m : Module) (name : String) (change : Function → Function) : Module :=
  { m with functions := modifyFirst name change m.functions }

def erase (m : Module) (name : String) : Module :=
  { m with functions := m.functions.eraseP (·.name == name) }

def push (m : Module) (f : Function) : Module := { m with functions := m.functions ++ [f] }

/-- Whether a function other than `name` calls `name`. -/
def references (m : Module) (name : String) : Bool :=
  m.functions.any fun f => f.name != name && f.calls name

def isBodiless (m : Module) : Bool := m.functions.all Function.isDeclaration

/-- A change that keeps the name changes exactly what is found under that name. -/
theorem find?_modify_self (m : Module) (name : String) (change : Function → Function)
    (keeps : ∀ f, (change f).name = f.name) :
    (m.modify name change).find? name = (m.find? name).map change := by
  unfold find? modify
  induction m.functions with
  | nil => rfl
  | cons f fs ih =>
    by_cases h : f.name == name
    · have h' : (change f).name == name := by rw [keeps]; exact h
      simp [modifyFirst, h, h']
    · simpa [modifyFirst, h] using ih

/-- A change to one name leaves the functions of every other name alone. -/
theorem find?_modify_of_ne (m : Module) {name other : String} (change : Function → Function)
    (keeps : ∀ f, (change f).name = f.name) (ne : other ≠ name) :
    (m.modify name change).find? other = m.find? other := by
  unfold find? modify
  induction m.functions with
  | nil => rfl
  | cons f fs ih =>
    by_cases h : f.name = name
    · have h' : ¬ (change f).name = other := by rw [keeps, h]; exact Ne.symm ne
      have h'' : ¬ f.name = other := by rw [h]; exact Ne.symm ne
      simp [modifyFirst, h, h', Ne.symm ne]
    · by_cases h' : f.name = other
      · simp [modifyFirst, h']
        simp_all
      · simpa [modifyFirst, h, h'] using ih

/-- Removing one name leaves the functions of every other name alone. -/
theorem find?_erase_of_ne (m : Module) {name other : String} (ne : other ≠ name) :
    (m.erase name).find? other = m.find? other := by
  unfold find? erase
  induction m.functions with
  | nil => rfl
  | cons f fs ih =>
    by_cases h : f.name = name
    · simp [h, Ne.symm ne]
    · by_cases h' : f.name = other
      · simp [h', ne]
      · simpa [h, h'] using ih

end Module

end Code

end ScalarLang
