import ScalarLang.Code.Listing

/-!
# Validity of code

`Function.violations` lists what is wrong with a function, in the order of its
text: repeated parameters first, then block by block, for each instruction its
operands, its callee and the register it assigns, and last the terminator of the
block. A register is defined once an earlier instruction has assigned it, and an
assignment to the name of a parameter defines nothing. A declaration can only
have repeated parameters.
-/

namespace ScalarLang

namespace Code

inductive Violation where
  | repeatedParameter (param : String)
  | argumentCount (callee : String) (found expected : Nat)
  | undeclaredCallee (callee : String)
  | reassigned (register : String)
  | unterminated (label : String)
  | unknownArgument (name : String)
  | undefinedRegister (name : String)
  deriving DecidableEq, Repr, Inhabited

/-- What is wrong with the function of the given name, in words. -/
def Violation.message (function : String) (v : Violation) : String :=
  "@" ++ function ++ ": " ++
    match v with
    | repeatedParameter param => s!"parameter %{param} declared twice"
    | argumentCount callee found expected =>
      s!"call to @{callee} passes {found} argument(s), expected {expected}"
    | undeclaredCallee callee => s!"call to @{callee} which is not declared in this unit"
    | reassigned register => s!"%{register} assigned more than once"
    | unterminated label => s!"block '{label}' has no terminator"
    | unknownArgument name => s!"%{name} is not a parameter"
    | undefinedRegister name => s!"%{name} used before definition"

/-- The names that stand earlier in the list too, once for every repetition, in order. `seen`
holds the names in front of the list. -/
def repeats (seen : List String) : List String → List String
  | [] => []
  | name :: names =>
    if seen.contains name then name :: repeats seen names else repeats (name :: seen) names

/-- What a function body may read at one of its places. -/
structure Scope where
  params : List String
  /-- The registers assigned so far, the latest first. -/
  defined : List String
  deriving DecidableEq, Repr, Inhabited

namespace Scope

def isFree (s : Scope) (register : String) : Bool :=
  !s.params.contains register && !s.defined.contains register

/-- The scope behind an assignment to a register. -/
def assign (s : Scope) (register : String) : Scope :=
  if s.isFree register then { s with defined := register :: s.defined } else s

def assignAll (s : Scope) (instructions : List Instruction) : Scope :=
  instructions.foldl (fun s i => s.assign i.dest) s

def operandViolation? (s : Scope) : Operand → Option Violation
  | .constant _ => none
  | .argument name => if s.params.contains name then none else some (.unknownArgument name)
  | .register name => if s.defined.contains name then none else some (.undefinedRegister name)

end Scope

/-- What is wrong with the callee of an instruction. -/
def Instruction.calleeViolation? (m : Module) : Instruction → Option Violation
  | call _ callee args =>
    match m.find? callee with
    | none => some (.undeclaredCallee callee)
    | some f =>
      if f.params.length = args.length then none
      else some (.argumentCount callee args.length f.params.length)
  | _ => none

def Instruction.violations (m : Module) (s : Scope) (i : Instruction) : List Violation :=
  i.operands.filterMap s.operandViolation? ++ (i.calleeViolation? m).toList ++
    if s.isFree i.dest then [] else [.reassigned i.dest]

def bodyViolations (m : Module) (s : Scope) : List Instruction → List Violation
  | [] => []
  | i :: is => i.violations m s ++ bodyViolations m (s.assign i.dest) is

/-- What is wrong with the terminator of a block, given the scope behind its instructions. -/
def Block.terminatorViolation? (s : Scope) (b : Block) : Option Violation :=
  match b.terminator with
  | none => some (.unterminated b.label)
  | some value => s.operandViolation? value

/-- What is wrong with a list of blocks. Registers stay defined in later blocks. -/
def blockViolations (m : Module) (s : Scope) : List Block → List Violation
  | [] => []
  | b :: bs =>
    let after := s.assignAll b.instructions
    bodyViolations m s b.instructions ++ (b.terminatorViolation? after).toList ++
      blockViolations m after bs

/-- What is wrong with a function of the module `m`. -/
def Function.violations (m : Module) (f : Function) : List Violation :=
  (repeats [] f.params).map .repeatedParameter ++ blockViolations m ⟨f.params, []⟩ f.blocks

/-- What is wrong with a function of the module `m`, in words. -/
def Function.complaints (m : Module) (f : Function) : List String :=
  (f.violations m).map (·.message f.name)

/-- A function is valid in a module if nothing is wrong with it. -/
def Function.Valid (m : Module) (f : Function) : Prop := f.violations m = []

instance (m : Module) (f : Function) : Decidable (f.Valid m) :=
  inferInstanceAs (Decidable (f.violations m = []))

/-- What is wrong with the functions of a module, in words. -/
def Module.complaints (m : Module) : List String := m.functions.flatMap (·.complaints m)

def Module.Valid (m : Module) : Prop := ∀ f ∈ m.functions, f.Valid m

theorem Function.complaints_eq_nil_iff (m : Module) (f : Function) :
    f.complaints m = [] ↔ f.Valid m := by
  simp [complaints, Valid]

theorem Module.complaints_eq_nil_iff (m : Module) : m.complaints = [] ↔ m.Valid := by
  simp [complaints, Valid, List.flatMap_eq_nil_iff, Function.complaints_eq_nil_iff]

end Code

end ScalarLang
