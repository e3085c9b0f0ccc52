import ScalarLang.Engine.Basic
import ScalarLang.Engine.Error

/-!
# The machine

Code runs on an explicit stack of activations, so the depth of calls is bounded
by the limit of the engine and by nothing else. `Engine.step` carries out one
instruction, or one return once no instruction is left. An activation holds the
instructions that are left to it, which are those of its body from the place that
it has reached (`Frame.Placed`). Calls of natives are recorded in the machine
instead of being written out.
-/

namespace ScalarLang

def Native.call (native : Native) (args : List Float) : Except ExecutionError Float :=
  match native.value? args with
  | some value => .ok value
  | none => .error (.callArity native.name native.arity args.length)

/-- An activation of a function body. -/
structure Frame where
  target : Target
  /-- The values of the parameters, the last parameter first. -/
  arguments : List (String × Float)
  /-- The values of the registers assigned so far, the latest first. -/
  registers : List (String × Float)
  /-- The instructions still to be carried out. -/
  pending : List Code.Instruction
  deriving DecidableEq, Repr, Inhabited

namespace Frame

/-- The activation of a body at its start. Of two parameters of one name the last one counts. -/
def enter (target : Target) (args : List Float) : Frame where
  target := target
  arguments := (target.function.params.zip args).reverse
  registers := []
  pending := target.entry.instructions

def read (f : Frame) : Code.Operand → Option Float
  | .constant value => some value
  | .argument name => f.arguments.lookup name
  | .register name => f.registers.lookup name

/-- The value of an operand, or the fault that it has none. -/
def demand (f : Frame) (operand : Code.Operand) : Except ExecutionError Float :=
  match f.read operand with
  | some value => .ok value
  | none => .error (.engine (.undefinedValue f.target.function.name operand))

def result (f : Frame) : Except ExecutionError Float :=
  match f.target.entry.terminator with
  | some value => f.demand value
  | none => .error (.engine (.unterminatedBlock f.target.function.name f.target.entry.label))

def assign (f : Frame) (register : String) (value : Float) : Frame :=
  { f with registers := (register, value) :: f.registers }

/-- The place of the next instruction in the body: every instruction that was carried out assigned
one register. -/
def next (f : Frame) : Nat := f.registers.length

/-- What is left of the body stands there from the place of the next instruction on. -/
def Placed (f : Frame) : Prop := f.target.entry.instructions.drop f.next = f.pending

theorem placed_enter (target : Target) (args : List Float) : (enter target args).Placed := rfl

/-- An activation goes on to the next place when its instruction is carried out. -/
theorem Placed.assign {f : Frame} (placed : f.Placed) {i : Code.Instruction}
    {pending : List Code.Instruction} (h : f.pending = i :: pending) (register : String)
    (value : Float) : (Frame.assign { f with pending := pending } register value).Placed :=
  calc f.target.entry.instructions.drop (f.next + 1)
    _ = (f.target.entry.instructions.drop f.next).tail := List.tail_drop.symm
    _ = pending := by rw [placed, h, List.tail_cons]

/-- The instruction at the place of an activation is the first one that is left. -/
theorem Placed.getElem?_next {f : Frame} (placed : f.Placed) :
    f.target.entry.instructions[f.next]? = f.pending.head? := by
  rw [← List.head?_drop, placed]

end Frame

/-- An activation that waits for the value of a call. Its place is still that of the call, and the
call is no longer among the instructions that are left. -/
structure Caller where
  frame : Frame
  /-- The register that the value of the call goes to. -/
  dest : String
  deriving DecidableEq, Repr, Inhabited

/-- The activation that waited, with the value that it waited for. -/
def Caller.resume (c : Caller) (value : Float) : Frame := c.frame.assign c.dest value

/-- The activations below the active one, and how many there are. -/
structure CallStack where
  /-- The activations that wait, the nearest first. -/
  callers : List Caller
  height : Nat
  height_eq : height = callers.length
  deriving DecidableEq

namespace CallStack

def empty : CallStack := ⟨[], 0, rfl⟩

instance : Inhabited CallStack := ⟨empty⟩

def push (caller : Caller) (s : CallStack) : CallStack where
  callers := caller :: s.callers
  height := s.height + 1
  height_eq := by rw [s.height_eq, List.length_cons]

def pop? : CallStack → Option (Caller × CallStack)
  | ⟨[], _, _⟩ => none
  | ⟨caller :: callers, height, height_eq⟩ =>
    some (caller, ⟨callers, height - 1, by rw [height_eq, List.length_cons, Nat.add_sub_cancel]⟩)

@[simp] theorem callers_push (caller : Caller) (s : CallStack) :
    (s.push caller).callers = caller :: s.callers := rfl

@[simp] theorem height_push (caller : Caller) (s : CallStack) :
    (s.push caller).height = s.height + 1 := rfl

@[simp] theorem pop?_push (caller : Caller) (s : CallStack) :
    (s.push caller).pop? = some (caller, s) := rfl

/-- A stack is determined by its activations. -/
theorem ext_callers {s t : CallStack} (same : s.callers = t.callers) : s = t := by
  obtain ⟨callers, height, rfl⟩ := s
  obtain ⟨_, _, rfl⟩ := t
  cases same
  rfl

/-- What is popped was pushed. -/
theorem eq_push_of_pop? {s below : CallStack} {caller : Caller}
    (h : s.pop? = some (caller, below)) : s = below.push caller := by
  apply ext_callers
  obtain ⟨_ | ⟨top, callers⟩, height, height_eq⟩ := s
  · cases h
  · cases h
    rfl

end CallStack

structure Machine where
  active : Frame
  stack : CallStack
  /-- The calls of natives carried out so far, the latest first. -/
  calls : List NativeCall
  deriving DecidableEq, Inhabited

def Machine.depth (m : Machine) : Nat := m.stack.height + 1

/-- What a step leads to. -/
inductive Progress where
  | running (m : Machine)
  | halted (result : Except ExecutionError Float)
  deriving Inhabited

namespace Engine

/-- Starts an activation on top of `depth` others. The depth is checked before the arguments are
counted. -/
def activate (e : Engine) (depth : Nat) (target : Target) (args : List Float) :
    Except ExecutionError Frame :=
  if e.limit ≤ depth then .error (.stackOverflow e.limit)
  else if target.function.params.length = args.length then .ok (.enter target args)
  else .error (.callArity target.function.name target.function.params.length args.length)

/-- Carries out a call whose arguments are read; `caller` is the activation behind the call. -/
def call (e : Engine) (m : Machine) (caller : Caller) (callee : String) (args : List Float) :
    Progress :=
  match e.resolve? m.active.target.unit callee with
  | none => .halted (.error (.unresolvedSymbol callee))
  | some (.native native) =>
    match native.call args with
    | .error error => .halted (.error error)
    | .ok value =>
      .running { m with active := caller.resume value, calls := ⟨native, args⟩ :: m.calls }
  | some (.body target) =>
    match e.activate m.depth target args with
    | .error error => .halted (.error error)
    | .ok frame => .running { m with active := frame, stack := m.stack.push caller }

/-- Hands a value that was returned to the activation that waits for it, which assigns it at once.
If none waits the run ends. -/
def giveBack (m : Machine) (value : Float) : Progress :=
  match m.stack.pop? with
  | none => .halted (.ok value)
  | some (caller, below) => .running { m with active := caller.resume value, stack := below }

/-- Carries out the next instruction of the active activation, or its return. -/
def step (e : Engine) (m : Machine) : Progress :=
  match m.active.pending with
  | [] =>
    match m.active.result with
    | .error error => .halted (.error error)
    | .ok value => giveBack m value
  | instruction :: pending =>
    let next := { m.active with pending := pending }
    match instruction with
    | .call dest callee args =>
      match args.mapM m.active.demand with
      | .error error => .halted (.error error)
      | .ok values => e.call m ⟨next, dest⟩ callee values
    | instruction =>
      match instruction.evaluate m.active.read with
      | some value => .running { m with active := next.assign instruction.dest value }
      | none =>
        .halted (.error (.engine
          (.undefinedOperands m.active.target.function.name instruction.dest)))

end Engine

end ScalarLang
