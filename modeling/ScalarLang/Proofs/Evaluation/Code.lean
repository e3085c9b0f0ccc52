import Mathlib.Logic.Basic
import ScalarLang.Engine.Run

/-!
# Evaluation of code without a stack

`Engine.evaluate` is the recursive reading of the machine: the value of a body is
found by carrying out its instructions in order, and a call by evaluating the
body of its callee. The number of activations that may still be started is the
argument of the recursion. `Engine.finish_eq_settle` says that the machine on top
of any stack does the same, and `Engine.run_eq_toRun` that a run does.
-/

namespace ScalarLang

/-- A computation that may fail. Its state holds the calls of natives that were
carried out, the latest first; a failure keeps them. -/
abbrev Eval := EStateM ExecutionError (List NativeCall)

namespace Eval

/-- The result of a computation without effects. -/
def ofExcept {α : Type} : Except ExecutionError α → Eval α
  | .ok value => pure value
  | .error error => throw error

/-- The run of a computation from its start. -/
def toRun (x : Eval Float) : Run :=
  match x.run [] with
  | .ok value calls => ⟨.ok value, calls.reverse⟩
  | .error error calls => ⟨.error error, calls.reverse⟩

@[simp] theorem run_throw {α : Type} (error : ExecutionError) (calls : List NativeCall) :
    (throw error : Eval α).run calls = .error error calls := rfl

@[simp] theorem throw_bind {α β : Type} (error : ExecutionError) (f : α → Eval β) :
    (throw error : Eval α) >>= f = throw error := rfl

@[simp] theorem ofExcept_ok {α : Type} (value : α) : ofExcept (.ok value) = pure value := rfl

@[simp] theorem ofExcept_error {α : Type} (error : ExecutionError) :
    ofExcept (.error error : Except ExecutionError α) = throw error := rfl

end Eval

/-- Carries out a call of a native and records it. -/
def Native.perform (native : Native) (args : List Float) : Eval Float := do
  let value ← Eval.ofExcept (native.call args)
  modify (⟨native, args⟩ :: ·)
  return value

namespace Frame

/-- The activation behind a list of instructions, given what a call comes to. -/
def carryOut (call : String → List Float → Eval Float) (f : Frame) :
    List Code.Instruction → Eval Frame
  | [] => return f
  | .call dest callee args :: is => do
    let values ← Eval.ofExcept (args.mapM f.demand)
    let value ← call callee values
    (f.assign dest value).carryOut call is
  | i :: is =>
    match i.evaluate f.read with
    | some value => (f.assign i.dest value).carryOut call is
    | none => throw (.engine (.undefinedOperands f.target.function.name i.dest))

/-- What an activation returns behind a list of instructions. -/
def returnValue (call : String → List Float → Eval Float) (f : Frame)
    (is : List Code.Instruction) : Eval Float := do
  let f ← f.carryOut call is
  Eval.ofExcept f.result

end Frame

namespace Engine

/-- What a call comes to, given how to evaluate a body. -/
def dispatch (e : Engine) (evaluate : Target → List Float → Eval Float) (caller : Code.Module)
    (callee : String) (args : List Float) : Eval Float :=
  match e.resolve? caller callee with
  | none => throw (.unresolvedSymbol callee)
  | some (.native native) => native.perform args
  | some (.body target) => evaluate target args

/-- The value of a body, if `room` activations may be started. The room is looked at before the
arguments are counted. -/
def evaluate (e : Engine) : (room : Nat) → Target → List Float → Eval Float
  | 0, _, _ => throw (.stackOverflow e.limit)
  | room + 1, target, args =>
    if target.function.params.length = args.length then
      (Frame.enter target args).returnValue (e.dispatch (e.evaluate room) target.unit)
        target.entry.instructions
    else throw (.callArity target.function.name target.function.params.length args.length)

/-- What a run comes to once the active activation has returned. -/
def resume (e : Engine) (stack : CallStack) (value : Float) (calls : List NativeCall) : Run :=
  match stack.pop? with
  | none => ⟨.ok value, calls.reverse⟩
  | some (caller, below) => e.finish ⟨caller.resume value, below, calls⟩

/-- What a run comes to once the active activation has ended as `result` says. -/
def settle (e : Engine) (stack : CallStack) :
    EStateM.Result ExecutionError (List NativeCall) Float → Run
  | .ok value calls => e.resume stack value calls
  | .error error calls => ⟨.error error, calls.reverse⟩

end Engine

namespace Frame

@[simp] theorem target_assign (f : Frame) (register : String) (value : Float) :
    (f.assign register value).target = f.target := rfl

theorem carryOut_cons_of_not_call (call : String → List Float → Eval Float) (f : Frame)
    {i : Code.Instruction} (is : List Code.Instruction) (h : i.callee? = none) :
    f.carryOut call (i :: is) =
      match i.evaluate f.read with
      | some value => (f.assign i.dest value).carryOut call is
      | none => throw (.engine (.undefinedOperands f.target.function.name i.dest)) := by
  cases i with
  | call dest callee args => cases h
  | arithmetic op dest lhs rhs => rfl
  | compare op dest lhs rhs => rfl
  | widen dest value => rfl

theorem returnValue_cons_of_not_call (call : String → List Float → Eval Float) (f : Frame)
    {i : Code.Instruction} (is : List Code.Instruction) (h : i.callee? = none) :
    f.returnValue call (i :: is) =
      match i.evaluate f.read with
      | some value => (f.assign i.dest value).returnValue call is
      | none => throw (.engine (.undefinedOperands f.target.function.name i.dest)) := by
  rw [returnValue, carryOut_cons_of_not_call call f is h]
  cases i.evaluate f.read <;> rfl

theorem returnValue_call (call : String → List Float → Eval Float) (f : Frame)
    (dest callee : String) (args : List Code.Operand) (is : List Code.Instruction) :
    f.returnValue call (.call dest callee args :: is) =
      (do
        let values ← Eval.ofExcept (args.mapM f.demand)
        let value ← call callee values
        (f.assign dest value).returnValue call is) := by
  simp only [returnValue, carryOut, bind_assoc]

theorem carryOut_append (call : String → List Float → Eval Float) (f : Frame)
    (is js : List Code.Instruction) :
    f.carryOut call (is ++ js) = f.carryOut call is >>= fun g => g.carryOut call js := by
  induction is generalizing f with
  | nil => simp [carryOut]
  | cons i is ih =>
      cases h : i.callee? with
      | none =>
          rw [List.cons_append, carryOut_cons_of_not_call call f _ h,
            carryOut_cons_of_not_call call f _ h]
          cases i.evaluate f.read with
          | none => rfl
          | some value => exact ih _
      | some callee =>
          cases i with
          | call dest callee args => simp only [List.cons_append, carryOut, bind_assoc, ih]
          | arithmetic | compare | widen => cases h

end Frame

namespace Engine

/-- A machine that has nothing left to carry out returns. -/
theorem finish_nil (e : Engine) (f : Frame) (stack : CallStack) (calls : List NativeCall) :
    e.finish ⟨{ f with pending := [] }, stack, calls⟩ =
      e.settle stack ((Eval.ofExcept f.result).run calls) := by
  have hresult : ({ f with pending := [] } : Frame).result = f.result := rfl
  cases h : f.result with
  | error error =>
      have hstep : e.step ⟨{ f with pending := [] }, stack, calls⟩ = .halted (.error error) := by
        simp only [step, hresult, h]
      rw [finish_of_halted hstep]
      rfl
  | ok value =>
      have hstep : e.step ⟨{ f with pending := [] }, stack, calls⟩ =
          giveBack ⟨{ f with pending := [] }, stack, calls⟩ value := by
        simp only [step, hresult, h]
      cases hpop : stack.pop? with
      | none =>
          simp only [giveBack, hpop] at hstep
          rw [finish_of_halted hstep]
          simp [settle, resume, hpop]
      | some top =>
          simp only [giveBack, hpop] at hstep
          rw [finish_of_running hstep]
          simp [settle, resume, hpop]

/-- A machine carries out an instruction that is no call. -/
theorem finish_cons_of_not_call (e : Engine) (f : Frame) {i : Code.Instruction}
    (is : List Code.Instruction) (stack : CallStack) (calls : List NativeCall)
    (h : i.callee? = none) :
    e.finish ⟨{ f with pending := i :: is }, stack, calls⟩ =
      match i.evaluate f.read with
      | some value => e.finish ⟨{ f.assign i.dest value with pending := is }, stack, calls⟩
      | none =>
        ⟨.error (.engine (.undefinedOperands f.target.function.name i.dest)), calls.reverse⟩ := by
  have hread : ({ f with pending := i :: is } : Frame).read = f.read := rfl
  cases hi : i.evaluate f.read with
  | none =>
      apply finish_of_halted
      cases i with
      | call dest callee args => cases h
      | arithmetic | compare | widen => simp [step, hread, hi, Code.Instruction.dest]
  | some value =>
      apply finish_of_running
      cases i with
      | call dest callee args => cases h
      | arithmetic | compare | widen => simp [step, hread, hi, Code.Instruction.dest, Frame.assign]

/-- Everything that a machine can do at a call. -/
theorem finish_call (e : Engine) (f : Frame) (dest callee : String) (args : List Code.Operand)
    (is : List Code.Instruction) (stack : CallStack) (calls : List NativeCall) :
    e.finish ⟨{ f with pending := .call dest callee args :: is }, stack, calls⟩ =
      match args.mapM f.demand with
      | .error error => ⟨.error error, calls.reverse⟩
      | .ok values =>
        match e.resolve? f.target.unit callee with
        | none => ⟨.error (.unresolvedSymbol callee), calls.reverse⟩
        | some (.native native) =>
          match native.call values with
          | .error error => ⟨.error error, calls.reverse⟩
          | .ok value =>
            e.finish ⟨{ f.assign dest value with pending := is }, stack, ⟨native, values⟩ :: calls⟩
        | some (.body target) =>
          match e.activate (stack.height + 1) target values with
          | .error error => ⟨.error error, calls.reverse⟩
          | .ok frame =>
            e.finish ⟨frame, stack.push ⟨{ f with pending := is }, dest⟩, calls⟩ := by
  have hstep : e.step ⟨{ f with pending := .call dest callee args :: is }, stack, calls⟩ =
      match args.mapM f.demand with
      | .error error => .halted (.error error)
      | .ok values =>
        e.call ⟨{ f with pending := .call dest callee args :: is }, stack, calls⟩
          ⟨{ f with pending := is }, dest⟩ callee values := rfl
  cases hargs : args.mapM f.demand with
  | error error =>
      rw [hargs] at hstep
      exact finish_of_halted hstep
  | ok values =>
      simp only [hargs, call, Machine.depth] at hstep ⊢
      cases hcallee : e.resolve? f.target.unit callee with
      | none =>
          rw [hcallee] at hstep
          exact finish_of_halted hstep
      | some resolved =>
          cases resolved with
          | native native =>
              cases hvalue : native.call values <;> simp only [hcallee, hvalue] at hstep ⊢
              · exact finish_of_halted hstep
              · exact finish_of_running hstep
          | body target =>
              cases hframe : e.activate (stack.height + 1) target values <;>
                simp only [hcallee, hframe] at hstep ⊢
              · exact finish_of_halted hstep
              · exact finish_of_running hstep

/-- Evaluating a body on top of `depth` activations starts one and carries it out. -/
theorem evaluate_eq_activate (e : Engine) (depth : Nat) (target : Target) (args : List Float) :
    e.evaluate (e.limit - depth) target args =
      Eval.ofExcept (e.activate depth target args) >>= fun f =>
        f.returnValue (e.dispatch (e.evaluate (e.limit - (depth + 1))) f.target.unit)
          f.pending := by
  cases hroom : e.limit - depth with
  | zero =>
      have hfull : e.limit ≤ depth := by omega
      simp [evaluate, activate, hfull]
  | succ room =>
      have hfits : ¬ e.limit ≤ depth := by omega
      have hless : e.limit - (depth + 1) = room := by omega
      rw [evaluate, activate, if_neg hfits, hless]
      split <;> simp [Frame.enter]

/-- The machine on top of any stack carries out what is left of the active activation as the
recursive evaluation does, and returns to the stack. -/
theorem finish_eq_settle (e : Engine) (f : Frame) (is : List Code.Instruction) (stack : CallStack)
    (calls : List NativeCall) :
    e.finish ⟨{ f with pending := is }, stack, calls⟩ =
      e.settle stack
        ((f.returnValue (e.dispatch (e.evaluate (e.limit - (stack.height + 1))) f.target.unit)
          is).run calls) := by
  -- The callee of a call has less room, and what follows the call fewer instructions.
  generalize hspace : e.limit - (stack.height + 1) = room
  induction room using Nat.strongRecOn generalizing f is stack calls with
  | ind room deeper =>
  induction is generalizing f calls with
  | nil => exact e.finish_nil f stack calls
  | cons i is shorter =>
      cases hi : i.callee? with
      | none =>
          rw [finish_cons_of_not_call e f is stack calls hi,
            Frame.returnValue_cons_of_not_call _ f is hi]
          cases i.evaluate f.read with
          | none => rfl
          | some value => exact shorter (f.assign i.dest value) calls
      | some name =>
          cases i with
          | arithmetic | compare | widen => cases hi
          | call dest callee args =>
          rw [finish_call, Frame.returnValue_call]
          cases args.mapM f.demand with
          | error error => rfl
          | ok values =>
          rw [Eval.ofExcept_ok, pure_bind, dispatch]
          cases e.resolve? f.target.unit callee with
          | none => rfl
          | some resolved =>
          cases resolved with
          | native native =>
              cases hvalue : native.call values with
              | error error => simp [Native.perform, hvalue, settle]
              | ok value =>
                  simpa [Native.perform, hvalue] using shorter (f.assign dest value) _
          | body target =>
              simp only [← hspace, evaluate_eq_activate, bind_assoc]
              cases hframe : e.activate (stack.height + 1) target values with
              | error error => simp [settle]
              | ok frame =>
                  have hroom := lt_limit_of_activate hframe
                  have hbody := deeper (e.limit - (stack.height + 1 + 1)) (by omega) frame
                    frame.pending (stack.push ⟨{ f with pending := is }, dest⟩) calls rfl
                  simp only [Eval.ofExcept_ok, pure_bind]
                  refine hbody.trans ?_
                  rw [EStateM.run_bind]
                  cases (frame.returnValue _ frame.pending).run calls with
                  | error error calls => rfl
                  | ok value calls =>
                      rw [hspace]
                      exact shorter (f.assign dest value) calls

/-- A run evaluates the entry of the newest unit. -/
theorem run_eq_toRun (e : Engine) (symbol : String) :
    e.run symbol =
      match e.units.head?.bind (·.target? symbol) with
      | none => ⟨.error (.missingEntry symbol), []⟩
      | some target => (e.evaluate e.limit target []).toRun := by
  rw [run]
  cases e.units.head?.bind (·.target? symbol) with
  | none => rfl
  | some target =>
      have hevaluate := e.evaluate_eq_activate 0 target []
      rw [Nat.sub_zero] at hevaluate
      simp only [hevaluate]
      cases e.activate 0 target [] with
      | error error => rfl
      | ok frame =>
          rw [Eval.ofExcept_ok, pure_bind]
          have hheight : CallStack.empty.height = 0 := rfl
          refine (e.finish_eq_settle frame frame.pending .empty []).trans ?_
          rw [Eval.toRun, hheight]
          cases (frame.returnValue _ frame.pending).run [] <;> rfl

end Engine

end ScalarLang
