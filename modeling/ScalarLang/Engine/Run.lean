import ScalarLang.Engine.Machine

/-!
# Runs

A run steps from machine to machine until one halts. Every run ends
(`Engine.acc_follows`): an activation only ever gets shorter, and one that calls
goes on behind the call once the callee has returned; the callee has less room
for calls of its own.
-/

namespace ScalarLang

/-- The result of a run, with the calls of natives that it carried out, in order. -/
structure Run where
  result : Except ExecutionError Float
  calls : List NativeCall

namespace Run

def output (r : Run) : String := NativeCall.outputs r.calls

end Run

namespace Engine

/-- One machine follows another if a step leads from the second to the first. -/
def Follows (e : Engine) (later earlier : Machine) : Prop := e.step earlier = .running later

/-- The activation on top of a stack can go on to the end once it gets its value. -/
def Resumable (e : Engine) (stack : CallStack) : Prop :=
  ∀ caller below, stack.pop? = some (caller, below) →
    ∀ value calls, Acc e.Follows ⟨caller.resume value, below, calls⟩

theorem lt_limit_of_activate {e : Engine} {depth : Nat} {target : Target}
    {args : List Float} {frame : Frame} (h : e.activate depth target args = .ok frame) :
    depth < e.limit := by
  unfold activate at h
  split at h
  · cases h
  · omega

/-- A call leads to the activation behind it, or to an activation of a body on top of that. -/
theorem call_eq_running {e : Engine} {m later : Machine} {caller : Caller} {callee : String}
    {args : List Float} (h : e.call m caller callee args = .running later) :
    (∃ value calls, later = ⟨caller.resume value, m.stack, calls⟩) ∨
      (m.depth < e.limit ∧ ∃ frame calls, later = ⟨frame, m.stack.push caller, calls⟩) := by
  unfold call at h
  split at h
  · cases h
  · split at h
    · cases h
    · cases h
      exact .inl ⟨_, _, rfl⟩
  · split at h
    · cases h
    next activated =>
      cases h
      exact .inr ⟨lt_limit_of_activate activated, _, _, rfl⟩

/-- Every machine on top of a resumable stack runs to its end. -/
theorem acc_of_resumable (e : Engine) (stack : CallStack) (resumable : e.Resumable stack)
    (frame : Frame) (calls : List NativeCall) : Acc e.Follows ⟨frame, stack, calls⟩ := by
  generalize space : e.limit - stack.height = room
  induction room using Nat.strongRecOn generalizing stack frame calls with
  | ind room deeper =>
    generalize size : frame.pending.length = length
    induction length using Nat.strongRecOn generalizing frame calls with
    | ind length shorter =>
      refine ⟨_, fun later follows => ?_⟩
      simp only [Follows, step] at follows
      split at follows
      · split at follows
        · cases follows
        · unfold giveBack at follows
          split at follows
          · cases follows
          next caller below popped =>
            cases follows
            exact resumable caller below popped _ _
      next instruction pending found =>
        have fewer : pending.length < length := by rw [← size, found]; simp
        split at follows
        next dest callee args =>
          split at follows
          · cases follows
          next values read =>
            have waiting : e.Resumable (stack.push ⟨{ frame with pending := pending }, dest⟩) := by
              intro caller below popped value calls
              cases popped
              exact shorter _ fewer _ _ rfl
            rcases call_eq_running follows with ⟨value, calls, rfl⟩ | ⟨fits, frame, calls, rfl⟩
            · exact waiting _ _ rfl value calls
            · refine deeper _ ?_ _ waiting _ _ rfl
              simp only [Machine.depth, CallStack.height_push] at space fits ⊢
              omega
        · split at follows
          · cases follows
            exact shorter _ fewer _ _ rfl
          · cases follows

theorem resumable (e : Engine) (stack : CallStack) : e.Resumable stack := by
  generalize size : stack.callers = callers
  induction callers generalizing stack with
  | nil =>
    intro caller below popped
    rw [CallStack.eq_push_of_pop? popped] at size
    cases size
  | cons top callers ih =>
    intro caller below popped value calls
    rw [CallStack.eq_push_of_pop? popped] at size
    cases size
    exact acc_of_resumable e below (ih below rfl) _ _

/-- Every run ends. -/
theorem acc_follows (e : Engine) (m : Machine) : Acc e.Follows m :=
  acc_of_resumable e m.stack (e.resumable m.stack) m.active m.calls

theorem wellFounded_follows (e : Engine) : WellFounded e.Follows := ⟨e.acc_follows⟩

def finish (e : Engine) (m : Machine) : Run :=
  match h : e.step m with
  | .halted result => ⟨result, m.calls.reverse⟩
  | .running later =>
    have : e.Follows later m := h
    e.finish later
  termination_by e.wellFounded_follows.wrap m
  decreasing_by exact this

theorem finish_of_halted {e : Engine} {m : Machine} {result : Except ExecutionError Float}
    (h : e.step m = .halted result) : e.finish m = ⟨result, m.calls.reverse⟩ := by
  rw [finish]
  split <;> simp_all

theorem finish_of_running {e : Engine} {m later : Machine} (h : e.step m = .running later) :
    e.finish m = e.finish later := by
  rw [finish]
  split <;> simp_all

/-- Runs the body of `symbol` in the newest unit, without arguments. -/
def run (e : Engine) (symbol : String) : Run :=
  match e.units.head?.bind (·.target? symbol) with
  | none => ⟨.error (.missingEntry symbol), []⟩
  | some target =>
    match e.activate 0 target [] with
    | .error error => ⟨.error error, []⟩
    | .ok frame => e.finish ⟨frame, .empty, []⟩

/-- Loads a unit, runs `symbol` in it, and unloads `symbol` again. What else the unit defines
stays loaded. -/
def execute (e : Engine) (unit : Code.Module) (symbol : String) : Run × Engine :=
  let loaded := e.load unit
  (loaded.run symbol, loaded.unload symbol)

end Engine

end ScalarLang
