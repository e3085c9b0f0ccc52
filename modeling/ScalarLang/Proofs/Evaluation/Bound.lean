import ScalarLang.Proofs.Evaluation.Trace

/-!
# The length of a run

An activation takes at most one step for each instruction that is left of its body and one to
return, and each call in it the steps of a body that has less room for calls of its own
(`Engine.bodySteps`). Counted so over all activations (`Engine.stepsLeft`), every step uses up one
step at least, whether it goes on, returns or enters a body (`Engine.Steps.stepsLeft_lt`). So a run
ends within the steps of its entry, and never has more activations than the limit allows
(`Engine.run_halts`).
-/

namespace ScalarLang

open Code

namespace Engine

/-- The length of the longest body that is loaded. -/
def longestBody (e : Engine) : Nat :=
  ((e.units.flatMap Module.functions).filterMap fun f =>
    f.entryBlock?.map (·.instructions.length)).max?.getD 0

/-- The steps of a body at most, if it and what it calls may be `room` activations at a time. -/
def bodySteps (e : Engine) : (room : Nat) → Nat
  | 0 => 0
  | room + 1 => e.longestBody * (e.bodySteps room + 1) + 1

/-- The steps at most until all activations have returned, the active one listed first. -/
def stepsLeft (e : Engine) : List Frame → Nat
  | [] => 0
  | f :: below =>
    f.pending.length * (e.bodySteps (e.limit - (below.length + 1)) + 1) + 1 + e.stepsLeft below

/-- What a number of steps leads to, or fewer if the machine halts before. -/
def advance (e : Engine) : Nat → Machine → Progress
  | 0, m => .running m
  | steps + 1, m =>
    match e.step m with
    | .halted result => .halted result
    | .running later => e.advance steps later

variable {e : Engine} {symbol : String} {m later : Machine}

/-- No loaded body is longer than the longest. -/
theorem HasBody.length_le {t : Target} (h : e.HasBody t) :
    t.entry.instructions.length ≤ e.longestBody := by
  apply List.le_max?_getD_of_mem
  refine List.mem_filterMap.2 ⟨t.function, List.mem_flatMap.2 ⟨t.unit, h.unit, h.function⟩, ?_⟩
  rw [h.entry]
  rfl

/-- An activation with `room` activations allowed takes no more than its body may. -/
theorem HasBody.steps_enter_le {t : Target} (h : e.HasBody t) (room : Nat) :
    t.entry.instructions.length * (e.bodySteps room + 1) + 1 ≤ e.bodySteps (room + 1) :=
  Nat.succ_le_succ (Nat.mul_le_mul_right _ h.length_le)

/-- Every activation has a step left, if only to return. -/
theorem stepsLeft_lt_cons (e : Engine) (f : Frame) (below : List Frame) :
    e.stepsLeft below < e.stepsLeft (f :: below) := by
  rw [stepsLeft]
  omega

/-- Every step uses up a step. -/
theorem Steps.stepsLeft_lt (h : e.Steps m later) (hbody : e.HasBody m.active.target) :
    e.stepsLeft later.frames < e.stepsLeft m.frames := by
  cases h with
  | @back value caller below hpending _ hpop =>
      -- The value goes to a register of the caller, so there is as much left of it as there was.
      have hcallers : m.stack.callers = caller :: below.callers := by
        rw [CallStack.eq_push_of_pop? hpop, CallStack.callers_push]
      rw [Machine.frames, Machine.frames, hcallers]
      exact e.stepsLeft_lt_cons m.active (caller.frame :: below.callers.map Caller.frame)
  | @next i pending value calls hpending =>
      simp only [Machine.frames, stepsLeft, Frame.assign, hpending, List.length_cons, Nat.succ_mul]
      omega
  | @enter dest callee args pending target values hpending hcallee hdepth _ =>
      obtain ⟨room, hroom⟩ : ∃ room, e.limit - (m.stack.callers.length + 1) = room + 1 := by
        rw [Machine.depth, m.stack.height_eq] at hdepth
        exact ⟨e.limit - (m.stack.callers.length + 1) - 1, by omega⟩
      have hless : e.limit - (m.stack.callers.length + 1 + 1) = room := by omega
      have henter := (hbody.of_resolve? hcallee).steps_enter_le room
      simp only [Machine.frames, stepsLeft, CallStack.callers_push, List.map_cons,
        List.length_cons, List.length_map, Frame.enter, hpending, Nat.succ_mul, hroom, hless]
      omega

namespace Visits

theorem hasBody_active (h : e.Visits symbol m) : e.HasBody m.active.target :=
  h.hasBody m.active List.mem_cons_self

/-- A run never has more activations than the limit allows. -/
theorem length_frames_le (h : e.Visits symbol m) : m.frames.length ≤ e.limit := by
  induction h with
  | start _ hframe => exact (activate_eq_ok_iff.1 hframe).1
  | @step m later _ hstep ih =>
      cases steps_of_step hstep with
      | back _ _ hpop =>
          rw [Machine.frames, CallStack.eq_push_of_pop? hpop] at ih
          exact Nat.le_of_succ_le ih
      | next => exact ih
      | enter _ _ hdepth _ =>
          rw [Machine.depth, m.stack.height_eq] at hdepth
          simp only [Machine.frames, CallStack.callers_push, List.map_cons, List.length_cons,
            List.length_map]
          exact hdepth

/-- A run has no more steps left than its entry takes. -/
theorem stepsLeft_le (h : e.Visits symbol m) : e.stepsLeft m.frames ≤ e.bodySteps e.limit := by
  induction h with
  | @start target frame htarget hframe =>
      obtain ⟨hdepth, -, rfl⟩ := activate_eq_ok_iff.1 hframe
      have henter := (HasBody.of_entry htarget).steps_enter_le (e.limit - 1)
      rw [Nat.sub_add_cancel hdepth] at henter
      exact henter
  | step hm hstep ih =>
      have hlt := (steps_of_step hstep).stepsLeft_lt hm.hasBody_active
      exact Nat.le_of_lt (Nat.lt_of_lt_of_le hlt ih)

/-- A machine of a run halts within the steps that it has left. -/
theorem exists_advance (h : e.Visits symbol m) :
    ∃ steps ≤ e.stepsLeft m.frames, e.advance steps m = .halted (e.run symbol).result := by
  generalize hsize : e.stepsLeft m.frames = size
  induction size using Nat.strongRecOn generalizing m with
  | ind size ih =>
  cases hstep : e.step m with
  | halted result =>
      have hpos := e.stepsLeft_lt_cons m.active (m.stack.callers.map Caller.frame)
      refine ⟨1, hsize ▸ Nat.lt_of_le_of_lt (Nat.zero_le _) hpos, ?_⟩
      rw [advance, hstep, h.result_eq hstep]
  | running later =>
      have hlt := (steps_of_step hstep).stepsLeft_lt h.hasBody_active
      obtain ⟨steps, hle, hadvance⟩ := ih _ (hsize ▸ hlt) (h.step hstep) rfl
      refine ⟨steps + 1, by omega, ?_⟩
      rw [advance, hstep]
      exact hadvance

end Visits

/-- Every run ends: none of its machines has more activations than the limit allows, and each halts
with the result of the run, within the steps of the entry. -/
theorem run_halts (h : e.Visits symbol m) :
    m.frames.length ≤ e.limit ∧
      ∃ steps ≤ e.bodySteps e.limit, e.advance steps m = .halted (e.run symbol).result := by
  obtain ⟨steps, hle, hadvance⟩ := h.exists_advance
  exact ⟨h.length_frames_le, steps, Nat.le_trans hle h.stepsLeft_le, hadvance⟩

/-- Two functions of different units that call each other end at the limit. -/
theorem run_halts_recursion :
    let entry (callee : String) : Block :=
      ⟨"entry", [.call "calltmp1" callee []], some (.register "calltmp1")⟩
    let f : Function := ⟨"f", [], [entry "g"]⟩
    let g : Function := ⟨"g", [], [entry "f"]⟩
    let older : Module := ⟨"older", [f, ⟨"g", [], []⟩]⟩
    let newer : Module := ⟨"newer", [⟨"f", [], []⟩, g]⟩
    let e : Engine := ⟨[newer, older], 3⟩
    let caller : Caller := ⟨⟨⟨newer, g, entry "f"⟩, [], [], []⟩, "calltmp1"⟩
    let m : Machine := ⟨.enter ⟨older, f, entry "g"⟩ [], CallStack.empty.push caller, []⟩
    e.Visits "g" m ∧ m.frames.length ≤ 3 ∧
      ∃ steps ≤ 6, e.advance steps m = .halted (e.run "g").result := by
  intro entry f g older newer e caller m
  have hstart : e.Visits "g" ⟨.enter ⟨newer, g, entry "f"⟩ [], .empty, []⟩ := .start rfl rfl
  have hm : e.Visits "g" m := hstart.step rfl
  exact ⟨hm, run_halts hm⟩

end Engine

end ScalarLang
