import ScalarLang.Proofs.Evaluation.Code
import ScalarLang.Proofs.Evaluation.Trace

/-!
# The limit of activations

Two engines with the same units and different limits take the same steps until the one with the
lower limit has no room for an activation (`Engine.cutsOff_step`). The other one then goes on by
itself, and what was called of natives stays called (`Engine.prefix_calls_finish`). So a limit
decides where a run is cut off and nothing else (`Engine.run_of_limit_le`).
-/

namespace ScalarLang

open Code

/-- There was no room for another activation. -/
def Overflows : Except ExecutionError Float → Prop
  | .error (.stackOverflow _) => True
  | .error _ | .ok _ => False

/-- The first of two steps is the second one, or it is cut off at the limit. -/
inductive Progress.CutsOff (limit : Nat) : Progress → Progress → Prop
  | running (later : Machine) : CutsOff limit (.running later) (.running later)
  | halted {result : Except ExecutionError Float} : ¬ Overflows result →
      CutsOff limit (.halted result) (.halted result)
  | cut (progress : Progress) : CutsOff limit (.halted (.error (.stackOverflow limit))) progress

/-- The first of two runs is the second one, or it is cut off at the limit, where the second one
goes on. -/
inductive Run.CutsOff (limit : Nat) : Run → Run → Prop
  | same {run : Run} : ¬ Overflows run.result → CutsOff limit run run
  | cut {calls : List NativeCall} {run : Run} : calls <+: run.calls →
      CutsOff limit ⟨.error (.stackOverflow limit), calls⟩ run

theorem Native.not_overflows_call {native : Native} {args : List Float} {error : ExecutionError}
    (h : native.call args = .error error) : ¬ Overflows (.error error) := by
  rw [Native.call] at h
  split at h
  · cases h
  · cases h
    exact not_false

/-- A fault of the code is no overflow. -/
theorem not_overflows_of_fault {error : ExecutionError} (h : ∃ fault, error = .engine fault) :
    ¬ Overflows (.error error) := by
  obtain ⟨fault, rfl⟩ := h
  exact not_false

namespace Engine

variable {units : List Module} {limit limit' : Nat} {symbol : String}

/-- Where the lower limit has room for an activation, the limit does not matter. -/
theorem activate_of_limit_le (h : limit ≤ limit') (depth : Nat) (target : Target)
    (args : List Float) :
    activate ⟨units, limit⟩ depth target args = .error (.stackOverflow limit) ∨
      activate ⟨units, limit'⟩ depth target args = activate ⟨units, limit⟩ depth target args ∧
        ∀ error, activate ⟨units, limit⟩ depth target args = .error error →
          ¬ Overflows (.error error) := by
  by_cases hfull : limit ≤ depth
  · exact .inl (if_pos hfull)
  · have hroom : ¬ limit' ≤ depth := by omega
    refine .inr ?_
    rw [activate, activate, if_neg hfull, if_neg hroom]
    refine ⟨rfl, fun error herror => ?_⟩
    split at herror
    · cases herror
    · cases herror
      exact not_false

theorem cutsOff_call (h : limit ≤ limit') (m : Machine) (caller : Caller) (callee : String)
    (args : List Float) :
    Progress.CutsOff limit (call ⟨units, limit⟩ m caller callee args)
      (call ⟨units, limit'⟩ m caller callee args) := by
  have hcallee : resolve? ⟨units, limit'⟩ m.active.target.unit callee =
      resolve? ⟨units, limit⟩ m.active.target.unit callee := rfl
  rw [call, call, hcallee]
  cases resolve? ⟨units, limit⟩ m.active.target.unit callee with
  | none => exact .halted not_false
  | some resolved =>
      cases resolved with
      | native native =>
          dsimp only
          cases hvalue : native.call args with
          | error error => exact .halted (Native.not_overflows_call hvalue)
          | ok value => exact .running _
      | body target =>
          dsimp only
          obtain hcut | ⟨hsame, hwithin⟩ := activate_of_limit_le h m.depth target args
          · rw [hcut]
            exact .cut _
          · rw [hsame]
            cases hframe : activate ⟨units, limit⟩ m.depth target args with
            | error error => exact .halted (hwithin error hframe)
            | ok frame => exact .running _

/-- A step does not depend on the limit, unless it is cut off. -/
theorem cutsOff_step (h : limit ≤ limit') (m : Machine) :
    Progress.CutsOff limit (step ⟨units, limit⟩ m) (step ⟨units, limit'⟩ m) := by
  cases hpending : m.active.pending with
  | nil =>
      simp only [step, hpending]
      cases hresult : m.active.result with
      | error error => exact .halted (not_overflows_of_fault (Frame.fault_of_result hresult))
      | ok value =>
          dsimp only [giveBack]
          cases m.stack.pop? with
          | some below => exact .running _
          | none => exact .halted not_false
  | cons i pending =>
      cases i with
      | call dest callee args =>
          rw [step_call hpending, step_call hpending]
          cases hvalues : args.mapM m.active.demand with
          | error error =>
              exact .halted (not_overflows_of_fault (Frame.fault_of_mapM_demand hvalues))
          | ok values => exact cutsOff_call h m _ callee values
      | arithmetic | compare | widen =>
          simp only [step, hpending]
          split
          · exact .running _
          · exact .halted (not_overflows_of_fault ⟨_, rfl⟩)

/-- A step keeps the calls of natives that were carried out. -/
theorem suffix_calls_of_step {e : Engine} {m later : Machine} (h : e.step m = .running later) :
    m.calls <:+ later.calls := by
  cases hpending : m.active.pending with
  | nil =>
      simp only [step, hpending] at h
      split at h
      · cases h
      · unfold giveBack at h
        split at h
        · cases h
        · cases h
          exact List.suffix_rfl
  | cons i pending =>
      cases i with
      | call dest callee args =>
          rw [step_call hpending] at h
          split at h
          · cases h
          · unfold call at h
            split at h
            · cases h
            next native _ =>
              split at h
              · cases h
              · cases h
                exact List.suffix_cons _ _
            · split at h
              · cases h
              · cases h
                exact List.suffix_rfl
      | arithmetic | compare | widen =>
          simp only [step, hpending] at h
          split at h
          · cases h
            exact List.suffix_rfl
          · cases h

/-- A run begins with the calls of natives that were carried out before. -/
theorem prefix_calls_finish (e : Engine) (m : Machine) :
    m.calls.reverse <+: (e.finish m).calls := by
  induction e.acc_follows m with
  | intro m _ ih =>
      cases hstep : e.step m with
      | halted result =>
          have hcalls : (e.finish m).calls = m.calls.reverse := by rw [finish_of_halted hstep]
          exact hcalls ▸ List.prefix_rfl
      | running later =>
          rw [finish_of_running hstep]
          exact (List.reverse_prefix.2 (suffix_calls_of_step hstep)).trans (ih later hstep)

/-- From the same machine on, a run under a lower limit is the same or is cut off. -/
theorem cutsOff_finish (h : limit ≤ limit') (m : Machine) :
    Run.CutsOff limit (finish ⟨units, limit⟩ m) (finish ⟨units, limit'⟩ m) := by
  induction acc_follows ⟨units, limit⟩ m with
  | intro m _ ih =>
      have hcuts : Progress.CutsOff limit (step ⟨units, limit⟩ m) (step ⟨units, limit'⟩ m) :=
        cutsOff_step h m
      generalize hstep : step ⟨units, limit⟩ m = progress at hcuts
      generalize hstep' : step ⟨units, limit'⟩ m = progress' at hcuts
      cases hcuts with
      | running later =>
          rw [finish_of_running hstep, finish_of_running hstep']
          exact ih later hstep
      | halted hwithin =>
          rw [finish_of_halted hstep, finish_of_halted hstep']
          exact .same hwithin
      | cut =>
          rw [finish_of_halted hstep]
          exact .cut (prefix_calls_finish _ m)

theorem cutsOff_run (h : limit ≤ limit') (symbol : String) :
    Run.CutsOff limit (run ⟨units, limit⟩ symbol) (run ⟨units, limit'⟩ symbol) := by
  rw [run, run]
  cases units.head?.bind (·.target? symbol) with
  | none => exact .same not_false
  | some target =>
      dsimp only
      obtain hcut | ⟨hsame, hwithin⟩ := activate_of_limit_le h 0 target []
      · rw [hcut]
        exact .cut List.nil_prefix
      · rw [hsame]
        cases hframe : activate ⟨units, limit⟩ 0 target [] with
        | error error => exact .same (hwithin error hframe)
        | ok frame => exact cutsOff_finish h _

/-- A limit only ever cuts off. A run that the lower limit has room for is the same under the
higher one, and a run that overflows under the higher one overflows under the lower one, with the
first of the same calls of natives. -/
theorem run_of_limit_le (units : List Module) (h : limit ≤ limit') (symbol : String) :
    let lower := run ⟨units, limit⟩ symbol
    let higher := run ⟨units, limit'⟩ symbol
    (lower.result ≠ .error (.stackOverflow limit) → higher = lower) ∧
      (higher.result = .error (.stackOverflow limit') →
        lower.result = .error (.stackOverflow limit) ∧ lower.calls <+: higher.calls) := by
  intro lower higher
  have hcuts : Run.CutsOff limit lower higher := cutsOff_run h symbol
  generalize lower = r, higher = r' at hcuts
  cases hcuts with
  | same hwithin =>
      refine ⟨fun _ => rfl, fun hoverflow => ?_⟩
      rw [hoverflow] at hwithin
      exact absurd trivial hwithin
  | cut hprefix => exact ⟨fun hne => absurd rfl hne, fun _ => ⟨rfl, hprefix⟩⟩

/-- A function that prints and calls itself is cut off, and one that calls another is not. -/
theorem run_of_limit_le_recursion :
    let entry (is : List Instruction) : Block := ⟨"entry", is, some (.register "calltmp1")⟩
    let f : Function := ⟨"f", [], [entry [.call "calltmp2" "printd" [.constant 1],
      .call "calltmp1" "f" []]]⟩
    let g : Function := ⟨"g", [], [entry [.call "calltmp1" "h" []]]⟩
    let h : Function := ⟨"h", [], [⟨"entry", [], some (.constant 1)⟩]⟩
    let units : List Module := [⟨"newer", [f, g]⟩, ⟨"older", [h]⟩]
    (run ⟨units, 2⟩ "g").result ≠ .error (.stackOverflow 2) ∧
      run ⟨units, 3⟩ "g" = run ⟨units, 2⟩ "g" ∧
      (run ⟨units, 3⟩ "f").result = .error (.stackOverflow 3) ∧
      (run ⟨units, 2⟩ "f").result = .error (.stackOverflow 2) ∧
      (run ⟨units, 2⟩ "f").calls <+: (run ⟨units, 3⟩ "f").calls := by
  intro entry f g h units
  have hg : (run ⟨units, 2⟩ "g").result ≠ .error (.stackOverflow 2) := by
    rw [run_eq_toRun]
    exact nofun
  have hf : (run ⟨units, 3⟩ "f").result = .error (.stackOverflow 3) := by
    rw [run_eq_toRun]
    rfl
  have hle : 2 ≤ 3 := by decide
  refine ⟨hg, (run_of_limit_le units hle "g").1 hg, hf, ?_⟩
  exact (run_of_limit_le units hle "f").2 hf

end Engine

end ScalarLang
