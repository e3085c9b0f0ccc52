import ScalarLang.Proofs.Evaluation.Code
import ScalarLang.Proofs.Evaluation.Trace

/-!
# The stack of a run

Every activation of a run is in its place (`Engine.Visits.placed`). One that waits has reached a
call: the call stands at its place and assigns the register that the value goes to, and what is left
to be carried out stands behind it (`Engine.Visits.waits`). So the stack is the recursion of the
evaluation, and a run comes to the same as that (`Engine.run_eq_evaluate`).
-/

namespace ScalarLang

open Code

namespace Engine.Visits

variable {e : Engine} {symbol : String} {m : Machine}

/-- Every activation of a run is in its place, and each that waits was so at its call. -/
theorem placed (h : e.Visits symbol m) :
    m.active.Placed ∧ ∀ c ∈ m.stack.callers, ∃ callee args, (c.atCall callee args).Placed :=
  h.forall_activations (fun target _ _ => Frame.placed_enter target [])
    (fun _ i _ value hpending hf => hf.assign hpending i.dest value)
    (fun _ _ _ _ _ target values _ _ _ _ => Frame.placed_enter target values)

/-- The place of an activation that waits is one of its body. The call whose value it waits for
stands there, and behind it what is left. -/
theorem waits (h : e.Visits symbol m) : ∀ c ∈ m.stack.callers, ∃ callee args,
    c.frame.target.entry.instructions[c.frame.next]? = some (.call c.dest callee args) ∧
      c.frame.target.entry.instructions.drop (c.frame.next + 1) = c.frame.pending := by
  intro c hc
  obtain ⟨callee, args, hplaced⟩ := h.placed.2 c hc
  -- whatever the value of the call is, the activation goes on behind it
  exact ⟨callee, args, hplaced.getElem?_next, hplaced.assign rfl c.dest 0⟩

end Engine.Visits

/-- A run on the stack comes to what the recursive evaluation of its entry comes to, with the same
calls of natives, and a value that is returned always finds the call that it was asked for by. -/
theorem Engine.run_eq_evaluate (e : Engine) (symbol : String) :
    (e.run symbol =
      match e.units.head?.bind (·.target? symbol) with
      | none => ⟨.error (.missingEntry symbol), []⟩
      | some target => (e.evaluate e.limit target []).toRun) ∧
      ∀ m, e.Visits symbol m → ∀ c ∈ m.stack.callers, ∃ callee args,
        c.frame.target.entry.instructions[c.frame.next]? = some (.call c.dest callee args) ∧
          c.frame.target.entry.instructions.drop (c.frame.next + 1) = c.frame.pending :=
  ⟨e.run_eq_toRun symbol, fun _ hm => hm.waits⟩

/-- A function that calls itself waits at its second instruction. -/
theorem Engine.run_eq_evaluate_recursion :
    let entry : Block := ⟨"entry", [.widen "booltmp1" (.constant 1), .call "calltmp2" "f" [],
      .arithmetic .add "addtmp3" (.register "booltmp1") (.register "calltmp2")],
      some (.register "addtmp3")⟩
    let f : Function := ⟨"f", [], [entry]⟩
    let unit : Module := ⟨"unit", [f]⟩
    let e : Engine := ⟨[unit], 3⟩
    let caller : Caller :=
      ⟨⟨⟨unit, f, entry⟩, [], [("booltmp1", 1)], entry.instructions.drop 2⟩, "calltmp2"⟩
    let m : Machine := ⟨.enter ⟨unit, f, entry⟩ [], CallStack.empty.push caller, []⟩
    e.run "f" = (e.evaluate 3 ⟨unit, f, entry⟩ []).toRun ∧ e.Visits "f" m ∧
      ∃ callee args, entry.instructions[1]? = some (.call "calltmp2" callee args) := by
  intro entry f unit e caller m
  have hstart : e.Visits "f" ⟨.enter ⟨unit, f, entry⟩ [], .empty, []⟩ := .start rfl rfl
  have hm : e.Visits "f" m := .step (hstart.step rfl) rfl
  obtain ⟨hrun, hwaits⟩ := e.run_eq_evaluate "f"
  obtain ⟨callee, args, hcall, -⟩ := hwaits m hm caller List.mem_cons_self
  exact ⟨hrun, hm, callee, args, hcall⟩

end ScalarLang
