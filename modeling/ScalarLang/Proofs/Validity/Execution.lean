import ScalarLang.Proofs.Evaluation.Safety
import ScalarLang.Proofs.Evaluation.Trace
import ScalarLang.Proofs.Validity.Linking

/-!
# Valid code has no faults

The check of a function goes through its text and keeps the names that may be read at each place.
An activation that gets to a place has values for all of them (`Frame.Sound`), whatever its calls
have come to. So nothing is missing in a run of valid units: no operand, no returned value and
no terminator (`Engine.run_of_valid`).
-/

namespace ScalarLang

open Code

namespace Frame

/-- The scope that an activation has reached. -/
def scope (f : Frame) : Scope := ⟨f.target.function.params, f.registers.map Prod.fst⟩

/-- The parameters have values, and what is left of the body is in order in the scope that the
activation has reached. -/
structure Sound (f : Frame) : Prop where
  arguments : ∀ name ∈ f.target.function.params, (f.arguments.lookup name).isSome
  pending : scopeViolations f.scope f.pending = []
  terminator : f.target.entry.terminatorViolation? (f.scope.assignAll f.pending) = none

namespace Sound

variable {f : Frame}

/-- What is in scope has a value. -/
theorem isSome_read (h : f.Sound) {o : Operand} (ho : f.scope.operandViolation? o = none) :
    (f.read o).isSome := by
  cases o with
  | constant value => rfl
  | argument name => exact h.arguments name (Scope.operandViolation?_argument_eq_none_iff.1 ho)
  | register name =>
      have hname := Scope.operandViolation?_register_eq_none_iff.1 ho
      obtain ⟨pair, hpair, rfl⟩ := List.mem_map.1 hname
      exact List.lookup_isSome_iff.2 ⟨pair, hpair, beq_self_eq_true _⟩

/-- An activation of a valid function is sound at its start. -/
theorem enter {m : Module} {target : Target} (hvalid : target.function.Valid m)
    (hentry : target.function.entryBlock? = some target.entry) {args : List Float}
    (hcount : target.function.params.length = args.length) : (Frame.enter target args).Sound := by
  obtain ⟨later, hblocks⟩ := List.head?_eq_some_iff.1 hentry
  have hscoped := (Function.valid_iff.1 hvalid).1.blocks
  rw [hblocks] at hscoped
  obtain ⟨hpending, hterminator, -⟩ := blockScopeViolations_cons_eq_nil_iff.1 hscoped
  refine ⟨fun name hname => ?_, hpending, hterminator⟩
  exact Option.isSome_iff_exists.2 (Definition.exists_lookup_zip hcount hname)

/-- A sound activation is sound behind its next instruction, whatever value that has. -/
theorem next (h : f.Sound) {i : Instruction} {pending : List Instruction}
    (hpending : f.pending = i :: pending) (value : Float) :
    ({ f with pending := pending }.assign i.dest value).Sound := by
  have hscope := h.pending
  have hterminator := h.terminator
  rw [hpending] at hscope hterminator
  obtain ⟨-, hfree, hrest⟩ := scopeViolations_cons_eq_nil_iff.1 hscope
  have hafter : f.scope.assign i.dest = ({ f with pending := pending }.assign i.dest value).scope :=
    Scope.assign_of_isFree hfree
  refine ⟨h.arguments, hafter ▸ hrest, ?_⟩
  rw [← hafter]
  exact hterminator

/-- The operands of the next instruction have values. -/
theorem isSome_operands (h : f.Sound) {i : Instruction} {pending : List Instruction}
    (hpending : f.pending = i :: pending) : ∀ o ∈ i.operands, (f.read o).isSome := by
  have hscope := h.pending
  rw [hpending] at hscope
  exact fun o ho => h.isSome_read ((scopeViolations_cons_eq_nil_iff.1 hscope).1 o ho)

/-- Behind its last instruction a sound activation returns. -/
theorem exists_result (h : f.Sound) (hpending : f.pending = []) :
    ∃ value, f.result = .ok value := by
  have hterminator := h.terminator
  rw [hpending, Block.terminatorViolation?] at hterminator
  rw [result]
  split at hterminator
  · cases hterminator
  next o ho =>
    obtain ⟨value, hvalue⟩ := Option.isSome_iff_exists.1 (h.isSome_read hterminator)
    rw [ho]
    exact ⟨value, demand_of_read hvalue⟩

end Sound

/-- Operands that can be read have values. -/
theorem exists_mapM_demand {f : Frame} {args : List Operand}
    (h : ∀ o ∈ args, (f.read o).isSome) : ∃ values, args.mapM f.demand = .ok values := by
  induction args with
  | nil => exact ⟨[], rfl⟩
  | cons arg args ih =>
      obtain ⟨harg, hargs⟩ := List.forall_mem_cons.1 h
      obtain ⟨value, hvalue⟩ := Option.isSome_iff_exists.1 harg
      obtain ⟨values, hvalues⟩ := ih hargs
      rw [List.mapM_cons, demand_of_read hvalue, hvalues]
      exact ⟨value :: values, rfl⟩

end Frame

namespace Engine

variable {e : Engine} {symbol : String} {m : Machine}

theorem ofProgram_of_activate {depth : Nat} {target : Target} {args : List Float}
    {error : ExecutionError} (h : e.activate depth target args = .error error) :
    error.OfProgram e.limit := by
  rw [activate] at h
  split at h
  · cases h
    exact .stackOverflow
  · split at h
    · cases h
    · cases h
      exact .callArity _ _ _

theorem ofProgram_of_call {caller : Caller} {callee : String} {values : List Float}
    {error : ExecutionError} (h : e.call m caller callee values = .halted (.error error)) :
    error.OfProgram e.limit := by
  rw [call] at h
  split at h
  · cases h
    exact .unresolvedSymbol callee
  next native _ =>
    split at h
    next hvalue =>
      cases h
      rw [Native.call] at hvalue
      split at hvalue
      · cases hvalue
      · cases hvalue
        exact .callArity _ _ _
    · cases h
  · split at h
    next hframe =>
      cases h
      exact ofProgram_of_activate hframe
    · cases h

/-- A step of a sound activation fails for reasons of the program only. -/
theorem Fails.ofProgram {error : ExecutionError} (h : e.Fails m error) (hsound : m.active.Sound) :
    error.OfProgram e.limit := by
  cases h with
  | result hpending hresult =>
      obtain ⟨value, hvalue⟩ := hsound.exists_result hpending
      rw [hvalue] at hresult
      cases hresult
  | arguments hpending hvalues =>
      obtain ⟨values, hok⟩ := Frame.exists_mapM_demand (hsound.isSome_operands hpending)
      exact nomatch hok.symm.trans hvalues
  | operands hpending hcallee hvalue =>
      obtain ⟨o, ho, hnone⟩ := Instruction.evaluate_eq_none_iff.1 hvalue hcallee
      have hsome := hsound.isSome_operands hpending o ho
      rw [hnone] at hsome
      cases hsome
  | call _ _ hcall => exact ofProgram_of_call hcall

namespace Visits

/-- In a run of valid units every activation is sound when its turn comes. -/
theorem sound (hvalid : ∀ unit ∈ e.units, unit.Valid) (h : e.Visits symbol m) :
    m.active.Sound := by
  have henter : ∀ target values, e.HasBody target →
      target.function.params.length = values.length →
      (Frame.enter target values).Sound ∧ e.HasBody (Frame.enter target values).target :=
    fun target values hbody hcount =>
      ⟨.enter (hvalid _ hbody.unit _ hbody.function) hbody.entry hcount, hbody⟩
  have hactivations := h.forall_activations (P := fun f => f.Sound ∧ e.HasBody f.target)
    (fun target htarget hcount => henter target [] (.of_entry htarget) hcount)
    (fun f i pending value hpending hf => ⟨hf.1.next hpending value, hf.2⟩)
    (fun f dest callee args pending target values _ hf hcallee hcount =>
      henter target values (hf.2.of_resolve? hcallee) hcount)
  exact hactivations.1.1

/-- In a run of valid units every activation has a terminator. -/
theorem isSome_terminator (hvalid : ∀ unit ∈ e.units, unit.Valid) (h : e.Visits symbol m) :
    ∀ f ∈ m.frames, f.target.entry.terminator.isSome := by
  intro f hf
  have hbody := h.hasBody f hf
  have hscoped := (Function.valid_iff.1 (hvalid _ hbody.unit _ hbody.function)).1
  exact Code.isSome_terminator hscoped.blocks _ (List.mem_of_mem_head? hbody.entry)

end Visits

/-- A run of valid units has no faults: its activations have terminators, and what they read and
what they return is there whenever a machine of the run comes to it. -/
theorem run_of_valid (hvalid : ∀ unit ∈ e.units, unit.Valid) (symbol : String) :
    (∀ fault, (e.run symbol).result ≠ .error (.engine fault)) ∧
      ∀ m, e.Visits symbol m → (∀ f ∈ m.frames, f.target.entry.terminator.isSome) ∧
        (∀ i ∈ m.active.pending.head?, ∀ o ∈ i.operands, (m.active.read o).isSome) ∧
        (m.active.pending = [] → ∃ value, m.active.result = .ok value) := by
  constructor
  · intro fault hresult
    rcases exists_halted hresult with hmissing | ⟨target, -, hactivate⟩ | ⟨last, hlast, hstep⟩
    · cases hmissing
    · cases ofProgram_of_activate hactivate
    · cases (fails_of_step hstep).ofProgram (hlast.sound hvalid)
  · intro m hm
    have hsound := hm.sound hvalid
    refine ⟨hm.isSome_terminator hvalid, fun i hi => ?_, hsound.exists_result⟩
    obtain ⟨pending, hpending⟩ := List.head?_eq_some_iff.1 hi
    exact hsound.isSome_operands hpending

/-- Two functions of different units that call each other, the first with a block behind its
entry. -/
theorem run_of_valid_recursion :
    let f : Function := ⟨"f", ["x"], [
      ⟨"entry", [.compare .less "cmptmp1" (.argument "x") (.constant 1),
        .widen "booltmp2" (.register "cmptmp1"), .call "calltmp3" "g" [.register "booltmp2"]],
        some (.register "calltmp3")⟩,
      ⟨"later", [], some (.register "booltmp2")⟩]⟩
    let g : Function := ⟨"g", ["y"], [
      ⟨"entry", [.call "calltmp1" "f" [.argument "y"]], some (.register "calltmp1")⟩]⟩
    let main : Function := ⟨"main", [], [
      ⟨"entry", [.call "calltmp1" "g" [.constant 0]], some (.register "calltmp1")⟩]⟩
    let older : Module := ⟨"older", [f, ⟨"g", ["z"], []⟩]⟩
    let newer : Module := ⟨"newer", [⟨"f", ["z"], []⟩, g, main]⟩
    let e : Engine := ⟨[newer, older], 5⟩
    (∀ unit ∈ e.units, unit.Valid) ∧
      ∀ fault, (e.run "main").result ≠ .error (.engine fault) := by
  intro f g main older newer e
  have hvalid : ∀ unit ∈ e.units, unit.Valid := List.forall_mem_cons.2
    ⟨(Module.complaints_eq_nil_iff newer).1 rfl,
      List.forall_mem_singleton.2 ((Module.complaints_eq_nil_iff older).1 rfl)⟩
  exact ⟨hvalid, (run_of_valid hvalid "main").1⟩

end Engine

end ScalarLang
