import ScalarLang.Proofs.Evaluation.Trace
import ScalarLang.Proofs.Session.Safety

/-!
# The calls of a run

Whatever activation a run is in, it carries out the code of a definition that was accepted,
in the loaded unit that holds the definition (`Engine.Executes`). So a call is one that the
text of that definition makes, its arguments have values, and a body of the caller's own
unit takes as many (`Engine.Visits.exists_values`, `Engine.Executes.length_params`).
-/

namespace ScalarLang

open Code

/-- Every loaded unit holds the definitions of one of the units. -/
theorem Loaded.exists_holds {units : Units} {modules : List Module} (h : Loaded units modules) :
    ∀ m ∈ modules, ∃ unit ∈ units, m.Holds unit := by
  induction h with
  | nil => nofun
  | bodiless _ ih =>
      intro m hm
      obtain ⟨unit, hunit, hholds⟩ := ih m hm
      exact ⟨unit, List.mem_cons_of_mem _ hunit, hholds⟩
  | cons _ hholds _ ih =>
      intro m hm
      rcases List.mem_cons.1 hm with rfl | hm
      · exact ⟨_, List.mem_cons_self, hholds⟩
      · obtain ⟨unit, hunit, hholds⟩ := ih m hm
        exact ⟨unit, List.mem_cons_of_mem _ hunit, hholds⟩

/-- The code of a definition calls what its text calls, with as many arguments. -/
theorem Definition.mem_calls_of_mem_target {d : Definition} {m : Module} {dest callee : String}
    {args : List Operand} (h : .call dest callee args ∈ (d.target m).entry.instructions) :
    ⟨callee, args.length⟩ ∈ d.body.calls := by
  have hsignatures : (d.target m).entry.instructions.filterMap Instruction.signature? =
      (d.body.lower 0).code.filterMap Instruction.signature? := foldInstructions_signatures [] _
  refine (d.body.signatures_lower 0).mem_iff.1 ?_
  rw [← hsignatures]
  exact List.mem_filterMap.2 ⟨_, h, rfl⟩

namespace Engine

variable {e : Engine} {units : Units} {symbol : String} {m : Machine}

/-- A body of the caller's own unit is what a call runs. -/
theorem resolve?_of_target? {caller : Module} {name : String} {target : Target}
    (h : caller.target? name = some target) : e.resolve? caller name = some (.body target) := by
  rw [resolve?, h]
  rfl

/-- A call from the newest unit runs the newest body of the name. -/
theorem resolve?_of_findSome? {caller : Module} {name : String} {target : Target}
    (hcaller : e.units.head? = some caller)
    (h : e.units.findSome? (·.target? name) = some target) :
    e.resolve? caller name = some (.body target) := by
  have hnewest : (caller.target? name).or (e.units.findSome? (·.target? name)) = some target := by
    rw [h]
    obtain ⟨older, hunits⟩ := List.head?_eq_some_iff.1 hcaller
    rw [hunits, List.findSome?_cons] at h
    cases hown : caller.target? name with
    | none => rfl
    | some target' =>
        rw [hown] at h
        exact h
  rw [resolve?, hnewest]

/-- A step fails for a fault of the code, or in a call whose arguments have values. -/
theorem step_error {error : ExecutionError} (h : e.step m = .halted (.error error)) :
    (∃ fault, error = .engine fault) ∨ ∃ dest callee args pending values,
      m.active.pending = .call dest callee args :: pending ∧
      args.mapM m.active.demand = .ok values ∧ values.length = args.length ∧
      e.call m ⟨{ m.active with pending := pending }, dest⟩ callee values =
        .halted (.error error) := by
  cases fails_of_step h with
  | result _ hresult => exact .inl (Frame.fault_of_result hresult)
  | arguments _ hvalues => exact .inl (Frame.fault_of_mapM_demand hvalues)
  | operands => exact .inl ⟨_, rfl⟩
  | call hpending hvalues hcall =>
      exact .inr ⟨_, _, _, _, _, hpending, hvalues, Frame.length_of_mapM_demand hvalues, hcall⟩

/-- A call of a body that fails for the number of arguments fails for that of the body. -/
theorem callArity_of_call {caller : Caller} {callee name : String} {values : List Float}
    {expected found : Nat} {target : Target}
    (hcallee : e.resolve? m.active.target.unit callee = some (.body target))
    (h : e.call m caller callee values = .halted (.error (.callArity name expected found))) :
    target.function.name = name ∧ target.function.params.length = expected ∧
      values.length = found ∧ expected ≠ found := by
  simp only [call, hcallee, activate] at h
  split at h
  next hframe =>
    cases h
    split at hframe
    · cases hframe
    · split at hframe
      · cases hframe
      next hcount =>
        cases hframe
        exact ⟨rfl, rfl, rfl, hcount⟩
  · cases h

/-- The instructions are left of the code of a definition, in the loaded unit that holds it. -/
inductive Executes (e : Engine) (units : Units) : Target → List Instruction → Prop
  | code {m : Module} {own : List Definition} {d : Definition} {pending : List Instruction} :
      m ∈ e.units → own ∈ units → m.Holds own → d ∈ own →
      pending <:+ (d.target m).entry.instructions → Executes e units (d.target m) pending

namespace Executes

variable {target : Target} {pending : List Instruction}

/-- Entering a body of a loaded unit. -/
theorem enter (hloaded : Loaded units e.units) {m : Module} (hm : m ∈ e.units) {name : String}
    (htarget : m.target? name = some target) :
    e.Executes units target target.entry.instructions := by
  obtain ⟨own, hown, hholds⟩ := hloaded.exists_holds m hm
  rw [hholds.target?_eq] at htarget
  obtain ⟨d, hfind, rfl⟩ := Option.map_eq_some_iff.1 htarget
  exact .code hm hown hholds (List.mem_of_find?_eq_some hfind) List.suffix_rfl

theorem next {i : Instruction} (h : e.Executes units target (i :: pending)) :
    e.Executes units target pending := by
  obtain ⟨hm, hown, hholds, hd, hsuffix⟩ := h
  exact .code hm hown hholds hd ((List.suffix_cons i pending).trans hsuffix)

theorem unit_mem (h : e.Executes units target pending) : target.unit ∈ e.units := by
  obtain ⟨hm⟩ := h
  exact hm

theorem exists_holds (h : e.Executes units target pending) :
    ∃ own ∈ units, target.unit.Holds own := by
  obtain ⟨-, hown, hholds⟩ := h
  exact ⟨_, hown, hholds⟩

/-- A call is one that the text of a definition makes, among whatever definitions its unit holds. -/
theorem exists_call {dest callee : String} {args : List Operand} {own : List Definition}
    (h : e.Executes units target (.call dest callee args :: pending))
    (hholds : target.unit.Holds own) :
    ∃ d ∈ own, target.function = d.compiled ∧ ⟨callee, args.length⟩ ∈ d.body.calls := by
  obtain @⟨m, _, d', _, -, -, hholds', hd', hsuffix⟩ := h
  obtain ⟨d, hd, hfunction⟩ := hholds.bodies d'.compiled (hholds'.compiled d' hd') rfl
  have hentry : (d'.target m).entry = (d.target m).entry := Option.some.inj <| by
    rw [Definition.target, Definition.target, ← d'.entryBlock?_compiled, ← d.entryBlock?_compiled,
      hfunction]
  have hmem : .call dest callee args ∈ (d.target m).entry.instructions := by
    rw [← hentry]
    exact hsuffix.subset List.mem_cons_self
  exact ⟨d, hd, hfunction, Definition.mem_calls_of_mem_target hmem⟩

/-- A call of a body of the same unit passes as many arguments as it has parameters. -/
theorem length_params {dest callee : String} {args : List Operand}
    (h : e.Executes units target (.call dest callee args :: pending)) {called : Target}
    (hcalled : target.unit.target? callee = some called) :
    called.function.params.length = args.length := by
  obtain ⟨own, -, hholds⟩ := h.exists_holds
  obtain ⟨d, hd, -, hcall⟩ := h.exists_call hholds
  have hprovides := Module.provides_of_mem hholds.nodup (hholds.linked d hd _ hcall)
  obtain ⟨-, hfind, -⟩ := Module.of_target? hcalled
  rw [Module.Provides] at hprovides
  exact congrArg Signature.arity
    (Option.some.inj ((congrArg (Option.map Function.signature) hfind).symm.trans hprovides))

end Executes

/-- Every activation of a run carries out the code of a definition. -/
theorem Visits.executes (hloaded : Loaded units e.units) (h : e.Visits symbol m) :
    ∀ f ∈ m.frames, e.Executes units f.target f.pending := by
  refine h.forall_frames (P := e.Executes units) ?_ (fun _ _ _ => Executes.next) ?_
  · intro target htarget
    obtain ⟨unit, hunit, htarget⟩ := Option.bind_eq_some_iff.1 htarget
    exact .enter hloaded (List.mem_of_mem_head? hunit) htarget
  · intro caller dest callee args pending target hcaller hcallee
    obtain ⟨unit, hunit, htarget⟩ := exists_target?_of_resolve? hcallee
    refine .enter hloaded ?_ htarget
    rcases List.mem_cons.1 hunit with rfl | hunit
    · exact hcaller.unit_mem
    · exact hunit

/-- If the run fails only for reasons of the program, the arguments of its calls have values. -/
theorem Visits.exists_values (h : e.Visits symbol m) {limit : Nat}
    (hprogram : ∀ error, (e.run symbol).result = .error error → error.OfProgram limit)
    {dest callee : String} {args : List Operand} {pending : List Instruction}
    (hcall : m.active.pending = .call dest callee args :: pending) :
    ∃ values, args.mapM m.active.demand = .ok values ∧ values.length = args.length := by
  obtain hvalues | ⟨fault, hfault⟩ := m.active.mapM_demand_cases args
  · exact hvalues
  · have hstep := step_call (e := e) hcall
    rw [hfault] at hstep
    cases hprogram _ (h.result_eq hstep)

end Engine

namespace Session

/-- The engine that an expression at the top level runs in. -/
def running (s : Session) : Engine := s.engine.load s.openUnit.module

theorem runTopLevel_fst (s : Session) (symbol : String) :
    (s.runTopLevel symbol).1 = s.running.run symbol := rfl

namespace Realizes

variable {s s' : Session} {settings : Settings} {t : TreeSession} {d : Definition}
  {signature : Signature}

/-- Code that was emitted for an expression is in the open unit, among what was there. -/
theorem emitted (h : s.Realizes settings t) (hemit : s.emitTopLevel d = (.ok signature, s')) :
    t.check d = .ok () ∧ s'.openUnit.module.Holds (d :: t.opened) ∧ s'.engine = s.engine := by
  have hcheck := h.emit_definition d
  rw [emitTopLevel_eq h.unbound] at hemit
  cases hd : t.check d with
  | error error =>
      rw [hd] at hcheck
      obtain ⟨_, hfailed, -⟩ := hcheck
      rw [hfailed] at hemit
      cases hemit
  | ok _ =>
      rw [hd] at hcheck
      obtain ⟨functions, registers, hs', -, hholds⟩ := hcheck
      rw [hs'] at hemit
      cases hemit
      exact ⟨rfl, hholds, rfl⟩

/-- Code is emitted for an expression that passes the check. -/
theorem exists_emitted (h : s.Realizes settings t) (hcheck : t.check d = .ok ()) :
    ∃ signature s', s.emitTopLevel d = (.ok signature, s') := by
  have hemit := h.emit_definition d
  rw [hcheck] at hemit
  obtain ⟨functions, registers, hs', -⟩ := hemit
  exact ⟨_, _, (emitTopLevel_eq h.unbound d).trans hs'⟩

/-- The engine that the expression runs in holds all definitions. -/
theorem loaded_running (h : s.Realizes settings t)
    (hemit : s.emitTopLevel d = (.ok signature, s')) :
    Loaded ((d :: t.opened) :: t.sealed) s'.running.units := by
  obtain ⟨-, hholds, hengine⟩ := h.emitted hemit
  rw [running, hengine]
  exact .cons (List.cons_ne_nil _ _) hholds h.loaded

/-- The run fails only for reasons of the program. -/
theorem ofProgram_running (h : s.Realizes settings t)
    (hemit : s.emitTopLevel d = (.ok signature, s')) (error : ExecutionError)
    (hresult : (s'.running.run d.prototype.name).result = .error error) :
    error.OfProgram t.limit := by
  rw [← runTopLevel_fst, h.run_emitted hemit] at hresult
  exact h.sound.ofProgram_run ⟨_, (TreeSession.check_eq_ok (h.emitted hemit).1).2⟩ hresult

end Realizes

end Session

end ScalarLang
