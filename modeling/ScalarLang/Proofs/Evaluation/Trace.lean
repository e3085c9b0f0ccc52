import ScalarLang.Engine.Run

/-!
# The machines of a run

A run passes through machines, from the one that enters its symbol to the one that halts
(`Engine.Visits`). What holds of every activation at its start, and goes on to hold while its
instructions are carried out, holds of the activations of every such machine
(`Engine.Visits.forall_activations`), and all of them are of bodies of loaded units
(`Engine.Visits.hasBody`). A run that fails does so in one of its machines
(`Engine.exists_halted`).
-/

namespace ScalarLang

/-- The activations of a machine, the active one first. -/
def Machine.frames (m : Machine) : List Frame := m.active :: m.stack.callers.map Caller.frame

/-- The activation as it stood at the call that it waits for. -/
def Caller.atCall (c : Caller) (callee : String) (args : List Code.Operand) : Frame :=
  { c.frame with pending := .call c.dest callee args :: c.frame.pending }

namespace Frame

variable {f : Frame} {args : List Code.Operand} {error : ExecutionError}

/-- An operand without a value is a fault of the code. -/
theorem fault_of_demand {arg : Code.Operand} (h : f.demand arg = .error error) :
    ∃ fault, error = .engine fault := by
  rw [demand] at h
  split at h
  · cases h
  · cases h
    exact ⟨_, rfl⟩

/-- An activation that returns nothing is a fault of the code. -/
theorem fault_of_result (h : f.result = .error error) : ∃ fault, error = .engine fault := by
  rw [result] at h
  split at h
  · exact fault_of_demand h
  · cases h
    exact ⟨_, rfl⟩

/-- Operands have values, as many as there are, or one of them is a fault of the code. -/
theorem mapM_demand_cases (f : Frame) (args : List Code.Operand) :
    (∃ values, args.mapM f.demand = .ok values ∧ values.length = args.length) ∨
      ∃ fault, args.mapM f.demand = .error (.engine fault) := by
  induction args with
  | nil => exact .inl ⟨[], rfl, rfl⟩
  | cons arg args ih =>
      rw [List.mapM_cons]
      cases harg : f.demand arg with
      | error error =>
          obtain ⟨fault, rfl⟩ := fault_of_demand harg
          exact .inr ⟨fault, rfl⟩
      | ok value =>
          obtain ⟨values, hargs, hlength⟩ | ⟨fault, hargs⟩ := ih
          · rw [hargs]
            exact .inl ⟨value :: values, rfl, congrArg (· + 1) hlength⟩
          · rw [hargs]
            exact .inr ⟨fault, rfl⟩

theorem fault_of_mapM_demand (h : args.mapM f.demand = .error error) :
    ∃ fault, error = .engine fault := by
  obtain ⟨values, hvalues, -⟩ | ⟨fault, hfault⟩ := f.mapM_demand_cases args
  · exact nomatch hvalues.symm.trans h
  · exact ⟨fault, Except.error.inj (h.symm.trans hfault)⟩

theorem length_of_mapM_demand {values : List Float} (h : args.mapM f.demand = .ok values) :
    values.length = args.length := by
  obtain ⟨values', hvalues, hlength⟩ | ⟨fault, hfault⟩ := f.mapM_demand_cases args
  · rw [Except.ok.inj (h.symm.trans hvalues)]
    exact hlength
  · exact nomatch hfault.symm.trans h

end Frame

namespace Code.Module

variable {m : Module} {name : String} {target : Target}

/-- A body that is found is in the unit, in the first function of the name. -/
theorem of_target? (h : m.target? name = some target) :
    target.unit = m ∧ m.find? name = some target.function ∧ target.function.name = name ∧
      target.function.entryBlock? = some target.entry := by
  simp only [target?, Option.pure_def, Option.bind_eq_bind, Option.bind_eq_some_iff,
    Option.some.injEq] at h
  obtain ⟨f, hfind, entry, hentry, rfl⟩ := h
  exact ⟨rfl, hfind, by simpa using List.find?_some hfind, hentry⟩

end Code.Module

namespace Engine

variable {e : Engine} {symbol : String} {m later : Machine}

/-- The machines that a run of `symbol` passes through. -/
inductive Visits (e : Engine) (symbol : String) : Machine → Prop
  | start {target : Target} {frame : Frame} :
      e.units.head?.bind (·.target? symbol) = some target →
      e.activate 0 target [] = .ok frame → Visits e symbol ⟨frame, .empty, []⟩
  | step {m later : Machine} : Visits e symbol m → e.step m = .running later →
      Visits e symbol later

/-- What a call of a body comes to: its activation on top of the caller, or a failure to enter
it. The depth is looked at before the arguments are counted. -/
inductive Enters (e : Engine) (m : Machine) (caller : Caller) (target : Target)
    (values : List Float) : Progress → Prop
  | activation : m.depth < e.limit → target.function.params.length = values.length →
      Enters e m caller target values
        (.running ⟨.enter target values, m.stack.push caller, m.calls⟩)
  | stackOverflow : e.limit ≤ m.depth →
      Enters e m caller target values (.halted (.error (.stackOverflow e.limit)))
  | callArity : m.depth < e.limit → target.function.params.length ≠ values.length →
      Enters e m caller target values (.halted (.error
        (.callArity target.function.name target.function.params.length values.length)))

/-- All that a step to another machine can be: the return to the activation below, going on behind
an instruction, or entering a body. -/
inductive Steps (e : Engine) (m : Machine) : Machine → Prop
  | back {value : Float} {caller : Caller} {below : CallStack} : m.active.pending = [] →
      m.active.result = .ok value → m.stack.pop? = some (caller, below) →
      Steps e m ⟨caller.resume value, below, m.calls⟩
  | next {i : Code.Instruction} {pending : List Code.Instruction} (value : Float)
      (calls : List NativeCall) : m.active.pending = i :: pending →
      Steps e m ⟨{ m.active with pending := pending }.assign i.dest value, m.stack, calls⟩
  | enter {dest callee : String} {args : List Code.Operand} {pending : List Code.Instruction}
      {target : Target} {values : List Float} :
      m.active.pending = .call dest callee args :: pending →
      e.resolve? m.active.target.unit callee = some (.body target) → m.depth < e.limit →
      target.function.params.length = values.length →
      Steps e m ⟨.enter target values, m.stack.push ⟨{ m.active with pending := pending }, dest⟩,
        m.calls⟩

/-- Why a step fails: the activation has nothing to return, an argument or an operand has no value,
or the call itself fails. -/
inductive Fails (e : Engine) (m : Machine) : ExecutionError → Prop
  | result {error : ExecutionError} : m.active.pending = [] → m.active.result = .error error →
      Fails e m error
  | arguments {dest callee : String} {args : List Code.Operand}
      {pending : List Code.Instruction} {error : ExecutionError} :
      m.active.pending = .call dest callee args :: pending →
      args.mapM m.active.demand = .error error → Fails e m error
  | operands {i : Code.Instruction} {pending : List Code.Instruction} :
      m.active.pending = i :: pending → i.callee? = none → i.evaluate m.active.read = none →
      Fails e m (.engine (.undefinedOperands m.active.target.function.name i.dest))
  | call {dest callee : String} {args : List Code.Operand} {pending : List Code.Instruction}
      {values : List Float} {error : ExecutionError} :
      m.active.pending = .call dest callee args :: pending →
      args.mapM m.active.demand = .ok values →
      e.call m ⟨{ m.active with pending := pending }, dest⟩ callee values =
        .halted (.error error) → Fails e m error

theorem activate_eq_ok_iff {depth : Nat} {target : Target} {args : List Float} {frame : Frame} :
    e.activate depth target args = .ok frame ↔ depth < e.limit ∧
      target.function.params.length = args.length ∧ frame = .enter target args := by
  rw [activate]
  split
  next hfull => simp [Nat.not_lt_of_le hfull]
  next hfits =>
    split
    next hcount => simp [Nat.lt_of_not_le hfits, hcount, eq_comm]
    next hcount => simp [hcount]

/-- The body of a call is in the unit of the caller or in a loaded one. -/
theorem exists_target?_of_resolve? {caller : Code.Module} {name : String} {target : Target}
    (h : e.resolve? caller name = some (.body target)) :
    ∃ m ∈ caller :: e.units, m.target? name = some target := by
  rw [resolve?] at h
  split at h
  next target' hfound =>
    cases h
    rcases Option.or_eq_some_iff.1 hfound with hown | ⟨-, hloaded⟩
    · exact ⟨caller, List.mem_cons_self, hown⟩
    · obtain ⟨m, hm, htarget⟩ := List.exists_of_findSome?_eq_some hloaded
      exact ⟨m, List.mem_cons_of_mem _ hm, htarget⟩
  · obtain ⟨native, -, heq⟩ := Option.map_eq_some_iff.1 h
    cases heq

/-- The body is one of a loaded unit. -/
structure HasBody (e : Engine) (t : Target) : Prop where
  unit : t.unit ∈ e.units
  function : t.function ∈ t.unit.functions
  entry : t.function.entryBlock? = some t.entry

namespace HasBody

variable {target : Target}

theorem of_target? {unit : Code.Module} (hunit : unit ∈ e.units) {name : String}
    (h : unit.target? name = some target) : e.HasBody target := by
  obtain ⟨rfl, hfind, -, hentry⟩ := Code.Module.of_target? h
  exact ⟨hunit, List.mem_of_find?_eq_some hfind, hentry⟩

/-- The entry of a run is a body of the newest unit. -/
theorem of_entry (h : e.units.head?.bind (·.target? symbol) = some target) :
    e.HasBody target := by
  obtain ⟨unit, hunit, htarget⟩ := Option.bind_eq_some_iff.1 h
  exact .of_target? (List.mem_of_mem_head? hunit) htarget

/-- What a loaded body calls is a loaded body. -/
theorem of_resolve? {t : Target} (ht : e.HasBody t) {callee : String}
    (h : e.resolve? t.unit callee = some (.body target)) : e.HasBody target := by
  obtain ⟨unit, hunit, htarget⟩ := exists_target?_of_resolve? h
  rcases List.mem_cons.1 hunit with rfl | hunit
  · exact .of_target? ht.unit htarget
  · exact .of_target? hunit htarget

end HasBody

section Step

variable {dest callee : String} {args : List Code.Operand} {pending : List Code.Instruction}

/-- A call reads its arguments first. -/
theorem step_call (hcall : m.active.pending = .call dest callee args :: pending) :
    e.step m = match args.mapM m.active.demand with
      | .error error => .halted (.error error)
      | .ok values => e.call m ⟨{ m.active with pending := pending }, dest⟩ callee values := by
  obtain ⟨⟨target, arguments, registers, _⟩, stack, calls⟩ := m
  cases hcall
  rfl

/-- A call that leads to a body enters it. -/
theorem enters_step (hcall : m.active.pending = .call dest callee args :: pending)
    {values : List Float} (hvalues : args.mapM m.active.demand = .ok values) {target : Target}
    (hcallee : e.resolve? m.active.target.unit callee = some (.body target)) :
    e.Enters m ⟨{ m.active with pending := pending }, dest⟩ target values (e.step m) := by
  rw [step_call hcall, hvalues]
  simp only [call, hcallee, activate]
  split
  next h =>
    split at h
    next hdepth =>
      cases h
      exact .stackOverflow hdepth
    next hdepth =>
      split at h
      · cases h
      next hcount =>
        cases h
        exact .callArity (Nat.lt_of_not_le hdepth) hcount
  next h =>
    split at h
    · cases h
    next hdepth =>
      split at h
      next hcount =>
        cases h
        exact .activation (Nat.lt_of_not_le hdepth) hcount
      · cases h

theorem steps_of_step (h : e.step m = .running later) : e.Steps m later := by
  cases hpending : m.active.pending with
  | nil =>
      simp only [step, hpending] at h
      split at h
      · cases h
      next value hresult =>
        unfold giveBack at h
        split at h
        · cases h
        next caller below hpop =>
          cases h
          exact .back hpending hresult hpop
  | cons i pending =>
      cases i with
      | call dest callee args =>
          rw [step_call hpending] at h
          split at h
          · cases h
          next values hvalues =>
            unfold call at h
            split at h
            · cases h
            next native hcallee =>
              split at h
              · cases h
              next value hvalue =>
                cases h
                exact .next value _ hpending
            next target hcallee =>
              split at h
              · cases h
              next frame hframe =>
                cases h
                obtain ⟨hdepth, hcount, rfl⟩ := activate_eq_ok_iff.1 hframe
                exact .enter hpending hcallee hdepth hcount
      | arithmetic | compare | widen =>
          simp only [step, hpending] at h
          split at h
          next value hvalue =>
            cases h
            exact .next value _ hpending
          · cases h

theorem fails_of_step {error : ExecutionError} (h : e.step m = .halted (.error error)) :
    e.Fails m error := by
  cases hpending : m.active.pending with
  | nil =>
      simp only [step, hpending] at h
      split at h
      next hresult =>
        cases h
        exact .result hpending hresult
      · unfold giveBack at h
        split at h <;> cases h
  | cons i pending =>
      cases i with
      | call dest callee args =>
          rw [step_call hpending] at h
          split at h
          next hvalues =>
            cases h
            exact .arguments hpending hvalues
          next values hvalues => exact .call hpending hvalues h
      | arithmetic | compare | widen =>
          simp only [step, hpending] at h
          split at h
          · cases h
          next hvalue =>
            cases h
            exact .operands hpending rfl hvalue

end Step

namespace Visits

/-- What holds of every activation at its start, and goes on to hold behind each instruction
whatever value its register gets, holds of the active activation, and of each that waits as it
stood at its call. -/
theorem forall_activations {P : Frame → Prop}
    (hentry : ∀ target, e.units.head?.bind (·.target? symbol) = some target →
      target.function.params.length = 0 → P (.enter target []))
    (hnext : ∀ f i pending value, f.pending = i :: pending → P f →
      P ({ f with pending := pending }.assign i.dest value))
    (hcall : ∀ f dest callee args pending target values,
      f.pending = .call dest callee args :: pending → P f →
      e.resolve? f.target.unit callee = some (.body target) →
      target.function.params.length = values.length → P (.enter target values))
    (h : e.Visits symbol m) :
    P m.active ∧ ∀ c ∈ m.stack.callers, ∃ callee args, P (c.atCall callee args) := by
  induction h with
  | @start target frame htarget hframe =>
      obtain ⟨-, hcount, rfl⟩ := activate_eq_ok_iff.1 hframe
      exact ⟨hentry target htarget hcount, List.forall_mem_nil _⟩
  | @step m later _ hstep ih =>
      obtain ⟨hactive, hcallers⟩ := ih
      cases steps_of_step hstep with
      | @back value caller below _ _ hpop =>
          rw [CallStack.eq_push_of_pop? hpop] at hcallers
          obtain ⟨⟨callee, args, hcaller⟩, hbelow⟩ := List.forall_mem_cons.1 hcallers
          exact ⟨hnext (caller.atCall callee args) (.call caller.dest callee args)
            caller.frame.pending value rfl hcaller, hbelow⟩
      | next value calls hpending => exact ⟨hnext _ _ _ value hpending hactive, hcallers⟩
      | @enter dest callee args pending target values hpending hcallee _ hcount =>
          refine ⟨hcall _ _ _ _ _ target values hpending hactive hcallee hcount, ?_⟩
          refine List.forall_mem_cons.2 ⟨⟨callee, args, ?_⟩, hcallers⟩
          rw [Caller.atCall, ← hpending]
          exact hactive

/-- What holds of the entry and of every body that is called, and goes on to hold behind each
instruction, holds of every activation. -/
theorem forall_frames {P : Target → List Code.Instruction → Prop}
    (hentry : ∀ target, e.units.head?.bind (·.target? symbol) = some target →
      P target target.entry.instructions)
    (hnext : ∀ target i pending, P target (i :: pending) → P target pending)
    (hcall : ∀ caller dest callee args pending target,
      P caller (.call dest callee args :: pending) →
      e.resolve? caller.unit callee = some (.body target) → P target target.entry.instructions)
    (h : e.Visits symbol m) : ∀ f ∈ m.frames, P f.target f.pending := by
  obtain ⟨hactive, hcallers⟩ := h.forall_activations (P := fun f => P f.target f.pending)
    (fun target htarget _ => hentry target htarget)
    (fun f i pending _ hpending hf => hnext f.target i pending (hpending ▸ hf))
    (fun f dest callee args pending target _ hpending hf hcallee _ =>
      hcall f.target dest callee args pending target (hpending ▸ hf) hcallee)
  refine List.forall_mem_cons.2 ⟨hactive, List.forall_mem_map.2 fun c hc => ?_⟩
  obtain ⟨callee, args, hcaller⟩ := hcallers c hc
  exact hnext _ _ _ hcaller

/-- Every activation is one of a loaded body. -/
theorem hasBody (h : e.Visits symbol m) : ∀ f ∈ m.frames, e.HasBody f.target :=
  h.forall_frames (P := fun target _ => e.HasBody target) (fun _ => .of_entry)
    (fun _ _ _ hbody => hbody) (fun _ _ _ _ _ _ hbody hcallee => hbody.of_resolve? hcallee)

/-- The run comes to what each of its machines comes to. -/
theorem run_eq_finish (h : e.Visits symbol m) : e.run symbol = e.finish m := by
  induction h with
  | start htarget hframe =>
      rw [run, htarget]
      simp only [hframe]
  | step _ hstep ih => rw [ih, finish_of_running hstep]

/-- If a machine of the run halts, the run ends with its result. -/
theorem result_eq (h : e.Visits symbol m) {result : Except ExecutionError Float}
    (hstep : e.step m = .halted result) : (e.run symbol).result = result := by
  rw [h.run_eq_finish, finish_of_halted hstep]

theorem exists_halted (h : e.Visits symbol m) {error : ExecutionError}
    (hresult : (e.finish m).result = .error error) :
    ∃ last, e.Visits symbol last ∧ e.step last = .halted (.error error) := by
  induction e.acc_follows m with
  | intro m _ ih =>
      cases hstep : e.step m with
      | halted result =>
          rw [finish_of_halted hstep] at hresult
          exact ⟨m, h, hstep.trans (congrArg Progress.halted hresult)⟩
      | running later =>
          rw [finish_of_running hstep] at hresult
          exact ih later hstep (h.step hstep) hresult

end Visits

/-- A run that fails cannot enter its symbol, or fails in a machine that it visits. -/
theorem exists_halted {error : ExecutionError} (h : (e.run symbol).result = .error error) :
    error = .missingEntry symbol ∨
    (∃ target, e.units.head?.bind (·.target? symbol) = some target ∧
      e.activate 0 target [] = .error error) ∨
    ∃ last, e.Visits symbol last ∧ e.step last = .halted (.error error) := by
  rw [run] at h
  cases htarget : e.units.head?.bind (·.target? symbol) with
  | none =>
      rw [htarget] at h
      cases h
      exact .inl rfl
  | some target =>
      simp only [htarget] at h
      cases hframe : e.activate 0 target [] with
      | error error' =>
          rw [hframe] at h
          cases h
          exact .inr (.inl ⟨target, rfl, hframe⟩)
      | ok frame =>
          simp only [hframe] at h
          exact .inr (.inr ((Visits.start htarget hframe).exists_halted h))

end Engine

end ScalarLang
