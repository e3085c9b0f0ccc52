import ScalarLang.Proofs.Session.Filling
import ScalarLang.Proofs.Validity.Registers

/-!
# What a closed body is refused for

Closing a body validates it in its unit. The expression of the body was checked then, so
its callees are in the unit with their arities, its arguments are parameters and its
registers are assigned before they are read, each once. What remains is that a register
has the name of a parameter (`Session.violations_are_clashes`).
-/

namespace ScalarLang

open Code

namespace Code

/-- The violations of a body are those of registers that have the names of parameters. The registers
are numbered by the instructions that assign them. -/
structure ClashesOnly (params : List String) (code : List Instruction) (value : Operand)
    (violations : List Violation) : Prop where
  numbered : ∀ k (hk : k < code.length), code[k].dest = code[k].stem ++ Nat.repr (k + 1)
  ne_nil_iff : violations ≠ [] ↔ ∃ i ∈ code, i.dest ∈ params
  eq_clashes : violations =
    code.flatMap (Instruction.clashes params) ++ (value.clash? params).toList
  named : ∀ v ∈ violations, ∃ before i after, code = before ++ i :: after ∧ i.dest ∈ params ∧
    (v = .reassigned i.dest ∨ v = .undefinedRegister i.dest ∧
      ((∃ later ∈ after, .register i.dest ∈ later.operands) ∨ value = .register i.dest))

variable {params : List String} {v : Violation}

theorem Operand.eq_of_clash? {o : Operand} (h : o.clash? params = some v) :
    ∃ r ∈ params, o = .register r ∧ v = .undefinedRegister r := by
  cases o with
  | constant value | argument name => cases h
  | register name =>
      rw [clash?] at h
      split at h
      next hname =>
        cases h
        exact ⟨name, hname, rfl, rfl⟩
      · cases h

theorem Instruction.mem_clashes_iff {i : Instruction} : v ∈ i.clashes params ↔
    (∃ r ∈ params, .register r ∈ i.operands ∧ v = .undefinedRegister r) ∨
      i.dest ∈ params ∧ v = .reassigned i.dest := by
  rw [clashes, List.mem_append, List.mem_filterMap]
  refine or_congr ⟨?_, ?_⟩ ?_
  · rintro ⟨o, ho, hclash⟩
    obtain ⟨r, hr, rfl, rfl⟩ := Operand.eq_of_clash? hclash
    exact ⟨r, hr, ho, rfl⟩
  · rintro ⟨r, hr, ho, rfl⟩
    exact ⟨.register r, ho, if_pos hr⟩
  · by_cases hdest : i.dest ∈ params <;> simp [hdest]

/-- A clash names a register at its assignment or behind it, because no register is read before it
is assigned. -/
theorem Computes.exists_of_clash {is : List Instruction} {value : Operand}
    (h : Computes params [] is [value])
    (hv : v ∈ is.flatMap (Instruction.clashes params) ++ (value.clash? params).toList) :
    ∃ before i after, is = before ++ i :: after ∧ i.dest ∈ params ∧
      (v = .reassigned i.dest ∨ v = .undefinedRegister i.dest ∧
        ((∃ later ∈ after, .register i.dest ∈ later.operands) ∨ value = .register i.dest)) := by
  rcases List.mem_append.1 hv with hcode | hvalue
  · obtain ⟨i, hi, hclash⟩ := List.mem_flatMap.1 hcode
    obtain ⟨before, after, rfl⟩ := List.append_of_mem hi
    rcases Instruction.mem_clashes_iff.1 hclash with ⟨r, hr, hoperand, rfl⟩ | ⟨hdest, rfl⟩
    -- A register that is read was assigned in front of `i`: the split moves there, and `i` is one
    -- of the instructions behind it.
    · have hassigned : r ∈ before.map Instruction.dest :=
        h.reads.readable_of_split _ hoperand
      obtain ⟨j, hj, rfl⟩ := List.mem_map.1 hassigned
      obtain ⟨before', after', rfl⟩ := List.append_of_mem hj
      refine ⟨before', j, after' ++ i :: after, by simp, hr, .inr ⟨rfl, .inl ⟨i, ?_, hoperand⟩⟩⟩
      simp
    · exact ⟨before, i, after, rfl, hdest, .inl rfl⟩
  · obtain ⟨r, hr, rfl, rfl⟩ := Operand.eq_of_clash? (Option.mem_toList.1 hvalue)
    have hassigned : r ∈ is.map Instruction.dest := h.values _ List.mem_cons_self
    obtain ⟨j, hj, rfl⟩ := List.mem_map.1 hassigned
    obtain ⟨before, after, rfl⟩ := List.append_of_mem hj
    exact ⟨before, j, after, rfl, hr, .inr ⟨rfl, .inr rfl⟩⟩

end Code

/-- A checked definition can only be refused for clashing names. -/
theorem Definition.clashesOnly {d : Definition} {arity? : String → Option Nat}
    (h : d.body.check arity? d.prototype.params = .ok ()) :
    ClashesOnly d.prototype.params (d.body.lower 0).code (d.body.lower 0).value d.clashes where
  numbered k hk := by
    rw [(d.body.numbers_lower 0).code.dest_getElem k hk, Nat.zero_add]
  ne_nil_iff := by
    rw [Ne, clashes_eq_nil_iff h, registers]
    simp
  eq_clashes := clashes_eq h
  named v hv := by
    rw [clashes_eq h] at hv
    exact (d.body.computes_lower h [] 0).exists_of_clash hv

/-- Only names can be wrong with a complete body in its unit, once it is closed. -/
theorem Definition.violations_terminate {d : Definition} {t : Draft} {value : Operand}
    (h : t.names.Nodup) (hclosed : t.closed value = d.written)
    (hparams : d.prototype.repeated? = none)
    (hcalls : ∀ signature ∈ d.body.calls, signature ∈ t.openUnit.signatures) :
    (t.closed value).violations (t.openUnit.change t.name (·.terminate value)).module =
      d.clashes := by
  have hmodule : (t.openUnit.change t.name (·.terminate value)).module =
      ⟨t.unitName, t.before ++ t.closed value :: t.after⟩ :=
    congrArg (Code.Module.mk t.unitName) (Module.modifyFirst_append_cons _ (Draft.before_ne h) rfl)
  rw [hmodule, hclosed]
  exact violations_closed h hclosed hparams hcalls

namespace Session

variable {s opened filled : Session} {d : Definition} {value : Operand}

/-- A definition fails with what closing its body fails with. -/
theorem emitTopLevel_eq_error_iff (hopens : s.Opens d opened)
    (hfilled : opened.emit (d.body.emit opened.environment) = (.ok value, filled))
    {error : EmissionError} : (s.emitTopLevel d).1 = .error error ↔
      (filled.emit (Emit.closeBody d.prototype.name value)).1 = .error error := by
  obtain ⟨hdeclare, hopen⟩ := hopens
  rw [emitTopLevel, hdeclare]
  dsimp only
  rw [emitBody, hopen]
  dsimp only
  rw [emit_eq, emit_eq, Definition.fillBody, EStateM.run_bind, run_of_emit hfilled]
  dsimp only
  cases (Emit.closeBody d.prototype.name value).run filled.openUnit <;> simp

/-- A complete body is that of the definition, and its callees are in the unit. -/
theorem WellFormed.exists_complete (h : s.WellFormed) (hopens : s.Opens d opened)
    (hfilled : opened.emit (d.body.emit opened.environment) = (.ok value, filled)) :
    d.prototype.repeated? = none ∧ d.body.check opened.arity? d.prototype.params = .ok () ∧
      ∃ t : Draft, filled.openUnit = t.openUnit ∧ t.names.Nodup ∧ t.closed value = d.written ∧
        ∀ signature ∈ d.body.calls, signature ∈ t.openUnit.signatures := by
  obtain ⟨hname, before, after, -, hdrafts⟩ := h.drafts_of_opens hopens
  obtain ⟨declared, hadds, hrun⟩ := hdrafts.emits d.body
  rw [← hdrafts.openUnit, run_of_emit hfilled] at hrun
  cases hcheck : d.body.check opened.arity? d.prototype.params with
  | error error =>
      rw [hcheck] at hrun
      obtain ⟨code, latest, hrun⟩ := hrun
      cases hrun
  | ok _ =>
      rw [hcheck] at hrun
      obtain ⟨hrun, hcalls⟩ := hrun
      injection hrun with hvalue hunit
      refine ⟨Definition.repeated?_of_checkName hname, rfl, _, hunit, hadds.names_nodup _ _, ?_,
        hcalls⟩
      rw [hvalue]
      rfl

/-- Behind any requests, a body that is complete is refused exactly if one of its registers has the
name of a parameter, and then for such registers alone: for their assignments and for reading them
later. -/
theorem violations_are_clashes (settings : Settings) (u : OpenUnit) (engine : Engine)
    (requests : List Request)
    (hopens : ((attach settings u engine).performAll requests).Opens d opened)
    (hfilled : opened.emit (d.body.emit opened.environment) = (.ok value, filled)) :
    ∃ code, filled.openUnit.module.find? d.prototype.name =
        some ⟨d.prototype.name, d.prototype.params, [⟨"entry", code, none⟩]⟩ ∧
      let closed := filled.openUnit.change d.prototype.name (·.terminate value)
      let violations := Function.violations closed.module
        ⟨d.prototype.name, d.prototype.params, [⟨"entry", code, some value⟩]⟩
      ClashesOnly d.prototype.params code value violations ∧
        (filled.emit (Emit.closeBody d.prototype.name value)).1 =
          (if violations = [] then .ok ()
          else .error (.failure (.invalid d.prototype.name violations))) ∧
        ∀ error,
          (((attach settings u engine).performAll requests).emitTopLevel d).1 = .error error ↔
            (filled.emit (Emit.closeBody d.prototype.name value)).1 = .error error := by
  obtain ⟨hparams, hcheck, t, hunit, hnodup, hclosed, hcalls⟩ :=
    ((WellFormed.attach settings u engine).performAll requests).exists_complete hopens hfilled
  have hname : t.name = d.prototype.name := congrArg Function.name hclosed
  have hnames : t.params = d.prototype.params := congrArg Function.params hclosed
  have hblocks : t.code = (d.body.lower 0).code ∧ value = (d.body.lower 0).value := by
    simpa [Draft.closed, Definition.written] using congrArg Function.blocks hclosed
  obtain ⟨hcode, rfl⟩ := hblocks
  refine ⟨(d.body.lower 0).code, ?_, ?_⟩
  · rw [hunit, ← hname, Draft.find?_openUnit hnodup, Draft.function, hnames, hcode]
  · intro closed violations
    have hviolations : violations = d.clashes := by
      have hterminate := Definition.violations_terminate hnodup hclosed hparams hcalls
      rwa [hclosed, hname, ← hunit] at hterminate
    rw [hviolations]
    refine ⟨Definition.clashesOnly hcheck, ?_, fun _ => emitTopLevel_eq_error_iff hopens hfilled⟩
    rw [emit_eq, hunit, Definition.run_closeBody hnodup hclosed hparams hcalls]
    by_cases hclashes : d.clashes = [] <;> simp [hclashes]

/-- Behind `extern f()`, the body of `def g(calltmp1) f()+calltmp1` is refused for the register of
its call, which is assigned and then read. -/
theorem violations_are_clashes_call :
    let s := (attach .standard (.new "") (.new 3)).performAll [.declare ⟨"f", [], ⟨7, 10⟩⟩]
    let d : Definition := ⟨⟨"g", ["calltmp1"], ⟨4, 15⟩⟩,
      .binary '+' (.call "f" [] ⟨16, 19⟩) (.var "calltmp1" ⟨20, 28⟩) ⟨16, 28⟩⟩
    let code : List Instruction := [.call "calltmp1" "f" [],
      .arithmetic .add "addtmp2" (.register "calltmp1") (.argument "calltmp1")]
    (s.emitTopLevel d).1 = .error (.failure (.invalid "g"
        [.reassigned "calltmp1", .undefinedRegister "calltmp1"])) ∧
      ClashesOnly ["calltmp1"] code (.register "addtmp2")
        [.reassigned "calltmp1", .undefinedRegister "calltmp1"] := by
  intro s d code
  let opened : Session := { s with
    openUnit := ⟨⟨"my cool jit", [⟨"f", [], []⟩, ⟨"g", ["calltmp1"], [⟨"entry", [], none⟩]⟩]⟩,
      some "g", 0⟩
    bindings := [("calltmp1", .argument "calltmp1")] }
  let filled : Session := { opened with
    openUnit := ⟨⟨"my cool jit", [⟨"f", [], []⟩, ⟨"g", ["calltmp1"], [⟨"entry", code, none⟩]⟩]⟩,
      some "g", 2⟩ }
  have hopens : s.Opens d opened :=
    @Opens.intro s d ⟨"g", 1⟩ [("calltmp1", .argument "calltmp1")] (s.emit d.declare).2
      { opened with bindings := [] } rfl rfl
  have hfilled : opened.emit (d.body.emit opened.environment) =
      (.ok (.register "addtmp2"), filled) := by decide
  obtain ⟨code', hfind, hclashes, -⟩ :=
    violations_are_clashes .standard (.new "") (.new 3) [.declare ⟨"f", [], ⟨7, 10⟩⟩] hopens hfilled
  have hfound : filled.openUnit.module.find? "g" =
      some ⟨"g", ["calltmp1"], [⟨"entry", code, none⟩]⟩ := rfl
  obtain ⟨-, -, rfl⟩ :
      "g" = d.prototype.name ∧ ["calltmp1"] = d.prototype.params ∧ code = code' := by
    simpa using hfound.symm.trans hfind
  exact ⟨by decide, hclashes⟩

end Session

end ScalarLang
