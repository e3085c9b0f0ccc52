import ScalarLang.Proofs.Emission.Draft

/-!
# Emission of expressions is checking and lowering

Emitting an expression into an open body fails with the first mistake that
`Expr.check` finds, and otherwise adds the code of `Expr.lower` and puts the
callees of the expression into the unit (`Expr.emits_emit`).
-/

namespace ScalarLang

open Code

namespace Draft

variable {t : Draft} {recorded : List Prototype}

namespace Emits

/-- An instruction for a new register. -/
theorem assign (h : t.names.Nodup) (stem : String) (i : String → Instruction)
    (hdest : ∀ r, (i r).dest = r) :
    t.Emits recorded (.ok ()) (Emit.newRegister stem >>= fun r => Emit.append (i r))
      ⟨[i (stem ++ Nat.repr (t.registers + 1))],
        .register (stem ++ Nat.repr (t.registers + 1)), t.registers + 1⟩ [] := by
  have hgrow := fun code latest => (Adds.nil h recorded).names_nodup code latest
  refine ⟨[], .nil h recorded, ?_, by simp⟩
  simp only [EStateM.run_bind, run_newRegister, run_append (hgrow _ _), hdest, registers_grow,
    grow_grow, List.nil_append]

theorem operator (h : t.names.Nodup) (op : Char) (lhs rhs : Operand) (span : Span) :
    t.Emits recorded
      (if (Operator.ofChar? op).isSome then .ok () else .error (.unknownOperator op span))
      (emitOperator op lhs rhs span) (lowerOperator op lhs rhs t.registers) [] := by
  rw [emitOperator, lowerOperator]
  cases Operator.ofChar? op with
  | none => exact throw h _ _ _
  | some o =>
      cases o with
      | arithmetic op =>
          exact assign h (Emit.arithmeticStem op) (.arithmetic op · lhs rhs) fun _ => rfl
      | comparison op =>
          have hgrow := fun code latest => (Adds.nil h recorded).names_nodup code latest
          refine ⟨[], .nil h recorded, ?_, by simp⟩
          simp only [Emit.compare, EStateM.run_bind, run_newRegister,
            run_append (hgrow _ _), registers_grow, grow_grow, List.nil_append]
          rfl

end Emits

theorem lookup?_eq_none_iff {name : String} :
    t.openUnit.lookup? name = none ↔ name ∉ t.names := by
  rw [OpenUnit.lookup?_eq, List.find?_eq_none, names]
  simp

/-- A recorded prototype can be declared if the unit does not have its name. -/
theorem Adds.single {p : Prototype} (h : t.names.Nodup) (hnone : t.openUnit.lookup? p.name = none)
    (hp : recorded.find? (·.name == p.name) = some p) : t.Adds recorded [p] := by
  refine ⟨?_, by simpa using hp⟩
  have hnew := lookup?_eq_none_iff.1 hnone
  rw [List.map_singleton, List.nodup_append]
  refine ⟨h, List.nodup_singleton _, ?_⟩
  rintro name hname _ hmem rfl
  exact hnew (List.mem_singleton.1 hmem ▸ hname)

theorem run_emit {p : Prototype} (hnone : t.openUnit.lookup? p.name = none)
    (hvalid : p.repeated? = none) :
    p.emit.run t.openUnit = .ok p.signature (t.grow [] t.registers [p]).openUnit := by
  have hfind : t.openUnit.module.find? p.name = none := by
    simpa [OpenUnit.lookup?] using hnone
  simp only [Prototype.emit, Prototype.check, hvalid, pure_bind, EStateM.run_bind, EStateM.run_get,
    hnone, Emit.run_declare hfind]
  simp [openUnit, grow, Prototype.signature, Prototype.declaration, function]

/-- A callee is found in the unit, or among the prototypes recorded. -/
theorem run_callee? {env : Environment} (h : t.names.Nodup)
    (hvalid : ∀ p ∈ env.prototypes, p.repeated? = none) (name : String) :
    ∃ declared, t.Adds env.prototypes declared ∧
      (env.callee? name).run t.openUnit =
        .ok ((arityIn t.openUnit.signatures env.prototypes name).map (Signature.mk name))
          (t.grow [] t.registers declared).openUnit ∧
      ∀ arity ∈ arityIn t.openUnit.signatures env.prototypes name,
        ⟨name, arity⟩ ∈ (t.grow [] t.registers declared).openUnit.signatures := by
  rw [Environment.callee?, arityIn, ← OpenUnit.lookup?_eq, EStateM.run_bind, EStateM.run_get]
  cases hl : t.openUnit.lookup? name with
  | some signature =>
      have hfound := hl
      rw [OpenUnit.lookup?_eq] at hfound
      have hname : signature.name = name := by simpa using List.find?_some hfound
      have hmem := List.mem_of_find?_eq_some hfound
      subst hname
      exact ⟨[], .nil h _, by simp [hl, grow_nil], by simpa using hmem⟩
  | none =>
      cases hp : env.prototypes.find? (·.name == name) with
      | none => exact ⟨[], .nil h _, by simp [hl, Environment.prototype?, hp, grow_nil], by simp⟩
      | some p =>
          have hname : p.name = name := by simpa using List.find?_some hp
          have hp' := hvalid p (List.mem_of_find?_eq_some hp)
          subst hname
          refine ⟨[p], .single h hl hp, ?_, by simp [Prototype.signature]⟩
          simp only [hl, Environment.prototype?, hp, EStateM.run_bind, run_emit hl hp']
          rfl

namespace Emits

/-- A call checks its callee first. -/
theorem callee {env : Environment} (h : t.names.Nodup)
    (hvalid : ∀ p ∈ env.prototypes, p.repeated? = none) (name : String) (count : Nat)
    (span : Span) :
    t.Emits env.prototypes
      (match arityIn t.openUnit.signatures env.prototypes name with
      | none => .error (.unknownFunction name span)
      | some arity =>
        if arity = count then .ok () else .error (.arityMismatch name arity count span))
      (env.callee name count span) ⟨[], ⟨name, count⟩, t.registers⟩ [⟨name, count⟩] := by
  obtain ⟨declared, hadds, hrun, hmem⟩ := run_callee? h hvalid name
  refine ⟨declared, hadds, ?_⟩
  rw [Environment.callee, EStateM.run_bind, hrun]
  cases harity : arityIn t.openUnit.signatures env.prototypes name with
  | none => exact ⟨[], t.registers, rfl⟩
  | some arity =>
      by_cases hcount : arity = count
      · subst hcount
        simp only [if_true, List.forall_mem_singleton]
        exact ⟨by simp, hmem arity harity⟩
      · simp only [hcount, if_false]
        exact ⟨[], t.registers, by simp [hcount]⟩

end Emits

end Draft

section Expression

open Draft

variable (env : Environment) {params : List String}

mutual

/-- Emitting an expression is checking it and lowering it. -/
theorem Expr.emits_emit (e : Expr) {t : Draft} (h : t.names.Nodup)
    (hvalid : ∀ p ∈ env.prototypes, p.repeated? = none)
    (hbound : ∀ name, env.bindings.lookup name =
      if name ∈ params then some (.argument name) else none) :
    t.Emits env.prototypes (e.check (arityIn t.openUnit.signatures env.prototypes) params)
      (e.emit env) (e.lower t.registers) e.calls := by
  cases e with
  | number value span => exact .pure h _
  | var name span =>
      rw [Expr.check, Expr.emit, hbound name]
      split
      · exact .pure h _
      · exact .throw h _ _ _
  | binary op lhs rhs span =>
      rw [Expr.check, Expr.emit, Expr.lower, Expr.calls, ← List.append_nil rhs.calls]
      refine (lhs.emits_emit h hvalid hbound).bind fun declared hadds _ => ?_
      have hrhs := rhs.emits_emit (hadds.names_nodup (lhs.lower t.registers).code
        (lhs.lower t.registers).latest) hvalid hbound
      rw [hadds.arityIn_grow] at hrhs
      exact hrhs.bind fun declared' hadds' _ => .operator (hadds'.names_nodup _ _) op _ _ span
  | call callee args span =>
      have hargsCheck : Expr.checkAll (arityIn t.openUnit.signatures env.prototypes) params args =
          Expr.checkAll (arityIn t.openUnit.signatures env.prototypes) params args >>= fun _ =>
            .ok () := by
        cases Expr.checkAll (arityIn t.openUnit.signatures env.prototypes) params args <;> rfl
      have hcalls : (call callee args span).calls =
          [⟨callee, args.length⟩] ++ (Expr.callsAll args ++ []) := by
        rw [Expr.calls, List.append_nil]
        rfl
      rw [check_call, hargsCheck, hcalls, Expr.emit, Expr.lower]
      refine (Emits.callee h hvalid callee args.length span).bind fun declared hadds _ => ?_
      have hargs := Expr.emits_emitAll args (hadds.names_nodup [] t.registers) hvalid hbound
      rw [hadds.arityIn_grow] at hargs
      exact hargs.bind fun declared' hadds' _ =>
        .assign (hadds'.names_nodup _ _) "calltmp" (.call · callee _) fun _ => rfl
  termination_by structural e

theorem Expr.emits_emitAll (es : List Expr) {t : Draft} (h : t.names.Nodup)
    (hvalid : ∀ p ∈ env.prototypes, p.repeated? = none)
    (hbound : ∀ name, env.bindings.lookup name =
      if name ∈ params then some (.argument name) else none) :
    t.Emits env.prototypes
      (Expr.checkAll (arityIn t.openUnit.signatures env.prototypes) params es)
      (Expr.emitAll env es) (Expr.lowerAll t.registers es) (Expr.callsAll es) := by
  cases es with
  | nil => exact .pure h _
  | cons e es =>
      rw [Expr.checkAll, Expr.emitAll, Expr.lowerAll, Expr.callsAll]
      refine (e.emits_emit h hvalid hbound).bind fun declared hadds _ => ?_
      have hlater := Expr.emits_emitAll es (hadds.names_nodup (e.lower t.registers).code
        (e.lower t.registers).latest) hvalid hbound
      rw [hadds.arityIn_grow] at hlater
      exact hlater.map _
  termination_by structural es

end

end Expression

end ScalarLang
