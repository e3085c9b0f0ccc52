import ScalarLang.Proofs.Validity.Linking

/-!
# Registers and parameters

Lowering gives every register a number of its own and reads no register before it is
assigned (`Expr.computes_lower`). All that can be wrong with the code of a checked body
is then that a register has the name of a parameter: it counts as assigned before, and as
undefined wherever it is read (`Definition.clashes_eq`).
-/

namespace ScalarLang

open Code

namespace Code

/-- The operand can be read behind assignments to the registers. -/
def Operand.Readable (params assigned : List String) : Operand → Prop
  | .constant _ => True
  | .argument name => name ∈ params
  | .register name => name ∈ assigned

theorem Operand.Readable.mono {params assigned assigned' : List String} {o : Operand}
    (h : o.Readable params assigned) (hsubset : assigned ⊆ assigned') :
    o.Readable params assigned' := by
  cases o with
  | constant value => trivial
  | argument name => exact h
  | register name => exact hsubset h

/-- Every instruction reads what can be read at its place, behind assignments to the registers. -/
def Reads (params : List String) : List String → List Instruction → Prop
  | _, [] => True
  | assigned, i :: is =>
    (∀ o ∈ i.operands, o.Readable params assigned) ∧ Reads params (assigned ++ [i.dest]) is

section Reads

variable {params assigned : List String} {is js : List Instruction}

theorem reads_append_iff : Reads params assigned (is ++ js) ↔
    Reads params assigned is ∧ Reads params (assigned ++ is.map Instruction.dest) js := by
  induction is generalizing assigned with
  | nil => simp [Reads]
  | cons i is ih => simp [Reads, ih, and_assoc]

/-- A register that is read was assigned by an earlier instruction, or is given. -/
theorem Reads.readable_of_split {before after : List Instruction} {i : Instruction}
    (h : Reads params assigned (before ++ i :: after)) :
    ∀ o ∈ i.operands, o.Readable params (assigned ++ before.map Instruction.dest) :=
  (reads_append_iff.1 h).2.1

theorem Reads.readable (h : Reads params assigned is) {i : Instruction} (hi : i ∈ is) :
    ∀ o ∈ i.operands, o.Readable params (assigned ++ is.map Instruction.dest) := by
  obtain ⟨before, after, rfl⟩ := List.append_of_mem hi
  intro o ho
  refine (h.readable_of_split o ho).mono ?_
  simp

/-- The code reads what can be read, and the operands can be read behind it. -/
structure Computes (params assigned : List String) (is : List Instruction)
    (values : List Operand) : Prop where
  reads : Reads params assigned is
  values : ∀ o ∈ values, o.Readable params (assigned ++ is.map Instruction.dest)

namespace Computes

variable {values values' : List Operand}

theorem nil (h : ∀ o ∈ values, o.Readable params assigned) : Computes params assigned [] values :=
  ⟨trivial, by simpa using h⟩

/-- Code behind other code leaves the values of the first readable. -/
theorem append (h : Computes params assigned is values)
    (h' : Computes params (assigned ++ is.map Instruction.dest) js values') :
    Computes params assigned (is ++ js) (values ++ values') where
  reads := reads_append_iff.2 ⟨h.reads, h'.reads⟩
  values := by
    rw [List.map_append, ← List.append_assoc]
    refine List.forall_mem_append.2 ⟨fun o ho => ?_, h'.values⟩
    exact (h.values o ho).mono (List.subset_append_left _ _)

/-- An instruction behind the code that computes what it reads. -/
theorem concat (h : Computes params assigned is values) {i : Instruction}
    (hoperands : i.operands ⊆ values) :
    Computes params assigned (is ++ [i]) [.register i.dest] where
  reads := reads_append_iff.2 ⟨h.reads, fun o ho => h.values o (hoperands ho), trivial⟩
  values := by
    refine List.forall_mem_singleton.2 ?_
    simp [Operand.Readable]

end Computes

end Reads

/-- What is wrong with an operand if its register has the name of a parameter. -/
def Operand.clash? (params : List String) : Operand → Option Violation
  | .register name => if name ∈ params then some (.undefinedRegister name) else none
  | .constant _ | .argument _ => none

/-- What is wrong with an instruction if registers have the names of parameters. -/
def Instruction.clashes (params : List String) (i : Instruction) : List Violation :=
  i.operands.filterMap (Operand.clash? params) ++
    if i.dest ∈ params then [.reassigned i.dest] else []

namespace Scope

@[simp] theorem params_assign (s : Scope) (register : String) :
    (s.assign register).params = s.params := by
  rw [assign]
  split <;> rfl

/-- An assignment to the name of a parameter defines nothing. -/
theorem mem_defined_assign {s : Scope} {register r : String} :
    r ∈ (s.assign register).defined ↔ r ∈ s.defined ∨ r = register ∧ register ∉ s.params := by
  by_cases hfree : s.isFree register = true
  · have hnew := isFree_iff.1 hfree
    rw [assign_of_isFree hfree, List.mem_cons, or_comm, and_iff_left hnew.1]
  · rw [assign, if_neg hfree]
    rw [isFree_iff, not_and_not_right] at hfree
    refine ⟨.inl, fun h => h.elim id ?_⟩
    rintro ⟨rfl, hparams⟩
    exact hfree hparams

/-- The registers defined in the scope are the assigned ones that are no parameters. -/
structure Follows (s : Scope) (params assigned : List String) : Prop where
  params_eq : s.params = params
  defined : ∀ r, r ∈ s.defined ↔ r ∈ assigned ∧ r ∉ params

namespace Follows

variable {s : Scope} {params assigned : List String}

/-- What can be read is refused for its name alone. -/
theorem operandViolation?_eq (h : s.Follows params assigned) {o : Operand}
    (ho : o.Readable params assigned) : s.operandViolation? o = o.clash? params := by
  cases o with
  | constant value => rfl
  | argument name =>
      rw [operandViolation?_argument_eq_none_iff.2 (h.params_eq ▸ ho), Operand.clash?]
  | register name =>
      have hassigned : name ∈ assigned := ho
      have hdefined : name ∈ s.defined ↔ name ∉ params := by
        rw [h.defined, and_iff_right hassigned]
      rw [operandViolation?, Operand.clash?]
      by_cases hname : name ∈ params <;> simp [hdefined, hname]

/-- A new register is refused for its name alone. -/
theorem isFree_iff (h : s.Follows params assigned) {r : String} (hnew : r ∉ assigned) :
    s.isFree r = true ↔ r ∉ params := by
  have hdefined : r ∉ s.defined := fun hmem => hnew ((h.defined r).1 hmem).1
  rw [Scope.isFree_iff, h.params_eq, and_iff_left hdefined]

theorem assign (h : s.Follows params assigned) (register : String) :
    (s.assign register).Follows params (assigned ++ [register]) := by
  refine ⟨(s.params_assign register).trans h.params_eq, fun r => ?_⟩
  rw [mem_defined_assign, h.defined, h.params_eq, List.mem_append, List.mem_singleton, or_and_right]
  refine or_congr_right (and_congr_right fun heq => ?_)
  rw [heq]

theorem assignAll (h : s.Follows params assigned) (is : List Instruction) :
    (s.assignAll is).Follows params (assigned ++ is.map Instruction.dest) := by
  induction is generalizing s assigned with
  | nil => rwa [List.map_nil, List.append_nil]
  | cons i is ih =>
      have hlater := ih (h.assign i.dest)
      rwa [List.append_assoc] at hlater

end Follows

end Scope

/-- Code that computes its values and assigns new registers is refused for their names alone. -/
theorem Scope.Follows.scopeViolations_eq {s : Scope} {params assigned : List String}
    {is : List Instruction} (h : s.Follows params assigned) (hreads : Reads params assigned is)
    (hnodup : (assigned ++ is.map Instruction.dest).Nodup) :
    scopeViolations s is = is.flatMap (Instruction.clashes params) := by
  induction is generalizing s assigned with
  | nil => rfl
  | cons i is ih =>
      rw [List.map_cons, List.append_cons] at hnodup
      -- The register of `i` is new, so only the name of a parameter can keep it from being free.
      have hnew : i.dest ∉ assigned := by
        intro hmem
        have hleft := (List.nodup_append.1 hnodup).1
        exact (List.nodup_append.1 hleft).2.2 _ hmem _ List.mem_cons_self rfl
      have his := ih (h.assign i.dest) hreads.2 hnodup
      have hoperands : i.operands.filterMap s.operandViolation? =
          i.operands.filterMap (Operand.clash? params) :=
        List.filterMap_congr fun o ho => h.operandViolation?_eq (hreads.1 o ho)
      have hfree := h.isFree_iff hnew
      rw [scopeViolations, his, List.flatMap_cons, Instruction.scopeViolations,
        Instruction.clashes, hoperands]
      by_cases hdest : i.dest ∈ params <;> simp [hfree, hdest]

end Code

/-- The code of an operator behind the code of its operands. -/
theorem computes_lowerOperator {op : Char} (hop : (Operator.ofChar? op).isSome)
    {params assigned : List String} {is : List Instruction} {lhs rhs : Operand}
    (h : Computes params assigned is [lhs, rhs]) (n : Nat) :
    Computes params assigned (is ++ (lowerOperator op lhs rhs n).code)
      [(lowerOperator op lhs rhs n).value] := by
  obtain ⟨o, ho⟩ := Option.isSome_iff_exists.1 hop
  rw [lowerOperator, ho]
  cases o with
  | arithmetic a => exact h.concat (List.Subset.refl _)
  | comparison c =>
      have hflag := h.concat (i := .compare c ("cmptmp" ++ Nat.repr (n + 1)) lhs rhs)
        (List.Subset.refl _)
      have hwiden := hflag.concat (i := .widen ("booltmp" ++ Nat.repr (n + 2))
        (.register ("cmptmp" ++ Nat.repr (n + 1)))) (List.Subset.refl _)
      rwa [List.append_assoc] at hwiden

section Expression

variable {arity? : String → Option Nat} {params : List String}

mutual

/-- The code of a checked expression computes its value, behind whatever was assigned before. -/
theorem Expr.computes_lower (e : Expr) (h : e.check arity? params = .ok ())
    (assigned : List String) (n : Nat) :
    Computes params assigned (e.lower n).code [(e.lower n).value] := by
  cases e with
  | number value span => exact .nil (List.forall_mem_singleton.2 trivial)
  | var name span => exact .nil (List.forall_mem_singleton.2 (check_var_eq_ok_iff.1 h))
  | binary op lhs rhs span =>
      obtain ⟨hlhs, hrhs, hop⟩ := check_binary_eq_ok_iff.1 h
      have hl := lhs.computes_lower hlhs assigned n
      have hr := rhs.computes_lower hrhs (assigned ++ (lhs.lower n).code.map Instruction.dest)
        (lhs.lower n).latest
      rw [Expr.lower, ← List.append_assoc]
      exact computes_lowerOperator hop (hl.append hr) _
  | call callee args span =>
      have hargs := Expr.computes_lowerAll args (check_call_eq_ok_iff.1 h).2 assigned n
      exact hargs.concat (List.Subset.refl _)
  termination_by structural e

theorem Expr.computes_lowerAll (es : List Expr) (h : Expr.checkAll arity? params es = .ok ())
    (assigned : List String) (n : Nat) :
    Computes params assigned (Expr.lowerAll n es).code (Expr.lowerAll n es).value := by
  cases es with
  | nil => exact .nil (List.forall_mem_nil _)
  | cons e es =>
      obtain ⟨he, hes⟩ := checkAll_cons_eq_ok_iff.1 h
      have hfirst := e.computes_lower he assigned n
      exact hfirst.append (Expr.computes_lowerAll es hes _ _)
  termination_by structural es

end

end Expression

namespace Definition

/-- The registers that the code of a definition assigns, in order. -/
def registers (d : Definition) : List String := (d.body.lower 0).code.map Instruction.dest

variable {d : Definition} {arity? : String → Option Nat}

/-- What is wrong with a checked definition is wrong with the names of its registers. -/
theorem clashes_eq (h : d.body.check arity? d.prototype.params = .ok ()) :
    d.clashes = (d.body.lower 0).code.flatMap (Instruction.clashes d.prototype.params) ++
      ((d.body.lower 0).value.clash? d.prototype.params).toList := by
  have hcomputes := d.body.computes_lower h [] 0
  have hempty : Scope.Follows ⟨d.prototype.params, []⟩ d.prototype.params [] := ⟨rfl, by simp⟩
  have hbehind := hempty.assignAll (d.body.lower 0).code
  rw [clashes, hempty.scopeViolations_eq hcomputes.reads (d.body.numbers_lower 0).code.nodup,
    hbehind.operandViolation?_eq (hcomputes.values _ List.mem_cons_self)]

/-- Nothing is wrong with the names of a checked definition if no register has the name of a
parameter. -/
theorem clashes_eq_nil_iff (h : d.body.check arity? d.prototype.params = .ok ()) :
    d.clashes = [] ↔ ∀ r ∈ d.registers, r ∉ d.prototype.params := by
  have hcomputes := d.body.computes_lower h [] 0
  have hclash (hfree : ∀ r ∈ d.registers, r ∉ d.prototype.params) {o : Operand}
      (ho : o.Readable d.prototype.params ([] ++ d.registers)) :
      o.clash? d.prototype.params = none := by
    cases o with
    | constant value | argument name => rfl
    | register name => exact if_neg (hfree name ho)
  rw [clashes_eq h, List.append_eq_nil_iff, Option.toList_eq_nil_iff, List.flatMap_eq_nil_iff]
  constructor
  · rintro ⟨hcode, -⟩ r hr hparams
    obtain ⟨i, hi, rfl⟩ := List.mem_map.1 hr
    have hi' := hcode i hi
    rw [Instruction.clashes, if_pos hparams, List.append_eq_nil_iff] at hi'
    cases hi'.2
  · intro hfree
    refine ⟨fun i hi => ?_, hclash hfree (hcomputes.values _ List.mem_cons_self)⟩
    rw [Instruction.clashes, if_neg (hfree _ (List.mem_map_of_mem hi)), List.append_nil,
      List.filterMap_eq_nil_iff]
    exact fun o ho => hclash hfree (hcomputes.reads.readable hi o ho)

end Definition

end ScalarLang
