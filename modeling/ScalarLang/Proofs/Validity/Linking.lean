import ScalarLang.Proofs.Emission.Compiled

/-!
# Scopes and links

Two things make a function valid in a module, and they do not meet. What it reads
and assigns has to be in order, which is a matter of the function alone
(`Function.Scoped`), and the module has to have what it calls
(`Module.Provides`). `Function.valid_iff` says that this is all, so a function
stays valid as long as its callees keep their arities (`Function.Valid.of_provides`).
-/

namespace ScalarLang

namespace Code

namespace Scope

/-- An argument can be read if it is a parameter. -/
theorem operandViolation?_argument_eq_none_iff {s : Scope} {name : String} :
    s.operandViolation? (.argument name) = none ↔ name ∈ s.params := by
  simp [operandViolation?]

/-- A register can be read if it is defined. -/
theorem operandViolation?_register_eq_none_iff {s : Scope} {name : String} :
    s.operandViolation? (.register name) = none ↔ name ∈ s.defined := by
  simp [operandViolation?]

theorem isFree_iff {s : Scope} {register : String} :
    s.isFree register = true ↔ register ∉ s.params ∧ register ∉ s.defined := by
  simp [isFree]

theorem assign_of_isFree {s : Scope} {register : String} (h : s.isFree register = true) :
    s.assign register = ⟨s.params, register :: s.defined⟩ := by
  rw [assign, if_pos h]

end Scope

/-- An instruction is in order if its operands can be read and its register is free. -/
theorem Instruction.scopeViolations_eq_nil_iff {s : Scope} {i : Instruction} :
    i.scopeViolations s = [] ↔
      (∀ o ∈ i.operands, s.operandViolation? o = none) ∧ s.isFree i.dest = true := by
  rw [scopeViolations, List.append_eq_nil_iff, List.filterMap_eq_nil_iff]
  simp

theorem scopeViolations_cons_eq_nil_iff {s : Scope} {i : Instruction} {is : List Instruction} :
    scopeViolations s (i :: is) = [] ↔ (∀ o ∈ i.operands, s.operandViolation? o = none) ∧
      s.isFree i.dest = true ∧ scopeViolations (s.assign i.dest) is = [] := by
  rw [scopeViolations, List.append_eq_nil_iff, Instruction.scopeViolations_eq_nil_iff, and_assoc]

theorem Instruction.calleeViolation?_eq_none_iff {m : Module} {i : Instruction} :
    i.calleeViolation? m = none ↔ ∀ signature ∈ i.signature?, m.Provides signature := by
  refine ⟨fun h signature hsignature => ?_, calleeViolation?_eq_none⟩
  cases i with
  | arithmetic | compare | widen => cases hsignature
  | call dest callee args =>
      obtain rfl := Option.some.inj hsignature
      rw [calleeViolation?] at h
      split at h
      · cases h
      next f hfind =>
        split at h
        next harity =>
          have hname : f.name = callee := by simpa using List.find?_some hfind
          rw [Module.Provides, hfind, ← harity, ← hname]
          rfl
        · cases h

theorem Instruction.violations_eq_nil_iff {m : Module} {s : Scope} {i : Instruction} :
    i.violations m s = [] ↔
      i.scopeViolations s = [] ∧ ∀ signature ∈ i.signature?, m.Provides signature := by
  rw [← calleeViolation?_eq_none_iff, violations, scopeViolations, List.append_eq_nil_iff,
    List.append_eq_nil_iff, List.append_eq_nil_iff, Option.toList_eq_nil_iff]
  tauto

/-- Instructions are in order if their scopes are and the module has their callees. -/
theorem bodyViolations_eq_nil_iff {m : Module} {s : Scope} {is : List Instruction} :
    bodyViolations m s is = [] ↔ scopeViolations s is = [] ∧
      ∀ signature ∈ is.filterMap Instruction.signature?, m.Provides signature := by
  induction is generalizing s with
  | nil => simp [bodyViolations, scopeViolations]
  | cons i is ih =>
      rw [bodyViolations, scopeViolations, List.append_eq_nil_iff, List.append_eq_nil_iff, ih,
        Instruction.violations_eq_nil_iff]
      have hcalls : (∀ signature ∈ (i :: is).filterMap Instruction.signature?,
          m.Provides signature) ↔ (∀ signature ∈ i.signature?, m.Provides signature) ∧
            ∀ signature ∈ is.filterMap Instruction.signature?, m.Provides signature := by
        cases hi : i.signature? <;> simp [hi]
      rw [hcalls]
      tauto

/-- What is wrong with a list of blocks apart from the callees. -/
def blockScopeViolations (s : Scope) : List Block → List Violation
  | [] => []
  | b :: bs =>
    scopeViolations s b.instructions ++
      (b.terminatorViolation? (s.assignAll b.instructions)).toList ++
      blockScopeViolations (s.assignAll b.instructions) bs

theorem blockScopeViolations_cons_eq_nil_iff {s : Scope} {b : Block} {bs : List Block} :
    blockScopeViolations s (b :: bs) = [] ↔ scopeViolations s b.instructions = [] ∧
      b.terminatorViolation? (s.assignAll b.instructions) = none ∧
      blockScopeViolations (s.assignAll b.instructions) bs = [] := by
  rw [blockScopeViolations, List.append_eq_nil_iff, List.append_eq_nil_iff,
    Option.toList_eq_nil_iff, and_assoc]

/-- What blocks call, in the order of the text. -/
def blockSignatures (bs : List Block) : List Signature :=
  bs.flatMap fun b => b.instructions.filterMap Instruction.signature?

theorem blockSignatures_cons (b : Block) (bs : List Block) :
    blockSignatures (b :: bs) =
      b.instructions.filterMap Instruction.signature? ++ blockSignatures bs := rfl

theorem blockViolations_eq_nil_iff {m : Module} {s : Scope} {bs : List Block} :
    blockViolations m s bs = [] ↔
      blockScopeViolations s bs = [] ∧ ∀ signature ∈ blockSignatures bs, m.Provides signature := by
  induction bs generalizing s with
  | nil => simp [blockViolations, blockScopeViolations, blockSignatures]
  | cons b bs ih =>
      rw [blockScopeViolations_cons_eq_nil_iff, blockViolations, List.append_eq_nil_iff,
        List.append_eq_nil_iff, Option.toList_eq_nil_iff, bodyViolations_eq_nil_iff, ih,
        blockSignatures_cons, List.forall_mem_append]
      tauto

/-- Blocks in order are terminated. -/
theorem isSome_terminator {s : Scope} {bs : List Block} (h : blockScopeViolations s bs = []) :
    ∀ b ∈ bs, b.terminator.isSome := by
  induction bs generalizing s with
  | nil => exact List.forall_mem_nil _
  | cons b bs ih =>
      obtain ⟨-, hterminator, hbs⟩ := blockScopeViolations_cons_eq_nil_iff.1 h
      refine List.forall_mem_cons.2 ⟨?_, ih hbs⟩
      rw [Block.terminatorViolation?] at hterminator
      split at hterminator
      · cases hterminator
      next hvalue => rw [hvalue, Option.isSome_some]

namespace Function

/-- Nothing is wrong with the function apart from its callees. -/
structure Scoped (f : Function) : Prop where
  params : repeats [] f.params = []
  blocks : blockScopeViolations ⟨f.params, []⟩ f.blocks = []

/-- What the function calls, in the order of the text. -/
def signatures (f : Function) : List Signature := blockSignatures f.blocks

/-- A function is valid if its scopes are in order and the module has its callees. -/
theorem valid_iff {m : Module} {f : Function} :
    f.Valid m ↔ f.Scoped ∧ ∀ signature ∈ f.signatures, m.Provides signature := by
  rw [Valid, violations, List.append_eq_nil_iff, List.map_eq_nil_iff, blockViolations_eq_nil_iff,
    ← and_assoc]
  exact and_congr_left' ⟨fun h => ⟨h.1, h.2⟩, fun h => ⟨h.params, h.blocks⟩⟩

/-- A valid function is valid in every module that has its callees. -/
theorem Valid.of_provides {m m' : Module} {f : Function} (h : f.Valid m)
    (hprovides : ∀ signature ∈ f.signatures, m'.Provides signature) : f.Valid m' :=
  valid_iff.2 ⟨(valid_iff.1 h).1, hprovides⟩

theorem calls_iff {f : Function} {name : String} :
    f.calls name = true ↔ ∃ signature ∈ f.signatures, signature.name = name := by
  simp only [calls, signatures, blockSignatures, List.any_eq_true, beq_iff_eq,
    Instruction.callee?_eq_map, Option.map_eq_some_iff, List.mem_flatMap, List.mem_filterMap]
  constructor
  · rintro ⟨b, hb, i, hi, signature, hsignature, hname⟩
    exact ⟨signature, ⟨b, hb, i, hi, hsignature⟩, hname⟩
  · rintro ⟨signature, ⟨b, hb, i, hi, hsignature⟩, hname⟩
    exact ⟨b, hb, i, hi, signature, hsignature, hname⟩

/-- A declaration is in order if no parameter is repeated. -/
theorem scoped_declaration {p : Prototype} (h : p.repeated? = none) : p.declaration.Scoped where
  params := List.head?_eq_none_iff.1 h
  blocks := rfl

end Function

end Code

end ScalarLang
