import ScalarLang.Proofs.Validity.Linking

/-!
# Folding keeps functions valid

A folded instruction defines no register any more, but then its value is known and
nothing reads the register (`Scope.Folds`). So folded code reads and assigns in order
if the code does, and it still calls the same functions (`Function.Valid.fold`).
-/

namespace ScalarLang

namespace Code

/-- The second scope is the first one without registers whose values are known. -/
structure Scope.Folds (known : Known) (s s' : Scope) : Prop where
  params : s'.params = s.params
  defined : ∀ r ∈ s.defined, r ∈ s'.defined ∨ (known.lookup r).isSome
  subset : s'.defined ⊆ s.defined

namespace Scope.Folds

variable {known : Known} {s s' : Scope}

theorem operandViolation?_substitute (h : Folds known s s') {o : Operand}
    (ho : s.operandViolation? o = none) :
    s'.operandViolation? (o.substitute known) = none := by
  cases o with
  | constant value => rfl
  | argument name =>
      refine operandViolation?_argument_eq_none_iff.2 ?_
      rw [h.params]
      exact operandViolation?_argument_eq_none_iff.1 ho
  | register name =>
      have hname := operandViolation?_register_eq_none_iff.1 ho
      rw [Operand.substitute]
      split
      · rfl
      next hunknown =>
        refine operandViolation?_register_eq_none_iff.2 ((h.defined name hname).resolve_right ?_)
        rw [hunknown]
        exact Bool.false_ne_true

theorem isFree (h : Folds known s s') {register : String} (hfree : s.isFree register = true) :
    s'.isFree register = true := by
  obtain ⟨hparams, hdefined⟩ := isFree_iff.1 hfree
  exact isFree_iff.2 ⟨h.params ▸ hparams, fun hmem => hdefined (h.subset hmem)⟩

/-- A folded instruction defines no register, but its value is known. -/
theorem know (h : Folds known s s') {register : String} (hfree : s.isFree register = true)
    (value : Float) : Folds ((register, value) :: known) (s.assign register) s' := by
  rw [assign_of_isFree hfree]
  refine ⟨h.params, fun r hr => ?_, fun r hr => List.mem_cons_of_mem register (h.subset hr)⟩
  by_cases heq : r = register
  · exact .inr (by simp [heq])
  · refine (h.defined r ((List.mem_cons.1 hr).resolve_left heq)).imp_right fun hknown => ?_
    rwa [List.lookup_cons, beq_false_of_ne heq]

theorem assign (h : Folds known s s') {register : String} (hfree : s.isFree register = true) :
    Folds known (s.assign register) (s'.assign register) := by
  rw [assign_of_isFree hfree, assign_of_isFree (h.isFree hfree)]
  refine ⟨h.params, fun r hr => ?_, List.cons_subset_cons register h.subset⟩
  rcases List.mem_cons.1 hr with rfl | hr
  · exact .inl List.mem_cons_self
  · exact (h.defined r hr).imp_left (List.mem_cons_of_mem register)

end Scope.Folds

/-- Folded instructions read and assign in order. -/
theorem scopeViolations_foldInstructions {known : Known} {s s' : Scope} (h : s.Folds known s')
    {is : List Instruction} (hnone : scopeViolations s is = []) :
    scopeViolations s' (foldInstructions known is).1 = [] ∧
      (s.assignAll is).Folds (foldInstructions known is).2
        (s'.assignAll (foldInstructions known is).1) := by
  induction is generalizing known s s' with
  | nil => exact ⟨rfl, h⟩
  | cons i is ih =>
      obtain ⟨hoperands, hfree, his⟩ := scopeViolations_cons_eq_nil_iff.1 hnone
      rw [foldInstructions]
      cases hvalue : (i.mapOperands (Operand.substitute known)).evaluate Operand.constant? with
      -- The instruction is gone: the second scope stays, and the register is known instead.
      | some value =>
          rw [Instruction.dest_mapOperands]
          exact ih (h.know hfree value) his
      | none =>
          obtain ⟨hrest, hfolds⟩ := ih (h.assign hfree) his
          have hdest := i.dest_mapOperands (Operand.substitute known)
          refine ⟨scopeViolations_cons_eq_nil_iff.2 ⟨?_, ?_, ?_⟩, ?_⟩
          · rw [Instruction.operands_mapOperands, List.forall_mem_map]
            exact fun o ho => h.operandViolation?_substitute (hoperands o ho)
          · rw [hdest]
            exact h.isFree hfree
          · rw [hdest]
            exact hrest
          · rw [Scope.assignAll, Scope.assignAll, List.foldl_cons, List.foldl_cons, hdest]
            exact hfolds

theorem blockScopeViolations_foldBlocks {known : Known} {s s' : Scope} (h : s.Folds known s')
    {bs : List Block} (hnone : blockScopeViolations s bs = []) :
    blockScopeViolations s' (foldBlocks known bs).1 = [] := by
  induction bs generalizing known s s' with
  | nil => rfl
  | cons b bs ih =>
      obtain ⟨hbody, hterminator, hbs⟩ := blockScopeViolations_cons_eq_nil_iff.1 hnone
      obtain ⟨hfolded, hafter⟩ := scopeViolations_foldInstructions h hbody
      rw [foldBlocks]
      refine blockScopeViolations_cons_eq_nil_iff.2 ⟨hfolded, ?_, ih hafter hbs⟩
      rw [Block.terminatorViolation?] at hterminator ⊢
      cases hvalue : b.terminator with
      | none =>
          rw [hvalue] at hterminator
          cases hterminator
      | some value =>
          rw [hvalue] at hterminator
          exact hafter.operandViolation?_substitute hterminator

theorem blockSignatures_foldBlocks (known : Known) (bs : List Block) :
    blockSignatures (foldBlocks known bs).1 = blockSignatures bs := by
  induction bs generalizing known with
  | nil => rfl
  | cons b bs ih =>
      rw [foldBlocks, blockSignatures_cons, blockSignatures_cons, foldInstructions_signatures, ih]

namespace Function

@[simp] theorem signatures_fold (f : Function) : f.fold.signatures = f.signatures :=
  blockSignatures_foldBlocks [] f.blocks

theorem Scoped.fold {f : Function} (h : f.Scoped) : f.fold.Scoped where
  params := h.params
  blocks := by
    refine blockScopeViolations_foldBlocks ⟨rfl, fun r hr => ?_, List.Subset.refl _⟩ h.blocks
    cases hr

/-- Folding keeps a valid function valid. -/
theorem Valid.fold {m : Module} {f : Function} (h : f.Valid m) : f.fold.Valid m := by
  obtain ⟨hscoped, hprovides⟩ := valid_iff.1 h
  refine valid_iff.2 ⟨hscoped.fold, ?_⟩
  rw [signatures_fold]
  exact hprovides

end Function

end Code

end ScalarLang
