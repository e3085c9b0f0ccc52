import ScalarLang.Code.Folding
import ScalarLang.Code.Validity
import ScalarLang.Proofs.Emission.Expression

/-!
# The code of a definition

`Definition.compiled` is the function that a definition becomes. It calls exactly
what the text calls. Among functions that have every callee, nothing but the names
of the parameters and registers can be wrong with it, and whether they clash
depends on the definition alone (`Definition.violations_written`).
-/

namespace ScalarLang

open Code

namespace Code

/-- What a call asks for: its callee and the number of its arguments. -/
def Instruction.signature? : Instruction → Option Signature
  | .call _ callee args => some ⟨callee, args.length⟩
  | .arithmetic .. | .compare .. | .widen .. => none

theorem Instruction.signature?_mapOperands (f : Operand → Operand) (i : Instruction) :
    (i.mapOperands f).signature? = i.signature? := by
  cases i <;> simp [mapOperands, signature?]

theorem Instruction.callee?_eq_map (i : Instruction) :
    i.callee? = i.signature?.map Signature.name := by
  cases i <;> rfl

/-- Folding keeps what calls have apart from their operands. -/
theorem filterMap_foldInstructions {α : Type} {view : Instruction → Option α}
    (hmap : ∀ f i, view (i.mapOperands f) = view i) (hcall : ∀ i, i.callee? = none → view i = none)
    (known : Known) (is : List Instruction) :
    (foldInstructions known is).1.filterMap view = is.filterMap view := by
  induction is generalizing known with
  | nil => rfl
  | cons i is ih =>
      rw [foldInstructions, List.filterMap_cons, ← hmap (Operand.substitute known) i]
      cases hvalue : (i.mapOperands (Operand.substitute known)).evaluate Operand.constant? with
      | some value =>
          rw [hcall _ (Instruction.callee?_eq_none_of_evaluate hvalue)]
          exact ih _
      | none =>
          rw [List.filterMap_cons, ih]

theorem foldInstructions_signatures (known : Known) (is : List Instruction) :
    (foldInstructions known is).1.filterMap Instruction.signature? =
      is.filterMap Instruction.signature? := by
  refine filterMap_foldInstructions Instruction.signature?_mapOperands (fun i hi => ?_) known is
  rwa [Instruction.callee?_eq_map, Option.map_eq_none_iff] at hi

/-- What is wrong with an instruction apart from its callee. -/
def Instruction.scopeViolations (s : Scope) (i : Instruction) : List Violation :=
  i.operands.filterMap s.operandViolation? ++ if s.isFree i.dest then [] else [.reassigned i.dest]

/-- What is wrong with a list of instructions apart from the callees. -/
def scopeViolations (s : Scope) : List Instruction → List Violation
  | [] => []
  | i :: is => i.scopeViolations s ++ scopeViolations (s.assign i.dest) is

/-- The unit has a function with the signature. -/
def Module.Provides (m : Module) (signature : Signature) : Prop :=
  (m.find? signature.name).map Function.signature = some signature

theorem Module.find?_eq_some_of_mem {m : Module} (h : (m.functions.map Function.name).Nodup)
    {f : Function} (hf : f ∈ m.functions) : m.find? f.name = some f := by
  cases hfind : m.find? f.name with
  | none =>
      have hne := List.find?_eq_none.1 hfind f hf
      simp at hne
  | some g =>
      have hname : g.name = f.name := by simpa using List.find?_some hfind
      rw [List.inj_on_of_nodup_map h (List.mem_of_find?_eq_some hfind) hf hname]

theorem Module.provides_of_mem {m : Module} (h : (m.functions.map Function.name).Nodup)
    {signature : Signature} (hmem : signature ∈ m.functions.map Function.signature) :
    m.Provides signature := by
  obtain ⟨f, hf, rfl⟩ := List.mem_map.1 hmem
  exact congrArg (Option.map Function.signature) (find?_eq_some_of_mem h hf)

theorem Instruction.calleeViolation?_eq_none {m : Module} {i : Instruction}
    (h : ∀ signature ∈ i.signature?, m.Provides signature) : i.calleeViolation? m = none := by
  cases i with
  | arithmetic | compare | widen => rfl
  | call dest callee args =>
      have hprovides := h ⟨callee, args.length⟩ rfl
      simp only [Module.Provides, Option.map_eq_some_iff, Function.signature,
        Signature.mk.injEq] at hprovides
      obtain ⟨f, hfind, -, harity⟩ := hprovides
      simp [calleeViolation?, hfind, harity]

theorem bodyViolations_eq_scopeViolations {m : Module} {is : List Instruction}
    (h : ∀ signature ∈ is.filterMap Instruction.signature?, m.Provides signature) (s : Scope) :
    bodyViolations m s is = scopeViolations s is := by
  induction is generalizing s with
  | nil => rfl
  | cons i is ih =>
      have hi : i.calleeViolation? m = none := by
        refine Instruction.calleeViolation?_eq_none fun signature hsignature => h signature ?_
        exact List.mem_filterMap.2 ⟨i, List.mem_cons_self, hsignature⟩
      have his : ∀ signature ∈ is.filterMap Instruction.signature?, m.Provides signature := by
        intro signature hsignature
        obtain ⟨j, hj, heq⟩ := List.mem_filterMap.1 hsignature
        exact h signature (List.mem_filterMap.2 ⟨j, List.mem_cons_of_mem i hj, heq⟩)
      rw [bodyViolations, scopeViolations, ih his, Instruction.violations, hi,
        Instruction.scopeViolations]
      simp

end Code

theorem filterMap_signature?_lowerOperator (op : Char) (lhs rhs : Operand) (n : Nat) :
    (lowerOperator op lhs rhs n).code.filterMap Instruction.signature? = [] := by
  unfold lowerOperator
  split <;> rfl

theorem Expr.length_value_lowerAll (es : List Expr) (n : Nat) :
    (Expr.lowerAll n es).value.length = es.length := by
  induction es generalizing n with
  | nil => rfl
  | cons e es ih => simp [Expr.lowerAll, ih]

mutual

/-- The code of an expression calls what the text calls. -/
theorem Expr.signatures_lower (e : Expr) (n : Nat) :
    ((e.lower n).code.filterMap Instruction.signature?).Perm e.calls := by
  cases e with
  | number value span | var name span => exact .nil
  | binary op lhs rhs span =>
      rw [Expr.lower, Expr.calls, List.filterMap_append, List.filterMap_append,
        filterMap_signature?_lowerOperator, List.append_nil]
      exact (lhs.signatures_lower n).append (rhs.signatures_lower _)
  | call callee args span =>
      rw [Expr.lower, Expr.calls, List.filterMap_append, ← Expr.length_value_lowerAll args n]
      exact (List.perm_append_singleton _ _).trans ((Expr.signatures_lowerAll args n).cons _)
  termination_by structural e

theorem Expr.signatures_lowerAll (es : List Expr) (n : Nat) :
    ((Expr.lowerAll n es).code.filterMap Instruction.signature?).Perm (Expr.callsAll es) := by
  cases es with
  | nil => exact .nil
  | cons e es =>
      rw [Expr.lowerAll, Expr.callsAll, List.filterMap_append]
      exact (e.signatures_lower n).append (Expr.signatures_lowerAll es _)
  termination_by structural es

end

namespace Definition

/-- The function of a definition before its constants are folded. -/
def written (d : Definition) : Function :=
  ⟨d.prototype.name, d.prototype.params,
    [⟨"entry", (d.body.lower 0).code, some (d.body.lower 0).value⟩]⟩

/-- The function that a definition becomes. -/
def compiled (d : Definition) : Function := d.written.fold

/-- What is wrong with the names of the parameters and the registers of a definition. -/
def clashes (d : Definition) : List Violation :=
  scopeViolations ⟨d.prototype.params, []⟩ (d.body.lower 0).code ++
    ((Scope.assignAll ⟨d.prototype.params, []⟩ (d.body.lower 0).code).operandViolation?
      (d.body.lower 0).value).toList

/-- What the body of a definition is refused for, given the arity of the functions that a call can
name. -/
def checkBody (d : Definition) (arity? : String → Option Nat) : Except EmissionError Unit := do
  d.body.check arity? d.prototype.params
  if d.clashes = [] then .ok () else .error (.failure (.invalid d.prototype.name d.clashes))

theorem checkBody_eq_ok_iff {d : Definition} {arity? : String → Option Nat} :
    d.checkBody arity? = .ok () ↔
      d.body.check arity? d.prototype.params = .ok () ∧ d.clashes = [] := by
  rw [checkBody]
  cases d.body.check arity? d.prototype.params with
  | error error => simp [bind, Except.bind]
  | ok value => by_cases hclashes : d.clashes = [] <;> simp [bind, Except.bind, hclashes]

@[simp] theorem name_compiled (d : Definition) : d.compiled.name = d.prototype.name := rfl

@[simp] theorem params_compiled (d : Definition) : d.compiled.params = d.prototype.params := rfl

@[simp] theorem signature_compiled (d : Definition) :
    d.compiled.signature = d.prototype.signature := rfl

@[simp] theorem isDeclaration_compiled (d : Definition) : d.compiled.isDeclaration = false := by
  rw [compiled, Function.isDeclaration_fold]
  rfl

theorem calls_compiled (d : Definition) (name : String) :
    d.compiled.calls name = true ↔ ∃ signature ∈ d.body.calls, signature.name = name := by
  have hcallees : (foldInstructions [] (d.body.lower 0).code).1.filterMap Instruction.callee? =
      ((d.body.lower 0).code.filterMap Instruction.signature?).map Signature.name := by
    rw [← foldInstructions_signatures [], List.map_filterMap]
    exact congrArg (fun f => List.filterMap f _) (funext Instruction.callee?_eq_map)
  have hcompiled : d.compiled.calls name = true ↔
      name ∈ (foldInstructions [] (d.body.lower 0).code).1.filterMap Instruction.callee? := by
    simp [compiled, written, Function.fold, foldBlocks, Function.calls]
  rw [hcompiled, hcallees, ((d.body.signatures_lower 0).map Signature.name).mem_iff, List.mem_map]

/-- Only names can be wrong with the code of a definition in a unit that has its callees. -/
theorem violations_written {d : Definition} {m : Module} (hparams : d.prototype.repeated? = none)
    (hcalls : ∀ signature ∈ d.body.calls, m.Provides signature) :
    d.written.violations m = d.clashes := by
  have hrepeats : repeats [] d.prototype.params = [] := by
    simpa [Prototype.repeated?] using hparams
  have hcode : ∀ signature ∈ (d.body.lower 0).code.filterMap Instruction.signature?,
      m.Provides signature :=
    fun signature hsignature => hcalls signature ((d.body.signatures_lower 0).mem_iff.1 hsignature)
  simp [Function.violations, written, hrepeats, blockViolations, Block.terminatorViolation?,
    bodyViolations_eq_scopeViolations hcode, clashes]

end Definition

end ScalarLang
