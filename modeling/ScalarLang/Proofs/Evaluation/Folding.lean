import ScalarLang.Code.Folding
import ScalarLang.Proofs.Evaluation.Code

/-!
# Evaluation of folded code

Two computations are `Eval.Related` if they carry out the same calls of natives
and end alike: with related values, or with the same error. Carrying out folded
instructions is so related to carrying out the instructions themselves, in an
activation where every operand reads as it does after the known registers are
replaced by their values (`Frame.Agrees`).
-/

namespace ScalarLang

namespace Eval

/-- The two computations carry out the same calls, and end in related values or the same error. -/
def Related {α β : Type} (R : α → β → Prop) (x : Eval α) (y : Eval β) : Prop :=
  ∀ calls, match x.run calls, y.run calls with
    | .ok a s, .ok b t => R a b ∧ s = t
    | .error e s, .error f t => e = f ∧ s = t
    | _, _ => False

namespace Related

variable {α β γ δ : Type} {R : α → β → Prop} {S : γ → δ → Prop}

theorem pure {a : α} {b : β} (h : R a b) : Related R (pure a) (pure b) :=
  fun _ => ⟨h, rfl⟩

theorem throw (error : ExecutionError) :
    Related R (throw error : Eval α) (throw error : Eval β) :=
  fun _ => ⟨rfl, rfl⟩

theorem bind {x : Eval α} {y : Eval β} {f : α → Eval γ} {g : β → Eval δ} (h : Related R x y)
    (hfg : ∀ a b, R a b → Related S (f a) (g b)) : Related S (x >>= f) (y >>= g) := by
  intro calls
  have hxy := h calls
  rw [EStateM.run_bind, EStateM.run_bind]
  cases hx : x.run calls with
  | ok a s =>
      cases hy : y.run calls with
      | ok b t =>
          rw [hx, hy] at hxy
          obtain ⟨hab, rfl⟩ := hxy
          exact hfg a b hab s
      | error f t => simp [hx, hy] at hxy
  | error e s =>
      cases hy : y.run calls with
      | ok b t => simp [hx, hy] at hxy
      | error f t =>
          rw [hx, hy] at hxy
          exact hxy

theorem bind_right {R' : α → δ → Prop} {x : Eval α} {y : Eval β} {g : β → Eval δ}
    (h : Related R x y) (hg : ∀ a b, R a b → Related R' (Pure.pure a) (g b)) :
    Related R' x (y >>= g) := by
  rw [← bind_pure x]
  exact h.bind hg

theorem bind_left {R' : γ → β → Prop} {x : Eval α} {y : Eval β} {f : α → Eval γ}
    (h : Related R x y) (hf : ∀ a b, R a b → Related R' (f a) (Pure.pure b)) :
    Related R' (x >>= f) y := by
  rw [← bind_pure y]
  exact h.bind hf

theorem mono {R' : α → β → Prop} {x : Eval α} {y : Eval β} (h : Related R x y)
    (hR : ∀ a b, R a b → R' a b) : Related R' x y := by
  rw [← bind_pure y]
  exact h.bind_right fun a b hab => .pure (hR a b hab)

theorem refl (x : Eval α) : Related Eq x x := by
  intro calls
  cases x.run calls <;> exact ⟨rfl, rfl⟩

/-- Computations with related results are equal if results related are equal. -/
theorem eq {x y : Eval α} (h : Related Eq x y) : x = y := by
  funext calls
  have hxy := h calls
  change x.run calls = y.run calls
  cases hx : x.run calls <;> cases hy : y.run calls <;> rw [hx, hy] at hxy
  · obtain ⟨rfl, rfl⟩ := hxy
    rfl
  · exact hxy.elim
  · exact hxy.elim
  · obtain ⟨rfl, rfl⟩ := hxy
    rfl

end Related

end Eval

namespace Code

theorem Instruction.evaluate_mapOperands (f : Operand → Operand) (read : Operand → Option Float)
    (i : Instruction) : (i.mapOperands f).evaluate read = i.evaluate fun o => read (f o) := by
  cases i <;> rfl

/-- What is computed from constants alone does not depend on how operands are read. -/
theorem Instruction.evaluate_of_constant {i : Instruction} {value : Float}
    {read : Operand → Option Float} (hread : ∀ c, read (.constant c) = some c)
    (h : i.evaluate Operand.constant? = some value) : i.evaluate read = some value := by
  have hconstant : ∀ o c, Operand.constant? o = some c → read o = some c := by
    intro o c ho
    cases o with
    | constant value => rw [hread]; exact ho
    | register name | argument name => cases ho
  cases i with
  | arithmetic op dest lhs rhs | compare op dest lhs rhs =>
      simp only [evaluate, Option.pure_def, Option.bind_eq_bind, Option.bind_eq_some_iff] at h ⊢
      obtain ⟨x, hx, y, hy, hvalue⟩ := h
      exact ⟨x, hconstant _ _ hx, y, hconstant _ _ hy, hvalue⟩
  | widen dest value => exact hconstant _ _ h
  | call dest callee args => cases h

@[simp] theorem Operand.substitute_constant (known : Known) (value : Float) :
    (Operand.constant value).substitute known = .constant value := rfl

/-- The first block of a body after folding. -/
def Block.foldFirst (b : Block) : Block :=
  ⟨b.label, (foldInstructions [] b.instructions).1,
    b.terminator.map (Operand.substitute (foldInstructions [] b.instructions).2)⟩

theorem Function.entryBlock?_fold (f : Function) :
    f.fold.entryBlock? = f.entryBlock?.map Block.foldFirst := by
  rw [entryBlock?, entryBlock?, fold]
  cases f.blocks <;> rfl

end Code

namespace Frame

open Code

/-- The second activation reads every operand, with known registers replaced by their values, as
the first one reads it. -/
structure Agrees (known : Known) (f g : Frame) : Prop where
  name : f.target.function.name = g.target.function.name
  read : ∀ o, f.read o = g.read (o.substitute known)

namespace Agrees

variable {known : Known} {f g : Frame}

theorem evaluate (h : Agrees known f g) (i : Instruction) :
    (i.mapOperands (Operand.substitute known)).evaluate g.read = i.evaluate f.read := by
  rw [Instruction.evaluate_mapOperands, funext h.read]

theorem demand (h : Agrees known f g) (o : Operand) :
    f.demand o = g.demand (o.substitute known) := by
  have hread := h.read o
  rw [Frame.demand, Frame.demand, ← hread, h.name]
  cases hf : f.read o with
  | some value => rfl
  | none =>
      -- Only a register without a known value can be missing, and that one is not replaced.
      have hsame : o.substitute known = o := by
        cases o with
        | constant value | argument name => rfl
        | register name =>
            cases hk : known.lookup name with
            | none => simp [Operand.substitute, hk]
            | some value =>
                rw [hf] at hread
                simp [Operand.substitute, hk, Frame.read] at hread
      rw [hsame]

theorem mapM_demand (h : Agrees known f g) (args : List Operand) :
    args.mapM f.demand = (args.map (Operand.substitute known)).mapM g.demand := by
  rw [List.mapM_map]
  exact congrArg (fun d => args.mapM d) (funext h.demand)

theorem assign_known (h : Agrees known f g) (register : String) (value : Float) :
    Agrees ((register, value) :: known) (f.assign register value) g := by
  refine ⟨h.name, fun o => ?_⟩
  cases o with
  | constant c => exact h.read (.constant c)
  | argument name => exact h.read (.argument name)
  | register name =>
      have hread := h.read (.register name)
      by_cases hname : name = register
      · simp [Frame.read, Frame.assign, Operand.substitute, hname]
      · have hbeq : (name == register) = false := by simpa using hname
        simpa [Frame.read, Frame.assign, Operand.substitute, List.lookup_cons, hbeq] using hread

theorem assign (h : Agrees known f g) {register : String} (fresh : known.lookup register = none)
    (value : Float) : Agrees known (f.assign register value) (g.assign register value) := by
  refine ⟨h.name, fun o => ?_⟩
  cases o with
  | constant c => exact h.read (.constant c)
  | argument name => exact h.read (.argument name)
  | register name =>
      have hread := h.read (.register name)
      by_cases hname : name = register
      · subst hname
        simp [Frame.read, Frame.assign, Operand.substitute, fresh]
      · have hbeq : (name == register) = false := by simpa using hname
        cases hk : known.lookup name with
        | none =>
            simpa [Frame.read, Frame.assign, Operand.substitute, List.lookup_cons, hbeq, hk]
              using hread
        | some value =>
            simpa [Frame.read, Frame.assign, Operand.substitute, List.lookup_cons, hbeq, hk]
              using hread

end Agrees

/-- Carrying out folded instructions does what carrying out the instructions does, if each of them
assigns a register of its own. -/
theorem carryOut_foldInstructions (call : String → List Float → Eval Float) (is : List Instruction)
    {known : Known} {f g : Frame} (agrees : Agrees known f g)
    (fresh : ∀ i ∈ is, known.lookup i.dest = none) (nodup : (is.map Instruction.dest).Nodup) :
    Eval.Related
      (fun f' g' => Agrees (foldInstructions known is).2 f' g' ∧ f'.target = f.target ∧
        g'.target = g.target)
      (f.carryOut call is) (g.carryOut call (foldInstructions known is).1) := by
  induction is generalizing known f g with
  | nil => exact .pure ⟨agrees, rfl, rfl⟩
  | cons i is ih =>
      obtain ⟨hi, hnodup⟩ := List.nodup_cons.1 nodup
      have hlater : ∀ j ∈ is, j.dest ≠ i.dest := by
        intro j hj heq
        exact hi (heq ▸ List.mem_map_of_mem hj)
      have hfresh : ∀ j ∈ is, known.lookup j.dest = none :=
        fun j hj => fresh j (List.mem_cons_of_mem i hj)
      have hassign := fun value => agrees.assign (fresh i List.mem_cons_self) value
      have hkept := agrees.evaluate i
      rw [foldInstructions]
      cases hvalue : (i.mapOperands (Operand.substitute known)).evaluate Operand.constant? with
      | some value =>
          have hcall : i.callee? = none := by
            rw [← i.callee?_mapOperands]
            exact Instruction.callee?_eq_none_of_evaluate hvalue
          have hf : i.evaluate f.read = some value := by
            rw [← hkept]
            exact Instruction.evaluate_of_constant (fun _ => rfl) hvalue
          rw [carryOut_cons_of_not_call call f is hcall, hf, Instruction.dest_mapOperands]
          refine ih (agrees.assign_known i.dest value) (fun j hj => ?_) hnodup
          rw [List.lookup_cons, beq_false_of_ne (hlater j hj)]
          exact hfresh j hj
      | none =>
          cases hcall : i.callee? with
          | none =>
              have hcall' : (i.mapOperands (Operand.substitute known)).callee? = none := by
                rw [Instruction.callee?_mapOperands, hcall]
              rw [carryOut_cons_of_not_call call f is hcall,
                carryOut_cons_of_not_call call g _ hcall', hkept, Instruction.dest_mapOperands,
                agrees.name]
              cases i.evaluate f.read with
              | none => exact .throw _
              | some value => exact ih (hassign value) hfresh hnodup
          | some name =>
              cases i with
              | arithmetic | compare | widen => cases hcall
              | call dest callee args =>
                  simp only [Instruction.mapOperands, carryOut, agrees.mapM_demand]
                  refine .bind (.refl _) ?_
                  rintro values _ rfl
                  refine .bind (.refl _) ?_
                  rintro value _ rfl
                  exact ih (hassign value) hfresh hnodup

/-- A folded body returns what the body returns, if each of its instructions assigns a register of
its own. -/
theorem returnValue_foldFirst (call : String → List Float → Eval Float) {t t' : Target}
    (args : List Float) (hname : t'.function.name = t.function.name)
    (hparams : t'.function.params = t.function.params) (hentry : t'.entry = t.entry.foldFirst)
    (nodup : (t.entry.instructions.map Instruction.dest).Nodup) :
    (enter t' args).returnValue call t'.entry.instructions =
      (enter t args).returnValue call t.entry.instructions := by
  have hstart : Agrees [] (enter t args) (enter t' args) := by
    refine ⟨hname.symm, fun o => ?_⟩
    cases o <;> simp [read, enter, Operand.substitute, hparams]
  have hcarry := carryOut_foldInstructions call t.entry.instructions hstart (fun _ _ => rfl) nodup
  refine (Eval.Related.eq ?_).symm
  rw [returnValue, returnValue, hentry]
  refine hcarry.bind ?_
  rintro f g ⟨hagrees, hf, hg⟩
  have hlabel : t'.entry.label = t.entry.label := by rw [hentry]; rfl
  have hterminator : t'.entry.terminator = t.entry.terminator.map
      (Operand.substitute (foldInstructions [] t.entry.instructions).2) := by rw [hentry]; rfl
  have hresult : f.result = g.result := by
    simp only [result, hf, hg, enter, hterminator, hlabel, hname]
    cases t.entry.terminator with
    | none => rfl
    | some value => exact hagrees.demand value
  rw [hresult]
  exact .refl _

end Frame

end ScalarLang
