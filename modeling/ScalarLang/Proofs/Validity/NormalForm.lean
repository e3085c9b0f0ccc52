import ScalarLang.Proofs.Validity.Folding

/-!
# The normal form of folding

One pass is all that folding can do. Every computation that it leaves reads something that
is not a constant (`Function.Reduced`), and of such a function nothing is folded
(`Function.Reduced.fold_eq_self`). It drops computations and no calls, and of what it keeps it
changes only operands (`Block.Thins`). A function that is valid stays so in the place where it is
folded, and so do the functions around it (`Function.fold_normalizes`).
-/

namespace ScalarLang

namespace Code

namespace Instruction

/-- The instruction with its operands left out. -/
def shape (i : Instruction) : Instruction := i.mapOperands fun _ => .constant 0

/-- What a call has apart from its operands: the register that it assigns, its callee, and the
number of its arguments. -/
def callSite? (i : Instruction) : Option (String × Signature) := i.signature?.map (i.dest, ·)

@[simp] theorem shape_mapOperands (f : Operand → Operand) (i : Instruction) :
    (i.mapOperands f).shape = i.shape := by
  cases i with
  | call dest callee args => simp [shape, mapOperands, Function.comp_def]
  | arithmetic | compare | widen => rfl

theorem callSite?_mapOperands (f : Operand → Operand) (i : Instruction) :
    (i.mapOperands f).callSite? = i.callSite? := by
  rw [callSite?, callSite?, signature?_mapOperands, dest_mapOperands]

theorem mapOperands_eq_self {f : Operand → Operand} (h : ∀ o, f o = o) (i : Instruction) :
    i.mapOperands f = i := by
  obtain rfl : f = id := funext h
  cases i <;> simp [mapOperands]

end Instruction

namespace Operand

@[simp] theorem substitute_nil (o : Operand) : o.substitute [] = o := by
  cases o <;> rfl

end Operand

/-- Nothing is left to fold in a list of instructions. -/
theorem evaluate_eq_none_of_mem_foldInstructions {known : Known} {is : List Instruction} :
    ∀ i ∈ (foldInstructions known is).1, i.evaluate Operand.constant? = none := by
  induction is generalizing known with
  | nil => exact List.forall_mem_nil _
  | cons i is ih =>
      rw [foldInstructions]
      cases hvalue : (i.mapOperands (Operand.substitute known)).evaluate Operand.constant? with
      | some value => exact ih
      | none => exact List.forall_mem_cons.2 ⟨hvalue, ih⟩

theorem foldInstructions_eq_self {is : List Instruction}
    (h : ∀ i ∈ is, i.evaluate Operand.constant? = none) : foldInstructions [] is = (is, []) := by
  induction is with
  | nil => rfl
  | cons i is ih =>
      obtain ⟨hi, his⟩ := List.forall_mem_cons.1 h
      rw [foldInstructions, Instruction.mapOperands_eq_self Operand.substitute_nil]
      simp only [hi, ih his]

/-- Every instruction is kept, or leaves one known value. -/
theorem length_foldInstructions (known : Known) (is : List Instruction) :
    (foldInstructions known is).1.length + (foldInstructions known is).2.length =
      is.length + known.length := by
  induction is generalizing known with
  | nil => simp
  | cons i is ih =>
      rw [foldInstructions]
      cases hvalue : (i.mapOperands (Operand.substitute known)).evaluate Operand.constant? with
      | some value =>
          rw [ih, List.length_cons, List.length_cons]
          omega
      | none =>
          have hlater := ih known
          simp only [List.length_cons]
          omega

/-- Folding keeps instructions in their order, apart from their operands. -/
theorem shapes_foldInstructions (known : Known) (is : List Instruction) :
    ((foldInstructions known is).1.map Instruction.shape).Sublist (is.map Instruction.shape) := by
  induction is generalizing known with
  | nil => exact .slnil
  | cons i is ih =>
      rw [foldInstructions]
      cases hvalue : (i.mapOperands (Operand.substitute known)).evaluate Operand.constant? with
      | some value => exact (ih _).cons i.shape
      | none =>
          rw [List.map_cons, List.map_cons, Instruction.shape_mapOperands]
          exact (ih known).cons_cons i.shape

def Block.callSites (b : Block) : List (String × Signature) :=
  b.instructions.filterMap Instruction.callSite?

/-- The second block is the first one without some of its computations, and with other operands. -/
structure Block.Thins (b c : Block) : Prop where
  label : c.label = b.label
  shapes : (c.instructions.map Instruction.shape).Sublist (b.instructions.map Instruction.shape)
  callSites : c.callSites = b.callSites
  terminator : c.terminator.isSome = b.terminator.isSome

theorem thins_foldBlocks (known : Known) (bs : List Block) :
    List.Forall₂ Block.Thins bs (foldBlocks known bs).1 := by
  induction bs generalizing known with
  | nil => exact .nil
  | cons b bs ih =>
      rw [foldBlocks]
      refine .cons ⟨rfl, shapes_foldInstructions known _, ?_, Option.isSome_map⟩ (ih _)
      refine filterMap_foldInstructions Instruction.callSite?_mapOperands (fun i hi => ?_) known _
      rw [Instruction.callee?_eq_map, Option.map_eq_none_iff] at hi
      rw [Instruction.callSite?, hi, Option.map_none]

/-- Every instruction is kept, or leaves one known value. -/
theorem length_foldBlocks_instructions (known : Known) (bs : List Block) :
    ((foldBlocks known bs).1.flatMap Block.instructions).length + (foldBlocks known bs).2.length =
      (bs.flatMap Block.instructions).length + known.length := by
  induction bs generalizing known with
  | nil => simp
  | cons b bs ih =>
      have hbody := length_foldInstructions known b.instructions
      have hlater := ih (foldInstructions known b.instructions).2
      simp only [foldBlocks, List.flatMap_cons, List.length_append]
      omega

theorem evaluate_eq_none_of_mem_foldBlocks {known : Known} {bs : List Block} :
    ∀ b ∈ (foldBlocks known bs).1, ∀ i ∈ b.instructions,
      i.evaluate Operand.constant? = none := by
  induction bs generalizing known with
  | nil => exact List.forall_mem_nil _
  | cons b bs ih =>
      rw [foldBlocks]
      exact List.forall_mem_cons.2 ⟨evaluate_eq_none_of_mem_foldInstructions, ih⟩

theorem foldBlocks_eq_self {bs : List Block}
    (h : ∀ b ∈ bs, ∀ i ∈ b.instructions, i.evaluate Operand.constant? = none) :
    foldBlocks [] bs = (bs, []) := by
  induction bs with
  | nil => rfl
  | cons b bs ih =>
      obtain ⟨hb, hbs⟩ := List.forall_mem_cons.1 h
      have hsubstitute : Operand.substitute [] = id := funext Operand.substitute_nil
      simp only [foldBlocks, foldInstructions_eq_self hb, ih hbs, hsubstitute, Option.map_id, id]

namespace Function

/-- The instructions of all blocks, in the order of the text. -/
def instructions (f : Function) : List Instruction := f.blocks.flatMap Block.instructions

/-- Every computation reads something that is not a constant. -/
def Reduced (f : Function) : Prop :=
  ∀ b ∈ f.blocks, ∀ i ∈ b.instructions, i.callee? = none → ∃ o ∈ i.operands, o.constant? = none

theorem signature_fold (f : Function) : f.fold.signature = f.signature := rfl

theorem reduced_fold (f : Function) : f.fold.Reduced := fun b hb i hi =>
  Instruction.evaluate_eq_none_iff.1 (evaluate_eq_none_of_mem_foldBlocks b hb i hi)

/-- Nothing is folded of a function without computations on constants. -/
theorem Reduced.fold_eq_self {f : Function} (h : f.Reduced) : f.fold = f ∧ f.foldCount = 0 := by
  have hblocks : foldBlocks [] f.blocks = (f.blocks, []) := foldBlocks_eq_self fun b hb i hi =>
    Instruction.evaluate_eq_none_iff.2 (h b hb i hi)
  rw [fold, foldCount, hblocks]
  exact ⟨rfl, rfl⟩

/-- Every instruction is kept or counted. -/
theorem length_instructions_fold (f : Function) :
    f.fold.instructions.length + f.foldCount = f.instructions.length :=
  length_foldBlocks_instructions [] f.blocks

end Function

section Replacement

variable {unit : String} {before after : List Function} {f g : Function}

/-- A module provides the same if a function is replaced by one of the same signature. -/
theorem Module.Provides.replace (hsignature : g.signature = f.signature) {signature : Signature}
    (h : Module.Provides ⟨unit, before ++ f :: after⟩ signature) :
    Module.Provides ⟨unit, before ++ g :: after⟩ signature := by
  have hname : g.name = f.name := congrArg Signature.name hsignature
  simp only [Provides, find?, List.find?_append, List.find?_cons, hname] at h ⊢
  cases hbefore : before.find? (·.name == signature.name) with
  | some k =>
      rw [hbefore] at h
      exact h
  | none =>
      rw [hbefore] at h
      cases hf : f.name == signature.name with
      | true =>
          rw [hf] at h
          exact (congrArg some hsignature).trans h
      | false =>
          rw [hf] at h
          exact h

/-- A function stays valid if a function of its module is replaced by one of the same signature. -/
theorem Function.Valid.replace (hsignature : g.signature = f.signature) {h : Function}
    (hvalid : h.Valid ⟨unit, before ++ f :: after⟩) : h.Valid ⟨unit, before ++ g :: after⟩ :=
  hvalid.of_provides fun signature hmem =>
    Module.Provides.replace hsignature ((valid_iff.1 hvalid).2 signature hmem)

/-- A module stays valid if one of its functions is folded. -/
theorem Module.Valid.fold (h : Module.Valid ⟨unit, before ++ f :: after⟩) :
    Module.Valid ⟨unit, before ++ f.fold :: after⟩ := by
  obtain ⟨hbefore, hrest⟩ := List.forall_mem_append.1 h
  obtain ⟨hf, hafter⟩ := List.forall_mem_cons.1 hrest
  refine List.forall_mem_append.2 ⟨fun g hg => ?_, List.forall_mem_cons.2 ⟨?_, fun g hg => ?_⟩⟩
  · exact (hbefore g hg).replace f.signature_fold
  · exact hf.fold.replace f.signature_fold
  · exact (hafter g hg).replace f.signature_fold

end Replacement

namespace Function

/-- Folding a function leaves it valid where it is, and the module around it. What it leaves is in
normal form, has the same calls, and lacks as many instructions as are counted, and folding it once
more does nothing. -/
theorem fold_normalizes (unit : String) (before after : List Function) (f : Function) :
    (f.Valid ⟨unit, before ++ f :: after⟩ → f.fold.Valid ⟨unit, before ++ f.fold :: after⟩) ∧
      (Module.Valid ⟨unit, before ++ f :: after⟩ →
        Module.Valid ⟨unit, before ++ f.fold :: after⟩) ∧
      f.fold.Reduced ∧ List.Forall₂ Block.Thins f.blocks f.fold.blocks ∧
      f.fold.instructions.length + f.foldCount = f.instructions.length ∧
      f.fold.fold = f.fold ∧ f.fold.foldCount = 0 := by
  refine ⟨fun h => ?_, Module.Valid.fold, f.reduced_fold, thins_foldBlocks [] f.blocks,
    f.length_instructions_fold, ?_⟩
  · exact h.fold.replace f.signature_fold
  · exact f.reduced_fold.fold_eq_self

/-- The value of a register goes past a call into a later block, where another value comes of it. -/
theorem fold_normalizes_chain :
    let f : Function := ⟨"f", ["x"], [
      ⟨"entry", [.arithmetic .add "addtmp1" (.constant 1) (.constant 2),
        .call "calltmp2" "f" [.register "addtmp1"]], some (.register "calltmp2")⟩,
      ⟨"later", [.widen "booltmp3" (.register "addtmp1"),
        .arithmetic .mul "multmp4" (.register "calltmp2") (.register "booltmp3")],
        some (.register "booltmp3")⟩]⟩
    f.Valid ⟨"unit", [f]⟩ ∧ f.fold.Valid ⟨"unit", [f.fold]⟩ ∧ f.foldCount = 2 ∧
      f.fold.instructions.length + 2 = 4 ∧ f.fold.foldCount = 0 := by
  intro f
  have hvalid : f.Valid ⟨"unit", [] ++ f :: []⟩ := by decide
  obtain ⟨hfunction, -, -, -, hcount, -, hagain⟩ := fold_normalizes "unit" [] [] f
  exact ⟨hvalid, hfunction hvalid, rfl, hcount, hagain⟩

end Function

end Code

end ScalarLang
