import ScalarLang.Code.Basic

/-!
# Constant folding

Folding goes through the instructions of a function once. It replaces registers
whose value is known by that value, computes the instructions that then have
only constants to read, and drops them. Calls are kept, whatever they read.
Known values carry over from block to block.
-/

namespace ScalarLang

namespace Code

/-- The values of registers, the latest first. -/
abbrev Known := List (String × Float)

/-- Replaces a register by its value, if that is known. -/
def Operand.substitute (known : Known) : Operand → Operand
  | register name =>
    match known.lookup name with
    | some value => constant value
    | none => register name
  | operand => operand

/-- Folds a list of instructions: what is kept of it, and the values known behind it. -/
def foldInstructions (known : Known) : List Instruction → List Instruction × Known
  | [] => ([], known)
  | i :: is =>
    let i := i.mapOperands (Operand.substitute known)
    match i.evaluate Operand.constant? with
    | some value => foldInstructions ((i.dest, value) :: known) is
    | none =>
      let later := foldInstructions known is
      (i :: later.1, later.2)

def foldBlocks (known : Known) : List Block → List Block × Known
  | [] => ([], known)
  | b :: bs =>
    let body := foldInstructions known b.instructions
    let terminator := b.terminator.map (Operand.substitute body.2)
    let later := foldBlocks body.2 bs
    (⟨b.label, body.1, terminator⟩ :: later.1, later.2)

def Function.fold (f : Function) : Function := { f with blocks := (foldBlocks [] f.blocks).1 }

/-- The number of instructions that folding drops: each leaves one known value. -/
def Function.foldCount (f : Function) : Nat := (foldBlocks [] f.blocks).2.length

@[simp] theorem Function.name_fold (f : Function) : f.fold.name = f.name := rfl

@[simp] theorem Function.params_fold (f : Function) : f.fold.params = f.params := rfl

@[simp] theorem foldInstructions_nil (known : Known) :
    foldInstructions known [] = ([], known) := rfl

@[simp] theorem foldBlocks_nil (known : Known) : foldBlocks known [] = ([], known) := rfl

/-- Folding keeps the number of blocks. -/
theorem length_foldBlocks (known : Known) (blocks : List Block) :
    (foldBlocks known blocks).1.length = blocks.length := by
  induction blocks generalizing known with
  | nil => rfl
  | cons b bs ih => simp [foldBlocks, ih]

@[simp] theorem Function.isDeclaration_fold (f : Function) :
    f.fold.isDeclaration = f.isDeclaration := by
  have same := length_foldBlocks [] f.blocks
  unfold Function.isDeclaration Function.fold
  cases h : f.blocks <;> cases h' : (foldBlocks [] f.blocks).1 <;> simp_all

end Code

end ScalarLang
