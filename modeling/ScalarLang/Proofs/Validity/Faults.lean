import ScalarLang.Proofs.Validity.NormalForm

/-!
# Faults and their places

What is wrong with a function can be said place by place (`Function.Fault`): it depends on what
stands at a place of the text and on the instructions in front of it, and on no state that is
carried along. A function without faults is well-formed (`Function.wellFormed_iff`): every
instruction is in order behind the instructions in front of it, in whichever blocks these are.
-/

namespace ScalarLang

namespace Code

/-! ### Places of a function -/

/-- A part of an instruction at which it can be at fault. -/
inductive Part where
  | operand (index : Nat)
  | callee
  | register
  deriving DecidableEq, Repr, Inhabited

/-- A line of a block, with the part of it. -/
inductive Line where
  | instruction (index : Nat) (part : Part)
  | terminator
  deriving DecidableEq, Repr, Inhabited

/-- A place of a function at which it can be at fault. -/
inductive Site where
  | parameter (index : Nat)
  | block (index : Nat) (line : Line)
  deriving DecidableEq, Repr, Inhabited

/-- An instruction reads its operands, calls its callee and assigns its register. -/
inductive Part.Before : Part → Part → Prop
  | operand {k l : Nat} : k < l → Before (.operand k) (.operand l)
  | callee {k : Nat} : Before (.operand k) .callee
  | register {k : Nat} : Before (.operand k) .register
  | calleeRegister : Before .callee .register

/-- A block ends with its terminator. -/
inductive Line.Before : Line → Line → Prop
  | part {k : Nat} {p q : Part} : p.Before q → Before (.instruction k p) (.instruction k q)
  | instruction {k l : Nat} {p q : Part} : k < l → Before (.instruction k p) (.instruction l q)
  | terminator {k : Nat} {p : Part} : Before (.instruction k p) .terminator

/-- The parameters of a function stand in front of its blocks. -/
inductive Site.Before : Site → Site → Prop
  | parameter {k l : Nat} : k < l → Before (.parameter k) (.parameter l)
  | parameterBlock {k n : Nat} {p : Line} : Before (.parameter k) (.block n p)
  | line {n : Nat} {p q : Line} : p.Before q → Before (.block n p) (.block n q)
  | block {n o : Nat} {p q : Line} : n < o → Before (.block n p) (.block o q)

theorem Part.not_before_self (p : Part) : ¬ p.Before p := by
  rintro (hlt | _)
  exact Nat.lt_irrefl _ hlt

theorem Line.not_before_self (p : Line) : ¬ p.Before p := by
  rintro (hpart | hlt)
  · exact Part.not_before_self _ hpart
  · exact Nat.lt_irrefl _ hlt

theorem Site.not_before_self (p : Site) : ¬ p.Before p := by
  rintro (hlt | _ | hline | hlt)
  · exact Nat.lt_irrefl _ hlt
  · exact Line.not_before_self _ hline
  · exact Nat.lt_irrefl _ hlt

/-! ### Faults -/

/-- The operand can be read behind the instructions: a parameter, or a register that one of them
assigns and that has not the name of a parameter. -/
def Operand.Available (params : List String) (before : List Instruction) : Operand → Prop
  | .constant _ => True
  | .argument name => name ∈ params
  | .register name => name ∉ params ∧ ∃ earlier ∈ before, earlier.dest = name

/-- What is wrong with an operand that cannot be read. -/
inductive Operand.Fault (params : List String) (before : List Instruction) :
    Operand → Violation → Prop
  | argument {name : String} : ¬ (Operand.argument name).Available params before →
      Fault params before (.argument name) (.unknownArgument name)
  | register {name : String} : ¬ (Operand.register name).Available params before →
      Fault params before (.register name) (.undefinedRegister name)

theorem Operand.Fault.not_available {params : List String} {before : List Instruction} {o : Operand}
    {v : Violation} (h : o.Fault params before v) : ¬ o.Available params before := by
  cases h with
  | argument h | register h => exact h

/-- What is wrong with the callee of an instruction: the module does not have it, or with another
number of parameters. -/
inductive Instruction.CalleeFault (m : Module) : Instruction → Violation → Prop
  | undeclared {dest callee : String} {args : List Operand} : m.find? callee = none →
      CalleeFault m (.call dest callee args) (.undeclaredCallee callee)
  | argumentCount {dest callee : String} {args : List Operand} {f : Function} :
      m.find? callee = some f → f.params.length ≠ args.length →
      CalleeFault m (.call dest callee args)
        (.argumentCount callee args.length f.params.length)

/-- The register can be assigned behind the instructions: no parameter has its name and none of
them assigns it. -/
def Assignable (params : List String) (before : List Instruction) (register : String) : Prop :=
  register ∉ params ∧ ∀ earlier ∈ before, earlier.dest ≠ register

/-- What is wrong with a part of an instruction behind others. -/
def Instruction.Fault (m : Module) (params : List String) (before : List Instruction)
    (i : Instruction) : Part → Violation → Prop
  | .operand k, v => ∃ o, i.operands[k]? = some o ∧ o.Fault params before v
  | .callee, v => i.CalleeFault m v
  | .register, v => ¬ Assignable params before i.dest ∧ v = .reassigned i.dest

/-- What is wrong with a line of a block behind the instructions of others. -/
def Block.Fault (m : Module) (params : List String) (before : List Instruction) (b : Block) :
    Line → Violation → Prop
  | .instruction k part, v => ∃ i, b.instructions[k]? = some i ∧
      i.Fault m params (before ++ b.instructions.take k) part v
  | .terminator, v => (b.terminator = none ∧ v = .unterminated b.label) ∨
      ∃ value, b.terminator = some value ∧ value.Fault params (before ++ b.instructions) v

/-- What is wrong with a function of the module at one of its places. -/
def Function.Fault (m : Module) (f : Function) : Site → Violation → Prop
  | .parameter k, v => ∃ param, f.params[k]? = some param ∧ param ∈ f.params.take k ∧
      v = .repeatedParameter param
  | .block n line, v => ∃ b, f.blocks[n]? = some b ∧
      b.Fault m f.params ((f.blocks.take n).flatMap Block.instructions) line v

/-- The instruction is in order behind others. -/
structure Instruction.WellFormed (m : Module) (params : List String) (before : List Instruction)
    (i : Instruction) : Prop where
  operands : ∀ o ∈ i.operands, o.Available params before
  callee : ∀ dest callee args, i = .call dest callee args →
    ∃ f, m.find? callee = some f ∧ f.params.length = args.length
  register : Assignable params before i.dest

/-- The function is in order: its parameters are distinct, its instructions are in order behind
those in front of them, in whichever blocks these are, and its blocks end with values that can be
read there. -/
structure Function.WellFormed (m : Module) (f : Function) : Prop where
  params : f.params.Nodup
  instructions : ∀ (k : Nat) (i : Instruction), f.instructions[k]? = some i →
    i.WellFormed m f.params (f.instructions.take k)
  terminators : ∀ (n : Nat) (b : Block), f.blocks[n]? = some b → ∃ value,
    b.terminator = some value ∧
      value.Available f.params ((f.blocks.take (n + 1)).flatMap Block.instructions)

/-! ### Functions without faults -/

theorem Operand.available_of_forall {params : List String} {before : List Instruction} {o : Operand}
    (h : ∀ v, ¬ o.Fault params before v) : o.Available params before := by
  by_contra hread
  cases o with
  | constant value => exact hread trivial
  | argument name => exact h _ (.argument hread)
  | register name => exact h _ (.register hread)

theorem Instruction.wellFormed_iff {m : Module} {params : List String} {before : List Instruction}
    {i : Instruction} :
    i.WellFormed m params before ↔ ∀ part v, ¬ i.Fault m params before part v := by
  constructor
  · rintro h (k | _ | _) v
    · rintro ⟨o, ho, hfault⟩
      exact hfault.not_available (h.operands o (List.mem_of_getElem? ho))
    · intro hfault
      cases hfault with
      | undeclared hfind =>
          obtain ⟨f, hf, -⟩ := h.callee _ _ _ rfl
          rw [hfind] at hf
          cases hf
      | argumentCount hfind hcount =>
          obtain ⟨f, hf, hcount'⟩ := h.callee _ _ _ rfl
          rw [hfind] at hf
          cases hf
          exact hcount hcount'
    · rintro ⟨hassigned, -⟩
      exact hassigned h.register
  · intro h
    refine ⟨fun o ho => ?_, ?_, ?_⟩
    · obtain ⟨k, hk⟩ := List.mem_iff_getElem?.1 ho
      exact Operand.available_of_forall fun v hfault => h (.operand k) v ⟨o, hk, hfault⟩
    · rintro dest callee args rfl
      cases hfind : m.find? callee with
      | none => exact absurd (.undeclared hfind) (h .callee _)
      | some f =>
          refine ⟨f, rfl, ?_⟩
          by_contra hcount
          exact h .callee _ (.argumentCount hfind hcount)
    · by_contra hassigned
      exact h .register _ ⟨hassigned, rfl⟩

/-- What holds at the places of a list behind another one holds at its places in both. -/
theorem forall_getElem?_append_iff {β : Type} {P : List β → β → Prop} {xs ys : List β} :
    (∀ (k : Nat) (x : β), (xs ++ ys)[k]? = some x → P ((xs ++ ys).take k) x) ↔
      (∀ (k : Nat) (x : β), xs[k]? = some x → P (xs.take k) x) ∧
        ∀ (k : Nat) (x : β), ys[k]? = some x → P (xs ++ ys.take k) x := by
  constructor
  · intro h
    refine ⟨fun k x hx => ?_, fun k x hx => ?_⟩
    · have hlt := (List.getElem?_eq_some_iff.1 hx).1
      have hplace := h k x (by rwa [List.getElem?_append_left hlt])
      rwa [List.take_append_of_le_length (Nat.le_of_lt hlt)] at hplace
    · have hplace := h (xs.length + k) x (by
        rwa [List.getElem?_append_right (Nat.le_add_right _ _), Nat.add_sub_cancel_left])
      rwa [List.take_length_add_append] at hplace
  · rintro ⟨hxs, hys⟩ k x hx
    by_cases hlt : k < xs.length
    · rw [List.getElem?_append_left hlt] at hx
      rw [List.take_append_of_le_length (Nat.le_of_lt hlt)]
      exact hxs k x hx
    · obtain ⟨j, rfl⟩ := Nat.exists_eq_add_of_le (Nat.le_of_not_lt hlt)
      rw [List.getElem?_append_right (Nat.le_add_right _ _), Nat.add_sub_cancel_left] at hx
      rw [List.take_length_add_append]
      exact hys j x hx

/-- The places of a flattened list are those of its parts. -/
theorem forall_getElem?_flatMap_iff {α β : Type} {g : α → List β} {P : List β → β → Prop}
    {l : List α} :
    (∀ (k : Nat) (x : β), (l.flatMap g)[k]? = some x → P ((l.flatMap g).take k) x) ↔
      ∀ (n : Nat) (a : α), l[n]? = some a → ∀ (k : Nat) (x : β), (g a)[k]? = some x →
        P ((l.take n).flatMap g ++ (g a).take k) x := by
  induction l generalizing P with
  | nil => simp
  | cons a l ih =>
      rw [List.flatMap_cons, forall_getElem?_append_iff, ih (P := fun before => P (g a ++ before))]
      constructor
      · rintro ⟨hfirst, hlater⟩ (_ | n) a' ha'
        · cases ha'
          exact hfirst
        · simpa using hlater n a' ha'
      · intro h
        refine ⟨h 0 a rfl, fun n a' ha' => ?_⟩
        simpa using h (n + 1) a' ha'

namespace Function

variable {m : Module} {f : Function}

theorem nodup_params_iff : f.params.Nodup ↔ ∀ k v, ¬ f.Fault m (.parameter k) v := by
  rw [List.Nodup, List.pairwise_iff_getElem]
  constructor
  · rintro h k _ ⟨param, hparam, hmem, -⟩
    obtain ⟨hk, rfl⟩ := List.getElem?_eq_some_iff.1 hparam
    obtain ⟨j, hj, heq⟩ := List.mem_take_iff_getElem.1 hmem
    exact h j k _ hk (Nat.lt_of_lt_of_le hj (Nat.min_le_left _ _)) heq
  · intro h j k hj hk hlt heq
    refine h k _ ⟨f.params[k], List.getElem?_eq_getElem hk, ?_, rfl⟩
    exact List.mem_take_iff_getElem.2 ⟨j, Nat.lt_min.2 ⟨hlt, hj⟩, heq⟩

/-- A function is well-formed if it is at fault nowhere. -/
theorem wellFormed_iff : f.WellFormed m ↔ ∀ site v, ¬ f.Fault m site v := by
  have hinstructions := forall_getElem?_flatMap_iff (l := f.blocks) (g := Block.instructions)
    (P := fun before i => i.WellFormed m f.params before)
  have hterminated {n : Nat} {b : Block} (hb : f.blocks[n]? = some b) :
      (f.blocks.take (n + 1)).flatMap Block.instructions =
        (f.blocks.take n).flatMap Block.instructions ++ b.instructions := by
    rw [List.take_add_one, hb, List.flatMap_append]
    simp
  constructor
  · rintro h (k | ⟨n, line⟩) v
    · exact nodup_params_iff.1 h.params k v
    · rintro ⟨b, hb, hfault⟩
      cases line with
      | instruction k part =>
          obtain ⟨i, hi, hfault⟩ := hfault
          exact Instruction.wellFormed_iff.1 (hinstructions.1 h.instructions n b hb k i hi) part v
            hfault
      | terminator =>
          obtain ⟨value, hvalue, hread⟩ := h.terminators n b hb
          obtain ⟨hnone, -⟩ | ⟨other, hother, hfault⟩ := hfault
          · rw [hvalue] at hnone
            cases hnone
          · rw [hvalue] at hother
            cases hother
            rw [hterminated hb] at hread
            exact hfault.not_available hread
  · intro h
    refine ⟨nodup_params_iff.2 fun k => h (.parameter k), ?_, fun n b hb => ?_⟩
    · refine hinstructions.2 fun n b hb k i hi => ?_
      refine Instruction.wellFormed_iff.2 fun part v hfault => ?_
      exact h (.block n (.instruction k part)) v ⟨b, hb, i, hi, hfault⟩
    · have hline (v : Violation) (hfault : b.Fault m f.params
          ((f.blocks.take n).flatMap Block.instructions) .terminator v) : False :=
        h (.block n .terminator) v ⟨b, hb, hfault⟩
      cases hvalue : b.terminator with
      | none => exact absurd (.inl ⟨hvalue, rfl⟩) (hline (.unterminated b.label))
      | some value =>
          refine ⟨value, rfl, ?_⟩
          rw [hterminated hb]
          exact Operand.available_of_forall fun v hfault => hline v (.inr ⟨value, hvalue, hfault⟩)

end Function

end Code

end ScalarLang
