import ScalarLang.Code.Folding
import ScalarLang.Emission.OpenUnit
import ScalarLang.Expr

/-!
# Lowering

`Expr.lower` is the code of an expression as a function of the tree alone: the
instructions, where the value is behind them, and the number of the latest
register. The registers are numbered in the order of the code
(`Expr.numbers_lower`), so every instruction assigns a register of its own: a
register is told by the number behind its stem.
-/

namespace ScalarLang

open Code

/-- The number in a register name: what is behind the stem, which has no digits. -/
def registerNumber (register : String) : Nat :=
  Nat.ofDigitChars 10 (register.toList.dropWhile (!·.isDigit)) 0

/-- The number of a register is read back from its name. -/
theorem registerNumber_append_repr {stem : String} (h : stem.toList.all (!·.isDigit)) (n : Nat) :
    registerNumber (stem ++ Nat.repr n) = n := by
  have hstem : ∀ c ∈ stem.toList, (!c.isDigit) = true := by simpa using h
  have hdigits : (Nat.toDigits 10 n).dropWhile (!·.isDigit) = Nat.toDigits 10 n := by
    cases hn : Nat.toDigits 10 n with
    | nil => rfl
    | cons c cs =>
        have hc : c.isDigit := Nat.isDigit_of_mem_toDigits (b := 10) (n := n) (by decide)
          (by decide) (by simp [hn])
        simp [hc]
  rw [registerNumber, String.toList_append, Nat.toList_repr, List.dropWhile_append_of_pos hstem,
    hdigits, Nat.ofDigitChars_ten_toDigits]

/-- What a tree is lowered to. -/
structure Lowered (α : Type) where
  code : List Instruction
  /-- Where the value is behind the code. -/
  value : α
  /-- The number given to the latest register. -/
  latest : Nat

/-- The code of an operator behind the code of its operands. An operator that the language does
not know has none. -/
def lowerOperator (op : Char) (lhs rhs : Operand) (n : Nat) : Lowered Operand :=
  match Operator.ofChar? op with
  | some (.arithmetic op) =>
    let dest := Emit.arithmeticStem op ++ Nat.repr (n + 1)
    ⟨[.arithmetic op dest lhs rhs], .register dest, n + 1⟩
  | some (.comparison op) =>
    let flag := "cmptmp" ++ Nat.repr (n + 1)
    let dest := "booltmp" ++ Nat.repr (n + 2)
    ⟨[.compare op flag lhs rhs, .widen dest (.register flag)], .register dest, n + 2⟩
  | none => ⟨[], lhs, n⟩

mutual

/-- The code of an expression whose first register has the number behind `n`. -/
def Expr.lower (n : Nat) (e : Expr) : Lowered Operand :=
  match e with
  | .number value _ => ⟨[], .constant value, n⟩
  | .var name _ => ⟨[], .argument name, n⟩
  | .binary op lhs rhs _ =>
    let l := lhs.lower n
    let r := rhs.lower l.latest
    let o := lowerOperator op l.value r.value r.latest
    ⟨l.code ++ (r.code ++ o.code), o.value, o.latest⟩
  | .call callee args _ =>
    let as := Expr.lowerAll n args
    let dest := "calltmp" ++ Nat.repr (as.latest + 1)
    ⟨as.code ++ [.call dest callee as.value], .register dest, as.latest + 1⟩
  termination_by structural e

/-- The code of expressions from left to right. -/
def Expr.lowerAll (n : Nat) (es : List Expr) : Lowered (List Operand) :=
  match es with
  | [] => ⟨[], [], n⟩
  | e :: es =>
    let first := e.lower n
    let later := Expr.lowerAll first.latest es
    ⟨first.code ++ later.code, first.value :: later.value, later.latest⟩
  termination_by structural es

end

/-- The stem of the register that an instruction assigns. -/
def Code.Instruction.stem : Instruction → String
  | .arithmetic op _ _ _ => Emit.arithmeticStem op
  | .compare _ _ _ _ => "cmptmp"
  | .widen _ _ => "booltmp"
  | .call _ _ _ => "calltmp"

theorem Code.Instruction.all_stem (i : Instruction) : i.stem.toList.all (!·.isDigit) := by
  cases i <;> rw [stem]
  case arithmetic op _ _ _ => cases op <;> decide
  all_goals decide

theorem registerNumber_call (n : Nat) : registerNumber ("calltmp" ++ Nat.repr n) = n :=
  registerNumber_append_repr (by decide) n

/-- The registers that instructions assign are numbered one by one, from the number behind `n`. -/
def Numbered (n : Nat) : List Instruction → Prop
  | [] => True
  | i :: is => i.dest = i.stem ++ Nat.repr (n + 1) ∧ Numbered (n + 1) is

namespace Numbered

variable {n : Nat} {is js : List Instruction}

theorem append (h : Numbered n is) (h' : Numbered (n + is.length) js) : Numbered n (is ++ js) := by
  induction is generalizing n with
  | nil => exact h'
  | cons i is ih =>
      refine ⟨h.1, ih h.2 ?_⟩
      rwa [Nat.add_right_comm, Nat.add_assoc]

theorem dest_getElem (h : Numbered n is) (k : Nat) (hk : k < is.length) :
    is[k].dest = is[k].stem ++ Nat.repr (n + k + 1) := by
  induction is generalizing n k with
  | nil => cases hk
  | cons i is ih =>
      cases k with
      | zero => exact h.1
      | succ k =>
          have hlater := ih h.2 k (Nat.lt_of_succ_lt_succ hk)
          rwa [Nat.add_right_comm n 1 k] at hlater

theorem lt_registerNumber (h : Numbered n is) {i : Instruction} (hi : i ∈ is) :
    n < registerNumber i.dest := by
  obtain ⟨k, hk, rfl⟩ := List.mem_iff_getElem.1 hi
  rw [h.dest_getElem k hk, registerNumber_append_repr (Instruction.all_stem _)]
  exact Nat.lt_succ_of_le (Nat.le_add_right n k)

/-- No register is assigned twice. -/
theorem nodup (h : Numbered n is) : (is.map Instruction.dest).Nodup := by
  induction is generalizing n with
  | nil => exact List.nodup_nil
  | cons i is ih =>
      refine List.nodup_cons.2 ⟨fun hmem => ?_, ih h.2⟩
      obtain ⟨j, hj, hdest⟩ := List.mem_map.1 hmem
      have hlt := h.2.lt_registerNumber hj
      rw [hdest, h.1, registerNumber_append_repr i.all_stem] at hlt
      exact Nat.lt_irrefl _ hlt

end Numbered

/-- The code assigns the registers numbered from the one behind `n` to the latest. -/
structure Lowered.Numbers {α : Type} (l : Lowered α) (n : Nat) : Prop where
  code : Numbered n l.code
  latest : l.latest = n + l.code.length

namespace Lowered.Numbers

variable {α : Type} {l : Lowered α} {n : Nat}

theorem le (h : l.Numbers n) : n ≤ l.latest := by
  rw [h.latest]
  exact Nat.le_add_right n l.code.length

/-- Code behind other code goes on with the next number. -/
theorem append (h : l.Numbers n) {is : List Instruction} (his : Numbered l.latest is) {β : Type}
    (value : β) : (⟨l.code ++ is, value, l.latest + is.length⟩ : Lowered β).Numbers n where
  code := h.code.append (h.latest ▸ his)
  latest := by rw [h.latest, List.length_append, Nat.add_assoc]

theorem bind {β γ : Type} {l' : Lowered β} (h : l.Numbers n) (h' : l'.Numbers l.latest)
    (value : γ) : (⟨l.code ++ l'.code, value, l'.latest⟩ : Lowered γ).Numbers n := by
  rw [h'.latest]
  exact h.append h'.code value

end Lowered.Numbers

theorem numbers_lowerOperator (op : Char) (lhs rhs : Operand) (n : Nat) :
    (lowerOperator op lhs rhs n).Numbers n := by
  unfold lowerOperator
  split
  · exact ⟨⟨rfl, trivial⟩, rfl⟩
  · exact ⟨⟨rfl, rfl, trivial⟩, rfl⟩
  · exact ⟨trivial, rfl⟩

mutual

theorem Expr.numbers_lower (e : Expr) (n : Nat) : (e.lower n).Numbers n := by
  cases e with
  | number value span | var name span => exact ⟨trivial, rfl⟩
  | binary op lhs rhs span =>
      have hrhs := rhs.numbers_lower (lhs.lower n).latest
      have hright := hrhs.bind (numbers_lowerOperator op (lhs.lower n).value
        (rhs.lower (lhs.lower n).latest).value _) ()
      exact (lhs.numbers_lower n).bind hright _
  | call callee args span =>
      have hcall : Numbered (Expr.lowerAll n args).latest [.call
          ("calltmp" ++ Nat.repr ((Expr.lowerAll n args).latest + 1)) callee
          (Expr.lowerAll n args).value] := ⟨rfl, trivial⟩
      exact (Expr.numbers_lowerAll args n).append hcall _
  termination_by structural e

theorem Expr.numbers_lowerAll (es : List Expr) (n : Nat) : (Expr.lowerAll n es).Numbers n := by
  cases es with
  | nil => exact ⟨trivial, rfl⟩
  | cons e es => exact (e.numbers_lower n).bind (Expr.numbers_lowerAll es (e.lower n).latest) _
  termination_by structural es

end

end ScalarLang
