import ScalarLang.Proofs.Emission.Check
import ScalarLang.Proofs.Evaluation.Folding
import ScalarLang.Proofs.Evaluation.Tree
import ScalarLang.Proofs.Lowering.Basic

/-!
# Execution of lowered expressions

Carrying out the code of an expression does what evaluating the expression does:
it ends with the same error, or in an activation that reads the value where the
lowering says (`Expr.related_lower`). The registers numbered up to `n` are kept,
so the values of the operands to the left are still there.
-/

namespace ScalarLang

open Code

/-- The operand reads no register numbered above `n`. -/
def Code.Operand.Below (n : Nat) : Operand → Prop
  | .register name => registerNumber name ≤ n
  | .constant _ | .argument _ => True

namespace Frame

/-- The second activation differs from the first in registers numbered above `n` only. -/
structure Keeps (n : Nat) (f g : Frame) : Prop where
  target : g.target = f.target
  arguments : g.arguments = f.arguments
  registers : ∀ r, registerNumber r ≤ n → g.registers.lookup r = f.registers.lookup r

namespace Keeps

variable {n m : Nat} {f g k : Frame}

theorem refl (n : Nat) (f : Frame) : Keeps n f f := ⟨rfl, rfl, fun _ _ => rfl⟩

theorem trans (h : Keeps n f g) (h' : Keeps m g k) (hle : n ≤ m) : Keeps n f k where
  target := h'.target.trans h.target
  arguments := h'.arguments.trans h.arguments
  registers r hr := (h'.registers r (Nat.le_trans hr hle)).trans (h.registers r hr)

theorem assign {r : String} (h : n < registerNumber r) (f : Frame) (value : Float) :
    Keeps n f (f.assign r value) := by
  refine ⟨rfl, rfl, fun q hq => ?_⟩
  have hne : (q == r) = false := by
    refine beq_false_of_ne fun heq => ?_
    rw [heq] at hq
    exact Nat.lt_irrefl _ (Nat.lt_of_lt_of_le h hq)
  rw [Frame.assign, List.lookup_cons, hne]

theorem read (h : Keeps n f g) {o : Operand} (ho : o.Below n) : g.read o = f.read o := by
  cases o with
  | constant value => rfl
  | argument name => exact congrArg (List.lookup name) h.arguments
  | register name => exact h.registers name ho

end Keeps

theorem demand_of_read {f : Frame} {o : Operand} {value : Float} (h : f.read o = some value) :
    f.demand o = .ok value := by
  rw [demand, h]

@[simp] theorem read_assign_self (f : Frame) (r : String) (value : Float) :
    (f.assign r value).read (.register r) = some value := by
  simp [read, assign]

end Frame

theorem below_lowerOperator {op : Char} (lhs rhs : Operand) (n : Nat)
    (h : (Operator.ofChar? op).isSome) :
    (lowerOperator op lhs rhs n).value.Below (lowerOperator op lhs rhs n).latest := by
  unfold lowerOperator
  split
  next op _ =>
    have hstem : (Emit.arithmeticStem op).toList.all (!·.isDigit) := by cases op <;> decide
    exact Nat.le_of_eq (registerNumber_append_repr hstem (n + 1))
  next op _ => exact Nat.le_of_eq (registerNumber_append_repr (by decide) (n + 2))
  next hnone => rw [hnone] at h; cases h

theorem Expr.below_lower {arity? : String → Option Nat} {params : List String} {e : Expr}
    (h : e.check arity? params = .ok ()) (n : Nat) :
    (e.lower n).value.Below (e.lower n).latest := by
  cases e with
  | number value span | var name span => trivial
  | binary op lhs rhs span =>
      exact below_lowerOperator _ _ _ (check_binary_eq_ok_iff.1 h).2.2
  | call callee args span => exact Nat.le_of_eq (registerNumber_call _)

/-- The code of an operator computes the operator. -/
theorem related_lowerOperator (call : String → List Float → Eval Float) {op : Char} {o : Operator}
    (hop : Operator.ofChar? op = some o) {lhs rhs : Operand} {f : Frame} {x y : Float}
    (hlhs : f.read lhs = some x) (hrhs : f.read rhs = some y) (n : Nat) :
    Eval.Related
      (fun value g => g.read (lowerOperator op lhs rhs n).value = some value ∧ f.Keeps n g)
      (pure (o.apply x y)) (f.carryOut call (lowerOperator op lhs rhs n).code) := by
  cases o with
  | arithmetic a =>
      have hstem : (Emit.arithmeticStem a).toList.all (!·.isDigit) := by cases a <;> decide
      have hnew : n < registerNumber (Emit.arithmeticStem a ++ Nat.repr (n + 1)) := by
        rw [registerNumber_append_repr hstem]
        exact Nat.lt_succ_self n
      simp only [lowerOperator, hop, Frame.carryOut, Instruction.evaluate, hlhs, hrhs,
        Option.pure_def, Option.bind_eq_bind, Option.bind_some, Instruction.dest]
      exact .pure ⟨f.read_assign_self _ _, .assign hnew f _⟩
  | comparison c =>
      have hflag : n < registerNumber ("cmptmp" ++ Nat.repr (n + 1)) := by
        rw [registerNumber_append_repr (by decide)]
        exact Nat.lt_succ_self n
      have hdest : n < registerNumber ("booltmp" ++ Nat.repr (n + 2)) := by
        rw [registerNumber_append_repr (by decide)]
        exact Nat.lt_add_of_pos_right (by decide)
      simp only [lowerOperator, hop, Frame.carryOut, Instruction.evaluate, hlhs, hrhs,
        Option.pure_def, Option.bind_eq_bind, Option.bind_some, Instruction.dest,
        Frame.read_assign_self]
      exact .pure ⟨Frame.read_assign_self _ _ _,
        Frame.Keeps.trans (.assign hflag f _) (.assign hdest _ _) (Nat.le_refl n)⟩

section Expression

variable (call : String → List Float → Eval Float) {arity? : String → Option Nat}
  {params : List String}

mutual

/-- The code of a checked expression does what evaluating the expression does. -/
theorem Expr.related_lower (e : Expr) (h : e.check arity? params = .ok ()) (n : Nat) (f : Frame)
    (bound : ∀ name ∈ params, ∃ value, f.arguments.lookup name = some value) :
    Eval.Related (fun value g => g.read (e.lower n).value = some value ∧ f.Keeps n g)
      (e.eval call f.arguments) (f.carryOut call (e.lower n).code) := by
  cases e with
  | number value span => exact .pure ⟨rfl, .refl n f⟩
  | var name span =>
      obtain ⟨value, hvalue⟩ := bound name (check_var_eq_ok_iff.1 h)
      simp only [Expr.eval, hvalue]
      exact .pure ⟨hvalue, .refl n f⟩
  | binary op lhs rhs span =>
      obtain ⟨hlhs, hrhs, hop⟩ := check_binary_eq_ok_iff.1 h
      obtain ⟨o, ho⟩ := Option.isSome_iff_exists.1 hop
      simp only [Expr.eval, Expr.lower, Frame.carryOut_append, ho]
      refine (lhs.related_lower hlhs n f bound).bind ?_
      rintro x g ⟨hx, hfg⟩
      rw [← hfg.arguments] at bound ⊢
      refine (rhs.related_lower hrhs (lhs.lower n).latest g bound).bind ?_
      rintro y k ⟨hy, hgk⟩
      have hx' : k.read (lhs.lower n).value = some x :=
        (hgk.read (Expr.below_lower hlhs n)).trans hx
      have hl := (lhs.numbers_lower n).le
      have hr := (rhs.numbers_lower (lhs.lower n).latest).le
      refine (related_lowerOperator call ho hx' hy _).mono ?_
      rintro value j ⟨hvalue, hkj⟩
      exact ⟨hvalue, hfg.trans (hgk.trans hkj hr) hl⟩
  | call callee args span =>
      obtain ⟨-, hargs⟩ := check_call_eq_ok_iff.1 h
      simp only [Expr.eval, Expr.lower, Frame.carryOut_append]
      refine (Expr.related_lowerAll args hargs n f bound).bind ?_
      rintro values g ⟨hvalues, hfg⟩
      have hle := (Expr.numbers_lowerAll args n).le
      have hnew :
          n < registerNumber ("calltmp" ++ Nat.repr ((Expr.lowerAll n args).latest + 1)) := by
        rw [registerNumber_call]
        exact Nat.lt_succ_of_le hle
      simp only [Frame.carryOut, hvalues, Eval.ofExcept_ok, pure_bind]
      refine (Eval.Related.refl (call callee values)).bind_right ?_
      rintro value _ rfl
      exact .pure ⟨g.read_assign_self _ _, hfg.trans (.assign hnew g value) (Nat.le_refl n)⟩
  termination_by structural e

theorem Expr.related_lowerAll (es : List Expr) (h : Expr.checkAll arity? params es = .ok ())
    (n : Nat) (f : Frame) (bound : ∀ name ∈ params, ∃ value, f.arguments.lookup name = some value) :
    Eval.Related
      (fun values g => (Expr.lowerAll n es).value.mapM g.demand = .ok values ∧ f.Keeps n g)
      (Expr.evalAll call f.arguments es) (f.carryOut call (Expr.lowerAll n es).code) := by
  cases es with
  | nil => exact .pure ⟨rfl, .refl n f⟩
  | cons e es =>
      obtain ⟨he, hes⟩ := checkAll_cons_eq_ok_iff.1 h
      simp only [Expr.evalAll, Expr.lowerAll, Frame.carryOut_append]
      refine (e.related_lower he n f bound).bind ?_
      rintro value g ⟨hvalue, hfg⟩
      rw [← hfg.arguments] at bound ⊢
      refine (Expr.related_lowerAll es hes (e.lower n).latest g bound).bind_left ?_
      rintro values k ⟨hvalues, hgk⟩
      have hfirst : k.read (e.lower n).value = some value :=
        (hgk.read (Expr.below_lower he n)).trans hvalue
      refine .pure ⟨?_, hfg.trans hgk (e.numbers_lower n).le⟩
      rw [List.mapM_cons, Frame.demand_of_read hfirst, hvalues]
      rfl
  termination_by structural es

end

end Expression

end ScalarLang
