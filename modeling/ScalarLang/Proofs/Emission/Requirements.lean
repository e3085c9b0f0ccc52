import Mathlib.Tactic.Tauto
import ScalarLang.Proofs.Emission.Check

/-!
# What a tree needs to pass the check

A tree passes the check if its variables are parameters, its operators are known, and
its callees are known with the number of arguments of each call
(`Expr.check_eq_ok_iff`). The order in which the check looks at them does not matter.
-/

namespace ScalarLang

mutual

/-- The variables of an expression, in the order of the text. -/
def Expr.variables (e : Expr) : List String :=
  match e with
  | .number _ _ => []
  | .var name _ => [name]
  | .binary _ lhs rhs _ => lhs.variables ++ rhs.variables
  | .call _ args _ => Expr.variablesAll args
  termination_by structural e

/-- The variables of expressions. -/
def Expr.variablesAll (es : List Expr) : List String :=
  match es with
  | [] => []
  | e :: es => e.variables ++ Expr.variablesAll es
  termination_by structural es

end

mutual

/-- The characters of the operators of an expression, each behind those of its operands. -/
def Expr.operators (e : Expr) : List Char :=
  match e with
  | .number _ _ | .var _ _ => []
  | .binary op lhs rhs _ => lhs.operators ++ (rhs.operators ++ [op])
  | .call _ args _ => Expr.operatorsAll args
  termination_by structural e

/-- The characters of the operators of expressions. -/
def Expr.operatorsAll (es : List Expr) : List Char :=
  match es with
  | [] => []
  | e :: es => e.operators ++ Expr.operatorsAll es
  termination_by structural es

end

theorem Expr.mem_operatorsAll {es : List Expr} {op : Char} :
    op ∈ Expr.operatorsAll es ↔ ∃ e ∈ es, op ∈ e.operators := by
  induction es with
  | nil => simp [Expr.operatorsAll]
  | cons e es ih => simp [Expr.operatorsAll, ih]

section Requirements

variable {arity? : String → Option Nat} {params : List String}

mutual

/-- An expression passes the check if its variables are parameters, its operators are known, and
its callees are known with the number of arguments of the call. -/
theorem Expr.check_eq_ok_iff (e : Expr) :
    e.check arity? params = .ok () ↔ (∀ name ∈ e.variables, name ∈ params) ∧
      (∀ op ∈ e.operators, (Operator.ofChar? op).isSome) ∧
      ∀ signature ∈ e.calls, arity? signature.name = some signature.arity := by
  cases e with
  | number value span => simp [Expr.check, Expr.variables, Expr.operators, Expr.calls]
  | var name span =>
      rw [check_var_eq_ok_iff]
      simp [Expr.variables, Expr.operators, Expr.calls]
  | binary op lhs rhs span =>
      rw [check_binary_eq_ok_iff, lhs.check_eq_ok_iff, rhs.check_eq_ok_iff, Expr.variables,
        Expr.operators, Expr.calls, List.forall_mem_append, List.forall_mem_append,
        List.forall_mem_append, List.forall_mem_append, List.forall_mem_singleton]
      tauto
  | call callee args span =>
      rw [check_call_eq_ok_iff, Expr.checkAll_eq_ok_iff args, Expr.variables, Expr.operators,
        Expr.calls, List.forall_mem_cons]
      tauto
  termination_by structural e

theorem Expr.checkAll_eq_ok_iff (es : List Expr) :
    Expr.checkAll arity? params es = .ok () ↔
      (∀ name ∈ Expr.variablesAll es, name ∈ params) ∧
      (∀ op ∈ Expr.operatorsAll es, (Operator.ofChar? op).isSome) ∧
      ∀ signature ∈ Expr.callsAll es, arity? signature.name = some signature.arity := by
  cases es with
  | nil => simp [Expr.checkAll, Expr.variablesAll, Expr.operatorsAll, Expr.callsAll]
  | cons e es =>
      rw [checkAll_cons_eq_ok_iff, e.check_eq_ok_iff, Expr.checkAll_eq_ok_iff es,
        Expr.variablesAll, Expr.operatorsAll, Expr.callsAll, List.forall_mem_append,
        List.forall_mem_append, List.forall_mem_append]
      tauto
  termination_by structural es

end

end Requirements

end ScalarLang
