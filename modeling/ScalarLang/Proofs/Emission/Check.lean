import ScalarLang.Emission.OpenUnit
import ScalarLang.Expr
import ScalarLang.Operator

/-!
# Checking trees

What emission refuses, without emitting anything. The check goes through a tree
from left to right and answers with the first mistake. It looks at the callee of
a call and at the number of its arguments before the arguments themselves, and at
an operator after its operands. So the answer is what the first node at fault is
refused for, in the order in which the nodes are visited
(`Expr.check_eq_error_iff`). What a checked tree calls is known to the check with
the number of its arguments (`Expr.arity?_of_check`).
-/

namespace ScalarLang

mutual

/-- Checks an expression, given the arity of the functions that a call can name and the names of
the parameters. -/
def Expr.check (arity? : String → Option Nat) (params : List String) (e : Expr) :
    Except EmissionError Unit :=
  match e with
  | .number _ _ => .ok ()
  | .var name span => if name ∈ params then .ok () else .error (.unknownVariable name span)
  | .binary op lhs rhs span => do
    lhs.check arity? params
    rhs.check arity? params
    if (Operator.ofChar? op).isSome then .ok () else .error (.unknownOperator op span)
  | .call callee args span =>
    match arity? callee with
    | none => .error (.unknownFunction callee span)
    | some arity =>
      if arity = args.length then Expr.checkAll arity? params args
      else .error (.arityMismatch callee arity args.length span)
  termination_by structural e

/-- Checks expressions from left to right. -/
def Expr.checkAll (arity? : String → Option Nat) (params : List String) (es : List Expr) :
    Except EmissionError Unit :=
  match es with
  | [] => .ok ()
  | e :: es => do
    e.check arity? params
    Expr.checkAll arity? params es
  termination_by structural es

end

namespace Expr

variable {arity? : String → Option Nat} {params : List String}

theorem check_var_eq_ok_iff {name : String} {span : Span} :
    (var name span).check arity? params = .ok () ↔ name ∈ params := by
  rw [check]
  split <;> simp_all

theorem check_binary_eq_ok_iff {op : Char} {lhs rhs : Expr} {span : Span} :
    (binary op lhs rhs span).check arity? params = .ok () ↔
      lhs.check arity? params = .ok () ∧ rhs.check arity? params = .ok () ∧
        (Operator.ofChar? op).isSome := by
  rw [check]
  cases lhs.check arity? params with
  | error error => simp [bind, Except.bind]
  | ok value =>
      cases rhs.check arity? params with
      | error error => simp [bind, Except.bind]
      | ok value =>
          cases (Operator.ofChar? op).isSome <;> simp [bind, Except.bind]

/-- A call is checked before its arguments. -/
theorem check_call {callee : String} {args : List Expr} {span : Span} :
    (call callee args span).check arity? params =
      (match arity? callee with
        | none => .error (.unknownFunction callee span)
        | some arity =>
          if arity = args.length then .ok ()
          else .error (.arityMismatch callee arity args.length span)) >>= fun _ =>
        checkAll arity? params args := by
  rw [check]
  cases arity? callee with
  | none => rfl
  | some arity =>
      by_cases hcount : arity = args.length
      · simp only [hcount, if_true]
        rfl
      · simp only [hcount, if_false]
        rfl

theorem check_call_eq_ok_iff {callee : String} {args : List Expr} {span : Span} :
    (call callee args span).check arity? params = .ok () ↔
      arity? callee = some args.length ∧ checkAll arity? params args = .ok () := by
  rw [check]
  cases h : arity? callee with
  | none => simp
  | some arity =>
      by_cases hcount : arity = args.length <;> simp [hcount]

theorem checkAll_cons_eq_ok_iff {e : Expr} {es : List Expr} :
    checkAll arity? params (e :: es) = .ok () ↔
      e.check arity? params = .ok () ∧ checkAll arity? params es = .ok () := by
  rw [checkAll]
  cases e.check arity? params <;> simp [bind, Except.bind]

end Expr

mutual

/-- The nodes of an expression in the order in which they are checked: an operator behind its
operands, a call in front of its arguments. -/
def Expr.visits (e : Expr) : List Expr :=
  match e with
  | .number value span => [.number value span]
  | .var name span => [.var name span]
  | .binary op lhs rhs span => lhs.visits ++ (rhs.visits ++ [.binary op lhs rhs span])
  | .call callee args span => .call callee args span :: Expr.visitsAll args
  termination_by structural e

/-- The nodes of expressions in the order in which they are checked. -/
def Expr.visitsAll (es : List Expr) : List Expr :=
  match es with
  | [] => []
  | e :: es => e.visits ++ Expr.visitsAll es
  termination_by structural es

end

/-- What a node is refused for itself, whatever its operands or arguments are. -/
def Expr.refusal? (arity? : String → Option Nat) (params : List String) :
    Expr → Option EmissionError
  | .number _ _ => none
  | .var name span => if name ∈ params then none else some (.unknownVariable name span)
  | .binary op _ _ span =>
    if (Operator.ofChar? op).isSome then none else some (.unknownOperator op span)
  | .call callee args span =>
    match arity? callee with
    | none => some (.unknownFunction callee span)
    | some arity =>
      if arity = args.length then none else some (.arityMismatch callee arity args.length span)

namespace EmissionError

/-- The answer of a check that found the error, or none. -/
def verdict : Option EmissionError → Except EmissionError Unit
  | none => .ok ()
  | some error => .error error

theorem verdict_eq_error_iff {found : Option EmissionError} {error : EmissionError} :
    verdict found = .error error ↔ found = some error := by
  cases found <;> simp [verdict]

/-- Two checks, one behind the other, answer with the first error of the two. -/
theorem verdict_or (found found' : Option EmissionError) :
    verdict (found.or found') = verdict found >>= fun _ => verdict found' := by
  cases found <;> rfl

/-- Whether an error is one of expressions, and not of a prototype or of the open unit. -/
def isOfExpression : EmissionError → Bool
  | unknownVariable _ _ | unknownFunction _ _ | arityMismatch _ _ _ _ | unknownOperator _ _ => true
  | redefinition _ _ | duplicateParameter _ _ _ | declarationInUse _ _ _ | failure _ => false

end EmissionError

section Refusal

variable {arity? : String → Option Nat} {params : List String}

/-- A node is refused with an error of expressions and with its own place. -/
theorem Expr.of_refusal? {node : Expr} {error : EmissionError}
    (h : node.refusal? arity? params = some error) :
    error.isOfExpression = true ∧ error.span? = some node.span := by
  cases node with
  | number value span => cases h
  | var name span | binary op lhs rhs span =>
      rw [refusal?] at h
      split at h
      · cases h
      · cases h
        exact ⟨rfl, rfl⟩
  | call callee args span =>
      rw [refusal?] at h
      split at h
      · cases h
        exact ⟨rfl, rfl⟩
      · split at h
        · cases h
        · cases h
          exact ⟨rfl, rfl⟩

mutual

/-- Checking an expression is looking for the first node that is refused. -/
theorem Expr.check_eq_verdict (e : Expr) :
    e.check arity? params =
      EmissionError.verdict (e.visits.findSome? (refusal? arity? params)) := by
  cases e with
  | number value span => rfl
  | var name span =>
      rw [check, visits, List.findSome?_singleton, refusal?]
      split <;> rfl
  | binary op lhs rhs span =>
      rw [check, visits, List.findSome?_append, List.findSome?_append, List.findSome?_singleton,
        EmissionError.verdict_or, EmissionError.verdict_or, lhs.check_eq_verdict,
        rhs.check_eq_verdict, refusal?]
      split <;> rfl
  | call callee args span =>
      have hor : (visits (call callee args span)).findSome? (refusal? arity? params) =
          (refusal? arity? params (call callee args span)).or
            ((visitsAll args).findSome? (refusal? arity? params)) := by
        rw [visits, List.findSome?_cons]
        cases refusal? arity? params (call callee args span) <;> rfl
      rw [check_call, hor, EmissionError.verdict_or, Expr.checkAll_eq_verdict args, refusal?]
      cases arity? callee with
      | none => rfl
      | some arity => by_cases hcount : arity = args.length <;> simp [hcount, EmissionError.verdict]
  termination_by structural e

theorem Expr.checkAll_eq_verdict (es : List Expr) :
    Expr.checkAll arity? params es =
      EmissionError.verdict ((Expr.visitsAll es).findSome? (refusal? arity? params)) := by
  cases es with
  | nil => rfl
  | cons e es =>
      rw [checkAll, visitsAll, List.findSome?_append, EmissionError.verdict_or, e.check_eq_verdict,
        Expr.checkAll_eq_verdict es]
  termination_by structural es

end

/-- An expression is refused for what the first refused node is refused for. -/
theorem Expr.check_eq_error_iff {e : Expr} {error : EmissionError} :
    e.check arity? params = .error error ↔ ∃ before node after,
      e.visits = before ++ node :: after ∧ node.refusal? arity? params = some error ∧
        ∀ earlier ∈ before, earlier.refusal? arity? params = none := by
  rw [e.check_eq_verdict, EmissionError.verdict_eq_error_iff, List.findSome?_eq_some_iff]

end Refusal

mutual

/-- The signatures that the calls in an expression ask for, in the order of the text. -/
def Expr.calls (e : Expr) : List Signature :=
  match e with
  | .number _ _ | .var _ _ => []
  | .binary _ lhs rhs _ => lhs.calls ++ rhs.calls
  | .call callee args _ => ⟨callee, args.length⟩ :: Expr.callsAll args
  termination_by structural e

/-- The signatures that the calls in expressions ask for. -/
def Expr.callsAll (es : List Expr) : List Signature :=
  match es with
  | [] => []
  | e :: es => e.calls ++ Expr.callsAll es
  termination_by structural es

end

mutual

/-- What a checked expression calls is known with the number of arguments of the call. -/
theorem Expr.arity?_of_check {arity? : String → Option Nat} {params : List String} (e : Expr)
    (h : e.check arity? params = .ok ()) :
    ∀ signature ∈ e.calls, arity? signature.name = some signature.arity := by
  cases e with
  | number value span | var name span =>
      intro signature hsignature
      cases hsignature
  | binary op lhs rhs span =>
      obtain ⟨hlhs, hrhs, -⟩ := check_binary_eq_ok_iff.1 h
      intro signature hsignature
      rcases List.mem_append.1 hsignature with hmem | hmem
      · exact lhs.arity?_of_check hlhs signature hmem
      · exact rhs.arity?_of_check hrhs signature hmem
  | call callee args span =>
      obtain ⟨hcallee, hargs⟩ := check_call_eq_ok_iff.1 h
      intro signature hsignature
      rcases List.mem_cons.1 hsignature with rfl | hmem
      · exact hcallee
      · exact Expr.arity?_of_checkAll args hargs signature hmem
  termination_by structural e

theorem Expr.arity?_of_checkAll {arity? : String → Option Nat} {params : List String}
    (es : List Expr) (h : Expr.checkAll arity? params es = .ok ()) :
    ∀ signature ∈ Expr.callsAll es, arity? signature.name = some signature.arity := by
  cases es with
  | nil =>
      intro signature hsignature
      cases hsignature
  | cons e es =>
      obtain ⟨he, hes⟩ := checkAll_cons_eq_ok_iff.1 h
      intro signature hsignature
      rcases List.mem_append.1 hsignature with hmem | hmem
      · exact e.arity?_of_check he signature hmem
      · exact Expr.arity?_of_checkAll es hes signature hmem
  termination_by structural es

end

end ScalarLang
