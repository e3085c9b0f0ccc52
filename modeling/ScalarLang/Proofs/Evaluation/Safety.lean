import ScalarLang.Proofs.Session.Unit

/-!
# Checked programs have no faults

Evaluating checked definitions fails for reasons of the program only: a function that
is not there, a wrong number of arguments, or too many activations
(`Units.failsOnly_evaluate`). A variable always has a value and an operator a meaning.
-/

namespace ScalarLang

/-- The error is one that arises from programs, and not from broken code. -/
inductive ExecutionError.OfProgram (limit : Nat) : ExecutionError → Prop
  | unresolvedSymbol (name : String) : OfProgram limit (.unresolvedSymbol name)
  | callArity (name : String) (expected found : Nat) :
      OfProgram limit (.callArity name expected found)
  | stackOverflow : OfProgram limit (.stackOverflow limit)

namespace Eval

/-- The errors that the computation can end with have the property. -/
def FailsOnly {α : Type} (P : ExecutionError → Prop) (x : Eval α) : Prop :=
  ∀ calls error later, x.run calls = .error error later → P error

namespace FailsOnly

variable {α β : Type} {P : ExecutionError → Prop}

theorem pure (value : α) : FailsOnly P (pure value) :=
  fun _ _ _ h => nomatch h

theorem throw {error : ExecutionError} (h : P error) : FailsOnly P (throw error : Eval α) := by
  rintro calls _ _ ⟨⟩
  exact h

theorem bind {x : Eval α} {f : α → Eval β} (hx : FailsOnly P x) (hf : ∀ a, FailsOnly P (f a)) :
    FailsOnly P (x >>= f) := by
  intro calls error later hrun
  rw [EStateM.run_bind] at hrun
  cases hfirst : x.run calls with
  | ok a calls' =>
      rw [hfirst] at hrun
      exact hf a calls' error later hrun
  | error error' later' =>
      rw [hfirst] at hrun
      cases hrun
      exact hx calls error later hfirst

theorem toRun {x : Eval Float} (h : FailsOnly P x) {error : ExecutionError}
    (hresult : x.toRun.result = .error error) : P error := by
  rw [Eval.toRun] at hresult
  cases hrun : x.run [] with
  | ok value calls =>
      rw [hrun] at hresult
      cases hresult
  | error error' calls =>
      rw [hrun] at hresult
      cases hresult
      exact h [] error calls hrun

end FailsOnly

end Eval

open Eval

theorem Native.failsOnly_perform (native : Native) (args : List Float) (limit : Nat) :
    FailsOnly (ExecutionError.OfProgram limit) (native.perform args) := by
  rw [perform, call]
  cases native.value? args with
  | some value =>
      rintro calls _ _ ⟨⟩
  | none => exact .throw (.callArity _ _ _)

section Expression

variable {P : ExecutionError → Prop} {call : String → List Float → Eval Float}
  {arity? : String → Option Nat} {params : List String} {bindings : List (String × Float)}

mutual

/-- Evaluating a checked expression fails only as its calls do. -/
theorem Expr.failsOnly_eval (hcall : ∀ callee args, FailsOnly P (call callee args))
    (hbound : ∀ name ∈ params, ∃ value, bindings.lookup name = some value) (e : Expr)
    (h : e.check arity? params = .ok ()) : FailsOnly P (e.eval call bindings) := by
  cases e with
  | number value span => exact .pure value
  | var name span =>
      obtain ⟨value, hvalue⟩ := hbound name (check_var_eq_ok_iff.1 h)
      rw [Expr.eval, hvalue]
      exact .pure value
  | binary op lhs rhs span =>
      obtain ⟨hlhs, hrhs, hop⟩ := check_binary_eq_ok_iff.1 h
      obtain ⟨o, ho⟩ := Option.isSome_iff_exists.1 hop
      rw [Expr.eval, ho]
      exact (lhs.failsOnly_eval hcall hbound hlhs).bind fun x =>
        (rhs.failsOnly_eval hcall hbound hrhs).bind fun y => .pure (o.apply x y)
  | call callee args span =>
      rw [Expr.eval]
      exact (Expr.failsOnly_evalAll hcall hbound args (check_call_eq_ok_iff.1 h).2).bind
        fun values => hcall callee values
  termination_by structural e

theorem Expr.failsOnly_evalAll (hcall : ∀ callee args, FailsOnly P (call callee args))
    (hbound : ∀ name ∈ params, ∃ value, bindings.lookup name = some value) (es : List Expr)
    (h : Expr.checkAll arity? params es = .ok ()) :
    FailsOnly P (Expr.evalAll call bindings es) := by
  cases es with
  | nil => exact .pure []
  | cons e es =>
      obtain ⟨he, hes⟩ := checkAll_cons_eq_ok_iff.1 h
      rw [Expr.evalAll]
      exact (e.failsOnly_eval hcall hbound he).bind fun value =>
        (Expr.failsOnly_evalAll hcall hbound es hes).bind fun values => .pure (value :: values)
  termination_by structural es

end

end Expression

namespace Units

variable {units : Units} {own : List Definition}

/-- A call leads to a definition of the unit that is named. -/
theorem mem_of_resolve? {name : String} {unit : List Definition} {d : Definition}
    (h : units.resolve? own name = some (.definition unit d)) : unit ∈ own :: units ∧ d ∈ unit := by
  rw [resolve?] at h
  split at h
  next unit' d' hfound =>
    cases h
    obtain ⟨unit', hunit, hd⟩ := List.exists_of_findSome?_eq_some hfound
    obtain ⟨d', hd, heq⟩ := Option.map_eq_some_iff.1 hd
    cases heq
    exact ⟨hunit, List.mem_of_find?_eq_some hd⟩
  · obtain ⟨native, -, heq⟩ := Option.map_eq_some_iff.1 h
    cases heq

/-- Evaluating checked definitions has no faults. -/
theorem failsOnly_evaluate (hunits : ∀ unit ∈ units, ∀ d ∈ unit, Definition.Checked d)
    (limit room : Nat) (hown : ∀ d ∈ own, Definition.Checked d) {d : Definition} (hd : d.Checked)
    (args : List Float) :
    FailsOnly (ExecutionError.OfProgram limit) (units.evaluate limit room own d args) := by
  induction room generalizing own d args with
  | zero => exact .throw .stackOverflow
  | succ room ih =>
      have hdispatch : ∀ callee args, FailsOnly (ExecutionError.OfProgram limit)
          (units.dispatch (units.evaluate limit room) own callee args) := by
        intro callee args
        rw [dispatch]
        cases hcallee : units.resolve? own callee with
        | none => exact .throw (.unresolvedSymbol callee)
        | some found =>
            cases found with
            | native native => exact native.failsOnly_perform args limit
            | definition unit d =>
                obtain ⟨hunit, hmem⟩ := mem_of_resolve? hcallee
                -- The callee runs in its own unit, so that has to be checked as a whole.
                have hchecked : ∀ d ∈ unit, Definition.Checked d := by
                  rcases List.mem_cons.1 hunit with rfl | hunit
                  · exact hown
                  · exact hunits unit hunit
                exact ih hchecked (hchecked d hmem) args
      obtain ⟨arity?, hcheck⟩ := hd
      rw [evaluate]
      split
      next hlength =>
        exact d.body.failsOnly_eval hdispatch
          (fun name hname => Definition.exists_lookup_zip hlength hname) hcheck
      · exact .throw (.callArity _ _ _)

end Units

end ScalarLang
