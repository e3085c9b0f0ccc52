import ScalarLang.Code.Validity
import ScalarLang.Span

/-!
# Emission errors

Why no code could be emitted for a tree. All but the last kind are mistakes in
the program and carry the place they were made at; a failure is a misuse of the
open unit.
-/

namespace ScalarLang

inductive EmissionFault where
  | noInsertionPoint
  | notInUnit (function : String)
  | alreadyDeclared (function : String)
  | noBody (function : String)
  | invalid (function : String) (violations : List Code.Violation)
  /-- A fault in words of its own. Emission into an open unit has none of these, but an error is a
  value that every caller can make, and another backend has faults of other kinds. -/
  | report (text : String)
  deriving DecidableEq, Repr, Inhabited

def EmissionFault.message : EmissionFault → String
  | noInsertionPoint => "no insertion point for instruction"
  | notInUnit function => s!"@{function} is not in the open unit"
  | alreadyDeclared function => s!"@{function} is already declared in the open unit"
  | noBody function => s!"@{function} has no body to terminate"
  | invalid function violations => "; ".intercalate (violations.map (·.message function))
  | report text => text

inductive EmissionError where
  | unknownVariable (name : String) (span : Span)
  | unknownFunction (name : String) (span : Span)
  | arityMismatch (name : String) (expected found : Nat) (span : Span)
  | unknownOperator (op : Char) (span : Span)
  | redefinition (name : String) (span : Span)
  | duplicateParameter (function param : String) (span : Span)
  | declarationInUse (name : String) (arity : Nat) (span : Span)
  | failure (fault : EmissionFault)
  deriving DecidableEq, Repr, Inhabited

namespace EmissionError

def message : EmissionError → String
  | unknownVariable name _ => s!"unknown variable name '{name}'"
  | unknownFunction name _ => s!"unknown function referenced '{name}'"
  | arityMismatch name expected found _ =>
    s!"function '{name}' takes {expected} argument(s) but {found} were supplied"
  | unknownOperator op _ => s!"unknown binary operator '{op}'"
  | redefinition name _ => s!"function '{name}' cannot be redefined"
  | duplicateParameter function param _ =>
    s!"parameter '{param}' appears more than once in '{function}'"
  | declarationInUse name arity _ =>
    s!"'{name}' is still called with {arity} argument(s) and cannot be redeclared"
  | failure fault => "emission failed: " ++ fault.message

def span? : EmissionError → Option Span
  | unknownVariable _ span | unknownFunction _ span | arityMismatch _ _ _ span
  | unknownOperator _ span | redefinition _ span | duplicateParameter _ _ span
  | declarationInUse _ _ span => some span
  | failure _ => none

end EmissionError

end ScalarLang
