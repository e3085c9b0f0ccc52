import ScalarLang.Code.Listing

/-!
# Execution errors

Why a run has no value. The first three arise from programs; a missing entry and
a fault mean that the code itself is broken.
-/

namespace ScalarLang

/-- Something that code asks for and that is not there. -/
inductive Fault where
  | undefinedValue (function : String) (operand : Code.Operand)
  | undefinedOperands (function register : String)
  | unterminatedBlock (function label : String)
  /-- A fault in words of its own. A run has none of these, but an error is a value that every
  caller can make. -/
  | report (text : String)
  deriving DecidableEq, Repr, Inhabited

def Fault.message : Fault → String
  | undefinedValue function operand => "@" ++ function ++ ": " ++ operand.text ++ " is undefined"
  | undefinedOperands function register =>
    s!"@{function}: operands of %{register} are undefined"
  | unterminatedBlock function label => s!"@{function}: block '{label}' has no terminator"
  | report text => text

inductive ExecutionError where
  | unresolvedSymbol (name : String)
  | callArity (name : String) (expected found : Nat)
  | stackOverflow (limit : Nat)
  | missingEntry (name : String)
  | engine (fault : Fault)
  deriving DecidableEq, Repr, Inhabited

def ExecutionError.message : ExecutionError → String
  | unresolvedSymbol name => s!"symbol '{name}' has no executable definition"
  | callArity name expected found =>
    s!"'{name}' takes {expected} argument(s) but was called with {found}"
  | stackOverflow limit => s!"call depth exceeded {limit} frames"
  | missingEntry name => s!"entry symbol '{name}' is missing from the sealed unit"
  | engine fault => "execution engine failure: " ++ fault.message

end ScalarLang
