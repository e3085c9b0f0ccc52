import ScalarLang.Emission.Error
import ScalarLang.Engine.Error
import ScalarLang.Parse.Failure

/-!
# Diagnostics

A diagnostic tells a user what went wrong at which stage, with the place in the
source and a note that helps, where there are such. A run that does not find its
own entry is reported as an internal error. Diagnostics are collected in the
order in which they come, until somebody takes them.
-/

namespace ScalarLang

inductive Stage where
  | tokenize
  | parse
  | emit
  | execute
  | internal
  deriving DecidableEq, Repr, Inhabited

def Stage.code : Stage → String
  | tokenize => "LEX"
  | parse => "SYNTAX"
  | emit => "EMIT"
  | execute => "EXEC"
  | internal => "ICE"

structure Diagnostic where
  stage : Stage
  message : String
  span : Option Span
  note : Option String
  deriving DecidableEq, Repr, Inhabited

namespace Diagnostic

/-- Whether `part` stands somewhere in `text`. -/
def mentions (part : List Char) : List Char → Bool
  | [] => part.isEmpty
  | c :: text => part.isPrefixOf (c :: text) || mentions part text

/-- The note on how a prototype is written, for whatever was expected in one. -/
def prototypeNote? (expected : Expectation) : Option String :=
  if mentions "prototype".toList expected.text.toList then
    some "a prototype looks like `name(arg1, arg2)`; parameters may be omitted: `name()`"
  else none

def ofParseError (e : ParseError) : Diagnostic where
  stage :=
    match e with
    | .lexicalAnomaly _ _ _ => .tokenize
    | .unexpectedToken _ _ _ => .parse
  message := e.message
  span := some e.span
  note := prototypeNote? e.expected

def emissionNote? : EmissionError → Option String
  | .unknownFunction name _ =>
    some s!"declare it first with `extern {name}(...)` or define it with `def {name}(...)`"
  | .redefinition _ _ => some "the earlier definition is kept"
  | .declarationInUse _ _ _ => some "functions in this unit already call the earlier declaration"
  | _ => none

def ofEmissionError (e : EmissionError) : Diagnostic where
  stage := .emit
  message := e.message
  span := e.span?
  note := emissionNote? e

/-- The diagnostic of a failed run of the expression at `span`. -/
def ofExecutionError (e : ExecutionError) (span : Span) : Diagnostic where
  stage :=
    match e with
    | .missingEntry _ => .internal
    | _ => .execute
  message := e.message
  span := some span
  note := none

end Diagnostic

/-- Diagnostics that were collected, the first one first. -/
structure Diagnostics where
  items : List Diagnostic
  deriving DecidableEq, Repr, Inhabited

namespace Diagnostics

def empty : Diagnostics := ⟨[]⟩

def push (ds : Diagnostics) (d : Diagnostic) : Diagnostics := ⟨ds.items ++ [d]⟩

def isEmpty (ds : Diagnostics) : Bool := ds.items.isEmpty

/-- Collects the diagnostic, if there is one. -/
def collect (ds : Diagnostics) : Option Diagnostic → Diagnostics
  | some d => ds.push d
  | none => ds

@[simp] theorem items_empty : empty.items = [] := rfl

@[simp] theorem items_push (ds : Diagnostics) (d : Diagnostic) :
    (ds.push d).items = ds.items ++ [d] := rfl

@[simp] theorem items_collect (ds : Diagnostics) (d : Option Diagnostic) :
    (ds.collect d).items = ds.items ++ d.toList := by
  cases d with
  | none => exact (List.append_nil _).symm
  | some d => rfl

end Diagnostics

end ScalarLang
