import ScalarLang.Proofs.Emission.Definition
import ScalarLang.Proofs.Grammar.Shift

/-!
# Emission further on in a text

Emission looks at the places of a tree only for its errors. So a tree from further on in a text
has the same code and leaves the same open unit, and fails for the same reason further on
(`Definition.moves_emit`, `Prototype.moves_emit`). The places of recorded prototypes do not matter
at all: a recorded prototype is valid, so to declare it on demand fails without a place
(`Environment.run_callee?_eq`).
-/

namespace ScalarLang

open Code

/-- The error with its place moved. -/
def EmissionError.shift (offset : Nat) : EmissionError → EmissionError
  | unknownVariable name span => unknownVariable name (span.shift offset)
  | unknownFunction name span => unknownFunction name (span.shift offset)
  | arityMismatch name expected found span => arityMismatch name expected found (span.shift offset)
  | unknownOperator op span => unknownOperator op (span.shift offset)
  | redefinition name span => redefinition name (span.shift offset)
  | duplicateParameter function param span =>
    duplicateParameter function param (span.shift offset)
  | declarationInUse name arity span => declarationInUse name arity (span.shift offset)
  | failure fault => failure fault

namespace Emit

/-- The second action does what the first one does, with the places of errors moved. -/
def Moves {α : Type} (offset : Nat) (x x' : Emit α) : Prop :=
  x' = EStateM.adaptExcept (EmissionError.shift offset) x

section Moves

variable {α β : Type} {offset : Nat} {x x' : Emit α}

theorem moves_pure (value : α) : Moves offset (pure value : Emit α) (pure value) := rfl

theorem moves_get : Moves offset (get : Emit OpenUnit) get := rfl

theorem moves_set (u : OpenUnit) : Moves offset (set u : Emit PUnit) (set u) := rfl

theorem moves_modify (f : OpenUnit → OpenUnit) :
    Moves offset (modify f : Emit PUnit) (modify f) := rfl

theorem moves_throw (error : EmissionError) :
    Moves offset (throw error : Emit α) (throw (error.shift offset)) := rfl

theorem Moves.bind {f f' : α → Emit β} (h : Moves offset x x')
    (hf : ∀ value, Moves offset (f value) (f' value)) : Moves offset (x >>= f) (x' >>= f') := by
  funext u
  rw [h]
  simp only [Bind.bind, EStateM.bind, EStateM.adaptExcept]
  cases x u with
  | ok value u => exact congrFun (hf value) u
  | error error u => rfl

theorem Moves.tryCatch {handle handle' : EmissionError → Emit α} (h : Moves offset x x')
    (hhandle : ∀ error, Moves offset (handle error) (handle' (error.shift offset))) :
    Moves offset (tryCatch x handle) (tryCatch x' handle') := by
  funext u
  rw [h]
  have hrun := run_tryCatch (EStateM.adaptExcept (EmissionError.shift offset) x) handle' u
  have hrun' := run_tryCatch x handle u
  simp only [EStateM.run, EStateM.adaptExcept] at hrun hrun' ⊢
  rw [hrun, hrun']
  cases x u with
  | ok value u => rfl
  | error error u => exact congrFun (hhandle error) u

theorem Moves.ite {c : Prop} [Decidable c] {y y' : Emit α} (h : Moves offset x x')
    (h' : Moves offset y y') : Moves offset (if c then x else y) (if c then x' else y') := by
  split
  · exact h
  · exact h'

end Moves

/-! ### Actions without a place -/

section Unlocated

variable {offset : Nat}

theorem moves_declare (name : String) (params : List String) :
    Moves offset (declare name params) (declare name params) :=
  moves_get.bind fun _ => .ite (moves_throw _) ((moves_set _).bind fun _ => moves_pure _)

theorem moves_openBody (name : String) (params : List String) :
    Moves offset (openBody name params) (openBody name params) :=
  moves_get.bind fun _ => .ite (moves_throw _) ((moves_set _).bind fun _ => moves_pure _)

theorem moves_newRegister (stem : String) : Moves offset (newRegister stem) (newRegister stem) :=
  (moves_modify _).bind fun _ => moves_get.bind fun _ => moves_pure _

theorem moves_append (i : Instruction) : Moves offset (append i) (append i) := by
  refine moves_get.bind fun u => ?_
  cases u.target with
  | none => exact moves_throw _
  | some name => exact .ite ((moves_set _).bind fun _ => moves_pure _) (moves_throw _)

theorem moves_arithmetic (op : Arithmetic) (lhs rhs : Operand) :
    Moves offset (arithmetic op lhs rhs) (arithmetic op lhs rhs) :=
  (moves_newRegister _).bind fun _ => moves_append _

theorem moves_compare (op : Comparison) (lhs rhs : Operand) :
    Moves offset (compare op lhs rhs) (compare op lhs rhs) :=
  (moves_newRegister _).bind fun _ => (moves_append _).bind fun _ =>
    (moves_newRegister _).bind fun _ => moves_append _

theorem moves_call (callee : String) (args : List Operand) :
    Moves offset (call callee args) (call callee args) :=
  (moves_newRegister _).bind fun _ => moves_append _

theorem moves_closeBody (name : String) (value : Operand) :
    Moves offset (closeBody name value) (closeBody name value) := by
  refine (moves_modify _).bind fun _ => moves_get.bind fun u => ?_
  cases u.module.find? name with
  | none => exact moves_throw _
  | some f =>
      refine .ite (moves_throw _) ((moves_set _).bind fun _ => ?_)
      exact .ite (moves_throw _) (moves_set _)

end Unlocated

end Emit

/-! ### Prototypes and callees -/

/-- The prototype without its place. -/
def Prototype.unplaced (p : Prototype) : Prototype := { p with span := .empty 0 }

namespace Prototype

variable {offset : Nat}

theorem moves_check (p : Prototype) : Emit.Moves offset p.check (p.shift offset).check := by
  rw [check, check, show (p.shift offset).repeated? = p.repeated? from rfl]
  cases p.repeated? with
  | some param => exact Emit.moves_throw _
  | none => exact Emit.moves_pure _

theorem moves_redeclare (p : Prototype) (existing : Signature) :
    Emit.Moves offset (p.redeclare existing) ((p.shift offset).redeclare existing) :=
  Emit.moves_get.bind fun _ => .ite (Emit.moves_throw _)
    ((Emit.moves_set _).bind fun _ => Emit.moves_declare _ _)

/-- Declaring a prototype does not depend on where it is, but for the place of an error. -/
theorem moves_emit (p : Prototype) : Emit.Moves offset p.emit (p.shift offset).emit := by
  refine p.moves_check.bind fun _ => Emit.moves_get.bind fun u => ?_
  rw [show (p.shift offset).name = p.name from rfl]
  cases u.lookup? p.name with
  | none => exact Emit.moves_declare _ _
  | some existing =>
      exact .ite (Emit.moves_pure _) (.ite (Emit.moves_throw _) (p.moves_redeclare existing))

/-- A valid prototype of a name that is not in the open unit is declared there. -/
theorem run_emit_of_lookup?_eq_none {p : Prototype} {u : OpenUnit} (hvalid : p.repeated? = none)
    (hnone : u.lookup? p.name = none) : p.emit.run u = (Emit.declare p.name p.params).run u := by
  simp only [emit, check, hvalid, pure_bind, EStateM.run_bind, EStateM.run_get, hnone]

end Prototype

/-! ### Callees and expressions -/

/-- What emission sees is the same, but for the places of recorded prototypes, which are valid. -/
structure Environment.Agrees (env env' : Environment) : Prop where
  bindings : env'.bindings = env.bindings
  prototypes : env'.prototypes.map Prototype.unplaced = env.prototypes.map Prototype.unplaced
  valid : ∀ p ∈ env.prototypes, p.repeated? = none

namespace Environment

variable {env env' : Environment} {offset : Nat}

/-- A callee that the open unit does not have is declared from its recorded prototype, whatever the
place of that is. -/
theorem run_callee?_eq (hvalid : ∀ p ∈ env.prototypes, p.repeated? = none) (name : String)
    (u : OpenUnit) : (env.callee? name).run u = match u.lookup? name with
      | some signature => .ok (some signature) u
      | none => match (env.prototype? name).map Prototype.unplaced with
        | some p => (do return some (← Emit.declare p.name p.params) : Emit _).run u
        | none => .ok none u := by
  simp only [callee?, EStateM.run_bind, EStateM.run_get]
  cases hlookup : u.lookup? name with
  | some signature => rfl
  | none =>
      cases hfind : env.prototype? name with
      | none => rfl
      | some p =>
          obtain rfl : p.name = name := by simpa using List.find?_some hfind
          have hp := hvalid p (List.mem_of_find?_eq_some hfind)
          simp only [EStateM.run_bind, Prototype.run_emit_of_lookup?_eq_none hp hlookup]
          rfl

theorem map_prototype? (env : Environment) (name : String) :
    (env.prototype? name).map Prototype.unplaced =
      (env.prototypes.map Prototype.unplaced).find? (·.name == name) := by
  rw [prototype?, List.find?_map]
  rfl

namespace Agrees

theorem valid' (h : env.Agrees env') : ∀ p ∈ env'.prototypes, p.repeated? = none := by
  intro p hp
  have hmem : p.unplaced ∈ env.prototypes.map Prototype.unplaced :=
    h.prototypes ▸ List.mem_map_of_mem hp
  obtain ⟨q, hq, heq⟩ := List.mem_map.1 hmem
  have hparams : q.unplaced.params = p.unplaced.params := congrArg Prototype.params heq
  have hvalid : (Code.repeats [] q.unplaced.params).head? = none := h.valid q hq
  rw [hparams] at hvalid
  exact hvalid

theorem moves_callee? (h : env.Agrees env') (name : String) :
    Emit.Moves offset (env.callee? name) (env'.callee? name) := by
  funext u
  have hrun := run_callee?_eq h.valid name u
  have hrun' := run_callee?_eq h.valid' name u
  rw [map_prototype?, h.prototypes, ← map_prototype?] at hrun'
  rw [EStateM.run] at hrun hrun'
  rw [hrun', EStateM.adaptExcept, hrun]
  cases u.lookup? name with
  | some signature => rfl
  | none =>
      cases (env.prototype? name).map Prototype.unplaced with
      | none => rfl
      | some p =>
          exact congrFun ((Emit.moves_declare p.name p.params).bind fun _ => Emit.moves_pure _) u

theorem moves_callee (h : env.Agrees env') (name : String) (count : Nat) (span : Span) :
    Emit.Moves offset (env.callee name count span)
      (env'.callee name count (span.shift offset)) := by
  refine (h.moves_callee? name).bind fun signature => ?_
  cases signature with
  | none => exact Emit.moves_throw _
  | some signature => exact .ite (Emit.moves_pure _) (Emit.moves_throw _)

end Agrees

end Environment

theorem moves_emitOperator {offset : Nat} (op : Char) (lhs rhs : Operand) (span : Span) :
    Emit.Moves offset (emitOperator op lhs rhs span)
      (emitOperator op lhs rhs (span.shift offset)) := by
  rw [emitOperator, emitOperator]
  cases Operator.ofChar? op with
  | none => exact Emit.moves_throw _
  | some op =>
      cases op with
      | arithmetic op => exact Emit.moves_arithmetic op lhs rhs
      | comparison op => exact Emit.moves_compare op lhs rhs

theorem Expr.length_shiftAll (offset : Nat) (es : List Expr) :
    (shiftAll offset es).length = es.length := by
  induction es with
  | nil => rfl
  | cons e es ih => rw [shiftAll, List.length_cons, List.length_cons, ih]

section Expressions

variable {env env' : Environment}

mutual

/-- An expression further on is emitted in the same way. -/
theorem Expr.moves_emit (h : env.Agrees env') (offset : Nat) (e : Expr) :
    Emit.Moves offset (e.emit env) ((e.shift offset).emit env') := by
  cases e with
  | number value span => exact Emit.moves_pure _
  | var name span =>
      rw [shift, emit, emit, h.bindings]
      cases env.bindings.lookup name with
      | none => exact Emit.moves_throw _
      | some operand => exact Emit.moves_pure _
  | binary op lhs rhs span =>
      exact (lhs.moves_emit h offset).bind fun _ => (rhs.moves_emit h offset).bind fun _ =>
        moves_emitOperator op _ _ span
  | call callee args span =>
      rw [shift, emit, emit, length_shiftAll]
      exact (h.moves_callee callee args.length span).bind fun _ =>
        (Expr.moves_emitAll h offset args).bind fun _ => Emit.moves_call _ _
  termination_by structural e

theorem Expr.moves_emitAll (h : env.Agrees env') (offset : Nat) (es : List Expr) :
    Emit.Moves offset (Expr.emitAll env es) (Expr.emitAll env' (shiftAll offset es)) := by
  cases es with
  | nil => exact Emit.moves_pure _
  | cons e es =>
      exact (e.moves_emit h offset).bind fun _ =>
        (Expr.moves_emitAll h offset es).bind fun _ => Emit.moves_pure _
  termination_by structural es

end

end Expressions

/-! ### Definitions -/

namespace Definition

variable {offset : Nat} {recorded recorded' : List Prototype}

theorem moves_declare (d : Definition) :
    Emit.Moves offset d.declare (d.shift offset).declare := by
  refine d.prototype.moves_check.bind fun _ => Emit.moves_get.bind fun u => ?_
  rw [show (d.shift offset).prototype.name = d.prototype.name from rfl]
  cases u.lookup? d.prototype.name with
  | none => exact Emit.moves_declare _ _
  | some existing =>
      exact .ite (Emit.moves_throw _)
        (.ite (Emit.moves_pure _) (d.prototype.moves_redeclare existing))

theorem moves_emitBody (hrecorded : recorded'.map Prototype.unplaced =
      recorded.map Prototype.unplaced) (hvalid : ∀ p ∈ recorded, p.repeated? = none)
    (d : Definition) :
    Emit.Moves offset (d.emitBody recorded) ((d.shift offset).emitBody recorded') := by
  refine (Emit.moves_openBody _ _).bind fun bindings => ?_
  have hagrees : Environment.Agrees ⟨bindings.reverse, recorded⟩ ⟨bindings.reverse, recorded'⟩ :=
    ⟨rfl, hrecorded, hvalid⟩
  exact (d.body.moves_emit hagrees offset).bind fun _ => Emit.moves_closeBody _ _

/-- A definition further on is emitted in the same way. -/
theorem moves_emit (hrecorded : recorded'.map Prototype.unplaced =
      recorded.map Prototype.unplaced) (hvalid : ∀ p ∈ recorded, p.repeated? = none)
    (d : Definition) : Emit.Moves offset (d.emit recorded) ((d.shift offset).emit recorded') := by
  refine d.moves_declare.bind fun _ => ((d.moves_emitBody hrecorded hvalid).tryCatch ?_).bind
    fun _ => Emit.moves_pure _
  exact fun _ => (Emit.moves_modify _).bind fun _ => Emit.moves_throw _

end Definition

end ScalarLang
