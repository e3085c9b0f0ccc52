import ScalarLang.Proofs.Session.WellFormed

/-!
# Emission into the body of a definition

Between the opening of a body and its end a session emits expressions and looks up
callees (`Session.Filling`). Its open unit is a draft then, and every such step only adds
code and declarations to the draft (`Session.Drafts`). None of them changes which names
are known with which arity, so what an expression is refused for does not depend on what
was emitted before it (`Session.Filling.emit_error_iff_first_refusal`).
-/

namespace ScalarLang

open Code

namespace Session

/-- The arity of a function that a call can name: that of the open unit, else that of the latest
prototype recorded. -/
def arity? (s : Session) (name : String) : Option Nat :=
  ((s.openUnit.lookup? name).map Signature.arity).or
    ((s.prototype? name).map fun p => p.params.length)

theorem arity?_eq (s : Session) : s.arity? = arityIn s.openUnit.signatures s.prototypes := by
  funext name
  rw [arity?, OpenUnit.lookup?_eq]
  rfl

/-- The session declares the definition, opens its body and binds its parameters. The expression of
the body is emitted by the second session. -/
inductive Opens (s : Session) (d : Definition) : Session → Prop
  | intro {signature : Signature} {bindings : List (String × Operand)} {declared opened : Session} :
      s.emit d.declare = (.ok signature, declared) →
      declared.emit (Emit.openBody d.prototype.name d.prototype.params) = (.ok bindings, opened) →
      Opens s d (opened.withBindings bindings.reverse)

/-- The session is in the middle of the body of the definition: behind the start of the body, any
expressions that were emitted into it and any callees that were looked up. -/
inductive Filling (d : Definition) : Session → Prop
  | opened {settings : Settings} {u : OpenUnit} {engine : Engine} {requests : List Request}
      {s : Session} : ((attach settings u engine).performAll requests).Opens d s → Filling d s
  | emit {s : Session} (e : Expr) : Filling d s → Filling d (s.emit (e.emit s.environment)).2
  | callee {s : Session} (name : String) : Filling d s → Filling d (s.callee? name).2

/-- The open unit is the draft, and the parameters of the definition are bound to their
arguments. -/
structure Drafts (s : Session) (d : Definition) (t : Draft) : Prop where
  openUnit : s.openUnit = t.openUnit
  nodup : t.names.Nodup
  bound : ∀ name, s.bindings.lookup name =
    if name ∈ d.prototype.params then some (.argument name) else none
  recorded : ∀ p ∈ s.prototypes, p.repeated? = none

theorem prototypes_of_emit {α : Type} {s s' : Session} {x : Emit α}
    {result : Except EmissionError α} (h : s.emit x = (result, s')) :
    s'.prototypes = s.prototypes := by
  have hs' : s' = { s with openUnit := x.after s.openUnit } := by rw [← emit_snd, h]
  rw [hs']

/-- An opened body is a draft without code among the other functions of the open unit. -/
theorem WellFormed.drafts_of_opens {s opened : Session} {d : Definition} (h : s.WellFormed)
    (hopens : s.Opens d opened) :
    d.checkName s.openUnit = .ok () ∧ ∃ before after,
      before ++ after = s.openUnit.others d.prototype.name ∧
        opened.Drafts d (d.draft s.openUnit.module.name before after) := by
  obtain ⟨hdeclare, hopen⟩ := hopens
  have hrun := d.run_declare h.opened.nodup
  cases hcheck : d.checkName s.openUnit with
  | error error =>
      rw [hcheck, run_of_emit hdeclare] at hrun
      cases hrun
  | ok _ =>
      rw [hcheck] at hrun
      obtain ⟨before, after, params, target, hothers, hrun⟩ := hrun
      have hnodup := Definition.nodup_draft hothers h.opened.nodup
      -- The declaration is the only function of its name, so opening its body opens nothing else.
      have hne : ∀ g ∈ before ++ after, g.name ≠ d.prototype.name :=
        (Draft.names_nodup_iff.1 hnodup).2
      have hdeclared := (run_of_emit hdeclare).symm.trans hrun
      injection hdeclared with hsignature hdeclared
      have hbody := run_of_emit hopen
      rw [hdeclared, Definition.run_openBody params target s.openUnit.registers hne] at hbody
      injection hbody with hbindings hopened
      refine ⟨rfl, before, after, hothers, hopened.symm, hnodup, fun name => ?_, ?_⟩
      · rw [withBindings, ← hbindings]
        exact lookup_bindings _ name
      · rw [withBindings, prototypes_of_emit hopen, prototypes_of_emit hdeclare]
        exact h.recorded

namespace Drafts

variable {s : Session} {d : Definition} {t : Draft}

theorem arity?_eq (h : s.Drafts d t) : s.arity? = arityIn t.openUnit.signatures s.prototypes := by
  rw [Session.arity?_eq, h.openUnit]

/-- Emitting an expression is checking it against what the session knows. -/
theorem emits (h : s.Drafts d t) (e : Expr) :
    t.Emits s.prototypes (e.check s.arity? d.prototype.params) (e.emit s.environment)
      (e.lower t.registers) e.calls := by
  rw [h.arity?_eq]
  exact e.emits_emit s.environment h.nodup h.recorded h.bound

/-- An action that only adds code and declarations leaves a draft behind, and the same names known
with the same arities. -/
theorem after {α : Type} {x : Emit α} {code : List Instruction} {latest : Nat}
    {declared : List Prototype} (h : s.Drafts d t) (hadds : t.Adds s.prototypes declared)
    (hx : x.after t.openUnit = (t.grow code latest declared).openUnit) :
    (s.emit x).2.Drafts d (t.grow code latest declared) ∧ (s.emit x).2.arity? = s.arity? := by
  have hs : (s.emit x).2 = { s with openUnit := (t.grow code latest declared).openUnit } := by
    rw [emit_snd, h.openUnit, hx]
  have hgrown : (s.emit x).2.Drafts d (t.grow code latest declared) := by
    rw [hs]
    exact ⟨rfl, hadds.names_nodup code latest, h.bound, h.recorded⟩
  refine ⟨hgrown, ?_⟩
  rw [hgrown.arity?_eq, h.arity?_eq, hs]
  exact hadds.arityIn_grow code latest

/-- An expression, emitted or refused, leaves a draft behind. -/
theorem after_emit (h : s.Drafts d t) (e : Expr) :
    ∃ t', (s.emit (e.emit s.environment)).2.Drafts d t' ∧
      (s.emit (e.emit s.environment)).2.arity? = s.arity? := by
  obtain ⟨declared, hadds, hrun⟩ := h.emits e
  cases hcheck : e.check s.arity? d.prototype.params with
  | ok _ =>
      rw [hcheck] at hrun
      exact ⟨_, h.after hadds (Emit.after_eq hrun.1)⟩
  | error error =>
      rw [hcheck] at hrun
      obtain ⟨code, latest, hrun⟩ := hrun
      exact ⟨_, h.after hadds (Emit.after_eq_of_error hrun)⟩

theorem run_callee? (h : s.Drafts d t) (name : String) :
    ∃ declared, t.Adds s.prototypes declared ∧
      (s.environment.callee? name).run t.openUnit =
        .ok ((s.arity? name).map (Signature.mk name))
          (t.grow [] t.registers declared).openUnit := by
  have hrecorded : ∀ p ∈ s.environment.prototypes, p.repeated? = none := h.recorded
  obtain ⟨declared, hadds, hrun, -⟩ := Draft.run_callee? h.nodup hrecorded name
  rw [h.arity?_eq]
  exact ⟨declared, hadds, hrun⟩

theorem after_callee? (h : s.Drafts d t) (name : String) :
    ∃ t', (s.callee? name).2.Drafts d t' ∧ (s.callee? name).2.arity? = s.arity? := by
  obtain ⟨declared, hadds, hrun⟩ := h.run_callee? name
  exact ⟨_, h.after hadds (Emit.after_eq hrun)⟩

/-- What emission answers is what the check answers. -/
theorem emit_eq_error_iff (h : s.Drafts d t) (e : Expr) {error : EmissionError} :
    (s.emit (e.emit s.environment)).1 = .error error ↔
      e.check s.arity? d.prototype.params = .error error := by
  obtain ⟨declared, hadds, hrun⟩ := h.emits e
  rw [emit_eq, h.openUnit]
  cases hcheck : e.check s.arity? d.prototype.params with
  | ok _ =>
      rw [hcheck] at hrun
      simp [hrun.1]
  | error error =>
      rw [hcheck] at hrun
      obtain ⟨code, latest, hrun⟩ := hrun
      simp [hrun]

/-- A call with another number of arguments fails behind the look-up of its callee. -/
theorem emit_call (h : s.Drafts d t) {callee : String} {args : List Expr} {span : Span}
    {arity : Nat} (harity : s.arity? callee = some arity) (hne : arity ≠ args.length) :
    s.emit ((Expr.call callee args span).emit s.environment) =
      (.error (.arityMismatch callee arity args.length span), (s.callee? callee).2) := by
  obtain ⟨declared, -, hrun⟩ := h.run_callee? callee
  rw [harity, ← h.openUnit] at hrun
  rw [callee?, emit_eq, emit_eq, hrun, Expr.emit, EStateM.run_bind, Environment.callee,
    EStateM.run_bind, hrun]
  simp [hne]

end Drafts

namespace Filling

variable {d : Definition} {s : Session}

/-- In the middle of a body the open unit is a draft. -/
theorem exists_draft (h : Filling d s) : ∃ t, s.Drafts d t := by
  induction h with
  | opened hopens =>
      obtain ⟨-, before, after, -, hdrafts⟩ :=
        ((WellFormed.attach _ _ _).performAll _).drafts_of_opens hopens
      exact ⟨_, hdrafts⟩
  | emit e _ ih =>
      obtain ⟨t, hdrafts⟩ := ih
      obtain ⟨t', hdrafts', -⟩ := hdrafts.after_emit e
      exact ⟨t', hdrafts'⟩
  | callee name _ ih =>
      obtain ⟨t, hdrafts⟩ := ih
      obtain ⟨t', hdrafts', -⟩ := hdrafts.after_callee? name
      exact ⟨t', hdrafts'⟩

/-- In the middle of a body an expression is refused for what the first node at fault is refused
for, which is an error of expressions at the place of that node, and whether it is emitted or
refused, the same names are known with the same arities. A call with another number of arguments
fails as soon as its callee is looked up, whatever its arguments are. -/
theorem emit_error_iff_first_refusal (h : Filling d s) (e : Expr) :
    (∀ error, (s.emit (e.emit s.environment)).1 = .error error ↔ ∃ before node after,
      e.visits = before ++ node :: after ∧
        node.refusal? s.arity? d.prototype.params = some error ∧
          ∀ earlier ∈ before, earlier.refusal? s.arity? d.prototype.params = none) ∧
    (∀ error, (s.emit (e.emit s.environment)).1 = .error error →
      error.isOfExpression = true ∧ ∃ node ∈ e.visits,
        node.refusal? s.arity? d.prototype.params = some error ∧
          error.span? = some node.span) ∧
    (s.emit (e.emit s.environment)).2.arity? = s.arity? ∧
    ∀ callee args span arity, s.arity? callee = some arity → arity ≠ args.length →
      s.emit ((Expr.call callee args span).emit s.environment) =
        (.error (.arityMismatch callee arity args.length span), (s.callee? callee).2) := by
  obtain ⟨t, hdrafts⟩ := h.exists_draft
  have hfirst : ∀ error, (s.emit (e.emit s.environment)).1 = .error error ↔ _ :=
    fun error => (hdrafts.emit_eq_error_iff e).trans Expr.check_eq_error_iff
  refine ⟨hfirst, fun error herror => ?_, ?_, fun callee args span arity => hdrafts.emit_call⟩
  · obtain ⟨before, node, after, hvisits, hrefusal, -⟩ := (hfirst error).1 herror
    obtain ⟨hkind, hspan⟩ := Expr.of_refusal? hrefusal
    refine ⟨hkind, node, ?_, hrefusal, hspan⟩
    rw [hvisits]
    exact List.mem_append_right before List.mem_cons_self
  · obtain ⟨t', -, harity⟩ := hdrafts.after_emit e
    exact harity

/-- Behind `extern f(a b)`, the body of `def g(x) f(x, y, g())` fails with the number of arguments
of the outer call, and not with the variable or the inner call. -/
theorem emit_error_iff_first_refusal_mismatch :
    let s := (attach .standard (.new "") (.new 3)).performAll [.declare ⟨"f", ["a", "b"], ⟨7, 13⟩⟩]
    let d : Definition := ⟨⟨"g", ["x"], ⟨4, 8⟩⟩,
      .call "f" [.var "x" ⟨11, 12⟩, .var "y" ⟨14, 15⟩, .call "g" [] ⟨17, 20⟩] ⟨9, 21⟩⟩
    let opened : Session := { s with
      openUnit := ⟨⟨"my cool jit", [⟨"f", ["a", "b"], []⟩, ⟨"g", ["x"], [⟨"entry", [], none⟩]⟩]⟩,
        some "g", 0⟩
      bindings := [("x", .argument "x")] }
    Filling d opened ∧ opened.emit (d.body.emit opened.environment) =
      (.error (.arityMismatch "f" 2 3 ⟨9, 21⟩), (opened.callee? "f").2) := by
  intro s d opened
  have hopens : s.Opens d opened :=
    @Opens.intro s d ⟨"g", 1⟩ [("x", .argument "x")] (s.emit d.declare).2
      { opened with bindings := [] } rfl rfl
  have hfilling : Filling d opened := .opened hopens
  have hcall := (hfilling.emit_error_iff_first_refusal d.body).2.2.2
  exact ⟨hfilling, hcall "f" _ _ 2 rfl (by decide)⟩

end Filling

end Session

end ScalarLang
