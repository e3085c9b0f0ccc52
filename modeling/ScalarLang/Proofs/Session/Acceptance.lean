import ScalarLang.Proofs.Session.Simulation

/-!
# Accepted statements

A session accepts a statement if code is emitted for it. A realizing session accepts
what the check passes (`Session.Realizes.accepts_eq`), and only an accepted statement
changes the session on trees (`TreeSession.handle_snd`).
-/

namespace ScalarLang

/-- Whether code is emitted for the statement. -/
def Session.accepts (s : Session) : Statement → Bool
  | .definition d => (s.define d).1.isOk
  | .external q => (s.declare q).1.isOk
  | .topLevel d => (s.emitTopLevel d).1.isOk
  | .malformed _ | .endOfInput => false

/-- Whether the check passes the statement. -/
def TreeSession.accepts (t : TreeSession) : Statement → Bool
  | .definition d | .topLevel d => (t.check d).isOk
  | .external q => (t.checkExternal q).isOk
  | .malformed _ | .endOfInput => false

theorem TreeSession.handle_snd (t : TreeSession) (statement : Statement) :
    (t.handle statement).2 = if t.accepts statement then t.accept statement else t := by
  cases statement with
  | definition d | topLevel d =>
      rw [handle, accepts]
      cases t.check d <;> rfl
  | external q =>
      rw [handle, accepts]
      cases t.checkExternal q <;> rfl
  | malformed error | endOfInput => rfl

namespace Session.Realizes

variable {s : Session} {settings : Settings} {t : TreeSession}

theorem isOk_emitTopLevel (h : s.Realizes settings t) (d : Definition) :
    (s.emitTopLevel d).1.isOk = (t.check d).isOk := by
  have hemit := h.emit_definition d
  rw [emitTopLevel_eq h.unbound]
  cases hcheck : t.check d with
  | error error =>
      rw [hcheck] at hemit
      obtain ⟨s', hs', -⟩ := hemit
      rw [hs']
      rfl
  | ok _ =>
      rw [hcheck] at hemit
      obtain ⟨functions, registers, hs', -⟩ := hemit
      rw [hs']
      rfl

/-- Recording a prototype does not change whether the statement succeeds. -/
theorem isOk_record (q : Prototype) (result : Except EmissionError Signature × Session) :
    (record q result).1.isOk = result.1.isOk := by
  obtain ⟨result, s⟩ := result
  cases result <;> rfl

theorem accepts_eq (h : s.Realizes settings t) {statement : Statement} (hnamed : statement.Named) :
    s.accepts statement = t.accepts statement := by
  cases statement with
  | definition d =>
      have hdefine : (s.define d).1.isOk = (s.emitTopLevel d).1.isOk := by
        rw [define]
        split
        · rfl
        · exact isOk_record _ _
      exact hdefine.trans (h.isOk_emitTopLevel d)
  | external q =>
      have hemit := h.emit_external hnamed
      rw [accepts, TreeSession.accepts, declare, isOk_record]
      cases hcheck : t.checkExternal q with
      | error error =>
          rw [hcheck] at hemit
          dsimp only at hemit
          rw [hemit]
          rfl
      | ok _ =>
          rw [hcheck] at hemit
          obtain ⟨u, hemit, -⟩ := hemit
          rw [hemit]
          rfl
  | topLevel d => exact h.isOk_emitTopLevel d
  | malformed error | endOfInput => rfl

end Session.Realizes

end ScalarLang
