import ScalarLang.Proofs.Emission.Definition
import ScalarLang.Session.Basic

/-!
# Bindings last for one body

A session binds parameters while it emits a body and forgets them behind it, whatever the
body came to. So a session without bindings emits a function as if the parameters were
bound for its body alone (`Session.emitTopLevel_eq`).
-/

namespace ScalarLang

/-- A definition is declared, and discarded again if its body fails. -/
theorem Definition.run_emit_eq (d : Definition) (prototypes : List Prototype) (u : OpenUnit) :
    (d.emit prototypes).run u = match d.declare.run u with
      | .error error u => .error error u
      | .ok signature u => match (d.emitBody prototypes).run u with
        | .ok _ u => .ok signature u
        | .error error u => .error error (u.discard d.prototype.name) := by
  rw [emit, EStateM.run_bind]
  cases d.declare.run u with
  | error error u => rfl
  | ok signature u =>
      dsimp only
      rw [EStateM.run_bind, Emit.run_tryCatch]
      cases (d.emitBody prototypes).run u <;> rfl

namespace Session

theorem emit_eq {α : Type} (s : Session) (x : Emit α) :
    s.emit x = match x.run s.openUnit with
      | .ok value u => (.ok value, { s with openUnit := u })
      | .error error u => (.error error, { s with openUnit := u }) := rfl

/-- Up to the bindings that it leaves, a session emits a body as the open unit does. -/
theorem emitBody_eq (s : Session) (d : Definition) :
    ∃ bindings, s.emitBody d = ((s.emit (d.emitBody s.prototypes)).1,
      { (s.emit (d.emitBody s.prototypes)).2 with bindings := bindings }) := by
  rw [emitBody, Definition.emitBody, emit_eq, emit_eq, EStateM.run_bind]
  cases (Emit.openBody d.prototype.name d.prototype.params).run s.openUnit with
  | error error u => exact ⟨s.bindings, rfl⟩
  | ok bindings u =>
      refine ⟨bindings.reverse, ?_⟩
      dsimp only
      rw [emit_eq]
      dsimp only [withBindings, environment]
      cases (d.fillBody ⟨bindings.reverse, s.prototypes⟩).run u <;> rfl

/-- A session without bindings emits a function as the open unit does, and has none again. -/
theorem emitTopLevel_eq {s : Session} (h : s.bindings = []) (d : Definition) :
    s.emitTopLevel d = s.emit (d.emit s.prototypes) := by
  rw [emitTopLevel, emit_eq, emit_eq, Definition.run_emit_eq]
  cases d.declare.run s.openUnit with
  | error error u => rfl
  | ok signature u =>
      obtain ⟨bindings, hbody⟩ := emitBody_eq { s with openUnit := u } d
      dsimp only
      rw [hbody, emit_eq]
      cases (d.emitBody s.prototypes).run u with
      | ok _ u =>
          dsimp only [withBindings]
          rw [← h]
      | error error u =>
          dsimp only [withBindings]
          rw [← h]

theorem define_eq {s : Session} (h : s.bindings = []) (d : Definition) :
    s.define d = if d.prototype.isAnonymous then s.emit (d.emit s.prototypes)
      else record d.prototype (s.emit (d.emit s.prototypes)) := by
  rw [define, emitTopLevel_eq h]

/-- Whether a definition succeeds is whether its emission does. -/
theorem define_fst {s : Session} (h : s.bindings = []) (d : Definition) :
    (s.define d).1 = (s.emit (d.emit s.prototypes)).1 := by
  rw [define_eq h]
  split
  · rfl
  · generalize s.emit (d.emit s.prototypes) = result
    obtain ⟨_ | signature, s'⟩ := result <;> rfl

end Session

end ScalarLang
