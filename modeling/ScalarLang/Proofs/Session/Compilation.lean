import ScalarLang.Proofs.Grammar.Program
import ScalarLang.Proofs.Session.Acceptance

/-!
# What a run computes

A session keeps the trees of every statement that code was emitted for
(`Session.trees`). Running the code of an expression at the top level comes to what
evaluating its tree in these definitions comes to, with the same calls of natives
(`Session.runTopLevel_eq_run`).
-/

namespace ScalarLang

namespace Session.Realizes

variable {s : Session} {settings : Settings} {t : TreeSession}

/-- A run of an expression whose code was emitted evaluates its tree. -/
theorem run_emitted (h : s.Realizes settings t) {d : Definition} {signature : Signature}
    {s' : Session} (hemit : s.emitTopLevel d = (.ok signature, s')) :
    (s'.runTopLevel d.prototype.name).1 = t.run d := by
  have hcheck := h.emit_definition d
  rw [emitTopLevel_eq h.unbound] at hemit
  cases hd : t.check d with
  | error error =>
      rw [hd] at hcheck
      obtain ⟨_, hfailed, -⟩ := hcheck
      rw [hfailed] at hemit
      cases hemit
  | ok _ =>
      rw [hd] at hcheck
      obtain ⟨functions, registers, hs', -, hholds⟩ := hcheck
      rw [hs'] at hemit
      cases hemit
      exact h.run_topLevel registers ⟨_, (TreeSession.check_eq_ok hd).2⟩ hholds

end Session.Realizes

end ScalarLang
