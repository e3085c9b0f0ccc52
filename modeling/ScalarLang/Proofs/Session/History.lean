import ScalarLang.Proofs.Session.Calls
import ScalarLang.Proofs.Session.Residence

/-!
# Code does not depend on the history

Emission runs through the state of a session: the open unit with what earlier successes and
failures left in it, the number of the latest register, the bindings and the recorded
prototypes. All of these decide whether code can be emitted for a definition, but not what
that code is. Whatever two sessions handled before, a definition that both emit has the same
function and the same listing in both (`Session.emitted_eq`).
-/

namespace ScalarLang

open Code

namespace Session

/-- Code is emitted for a definition, or for it as an expression at the top level. -/
inductive Emits (s : Session) (d : Definition) : Session → Prop
  | definition {signature : Signature} {s' : Session} : s.define d = (.ok signature, s') →
      s.Emits d s'
  | topLevel {signature : Signature} {s' : Session} : s.emitTopLevel d = (.ok signature, s') →
      s.Emits d s'

/-- A definition that is accepted is in the open unit. -/
theorem WellFormed.find?_define {s s' : Session} (h : s.WellFormed) {d : Definition}
    {signature : Signature} (hdefine : s.define d = (.ok signature, s')) :
    s'.openUnit.module.find? d.prototype.name = some d.compiled := by
  rw [Session.define] at hdefine
  split at hdefine
  · exact h.find?_emitTopLevel hdefine
  · rcases hemit : s.emitTopLevel d with ⟨_ | signature', emitted⟩
    · rw [hemit] at hdefine
      cases hdefine
    · have hfind := h.find?_emitTopLevel hemit
      rw [hemit] at hdefine
      cases hdefine
      exact hfind

/-- The function in the open unit is what the definition compiles to. -/
theorem WellFormed.find?_of_emits {s s' : Session} (h : s.WellFormed) {d : Definition}
    (hemits : s.Emits d s') :
    s'.openUnit.module.find? d.prototype.name = some d.compiled := by
  cases hemits with
  | definition hdefine => exact h.find?_define hdefine
  | topLevel hemit => exact h.find?_emitTopLevel hemit

/-- Sessions with any two histories emit the same function for a definition, if both emit it. -/
theorem emitted_eq (settings settings' : Settings) (limit limit' : Nat)
    (before before' : List Statement) {d : Definition} {s s' : Session}
    (hemits : ((new settings limit).handleAll before).2.Emits d s)
    (hemits' : ((new settings' limit').handleAll before').2.Emits d s') :
    s.openUnit.module.find? d.prototype.name = some d.compiled ∧
      s'.openUnit.module.find? d.prototype.name = some d.compiled ∧
      s.openUnit.listing d.prototype.name = d.compiled.text ∧
      s'.openUnit.listing d.prototype.name = d.compiled.text := by
  have hfind := ((WellFormed.new settings limit).handleAll before).find?_of_emits hemits
  have hfind' := ((WellFormed.new settings' limit').handleAll before').find?_of_emits hemits'
  refine ⟨hfind, hfind', ?_, ?_⟩
  · rw [OpenUnit.listing, hfind]
    rfl
  · rw [OpenUnit.listing, hfind']
    rfl

/-- The callee is in the open unit of one session. In the other one it is in a sealed unit, and an
expression failed at run time and a definition before. -/
theorem emitted_eq_recursion :
    let loop : Statement := .definition ⟨⟨"f", [], ⟨4, 7⟩⟩, .call "f" [] ⟨8, 11⟩⟩
    let call : Definition := .anonymous (.call "f" [] ⟨0, 3⟩)
    let unbound : Statement := .definition ⟨⟨"g", ["x"], ⟨4, 8⟩⟩, .var "y" ⟨9, 10⟩⟩
    ∃ s s', ((new .standard 3).handleAll [loop]).2.Emits call s ∧
      ((new .standard 3).handleAll [loop, .topLevel call, unbound]).2.Emits call s' ∧
      s.openUnit.module.find? Prototype.anonymousName = some call.compiled ∧
      s'.openUnit.module.find? Prototype.anonymousName = some call.compiled ∧
      s.openUnit.listing Prototype.anonymousName = call.compiled.text ∧
      s'.openUnit.listing Prototype.anonymousName = call.compiled.text := by
  intro loop call unbound
  have hnamed : ∀ statement ∈ [loop, .topLevel call, unbound], statement.Named := by
    simp [loop, call, unbound, Statement.Named, Definition.anonymous, Prototype.anonymousName]
  have hfirst : ∀ statement ∈ [loop], statement.Named :=
    List.forall_mem_singleton.2 (hnamed loop List.mem_cons_self)
  have hnew := Realizes.new .standard 3
  obtain ⟨_, s, hemit⟩ := (hnew.handleAll hfirst).2.exists_emitted (d := call) (by decide)
  obtain ⟨_, s', hemit'⟩ := (hnew.handleAll hnamed).2.exists_emitted (d := call) (by decide)
  exact ⟨s, s', .topLevel hemit, .topLevel hemit', emitted_eq .standard .standard 3 3 [loop]
    [loop, .topLevel call, unbound] (.topLevel hemit) (.topLevel hemit')⟩

end Session

end ScalarLang
