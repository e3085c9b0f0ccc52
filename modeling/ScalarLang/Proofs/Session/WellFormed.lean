import ScalarLang.Proofs.Emission.WellFormed
import ScalarLang.Proofs.Session.Bindings

/-!
# The open unit of a session is well formed

A session can be asked for anything at any time (`Session.Request`): arbitrary trees,
prototypes that repeat a parameter, symbols that are not there. Whatever it is asked
for and whether it succeeds, the open unit behind it is well formed, and so the
prototypes recorded (`Session.WellFormed.perform`). Hence the open unit never has
anything to complain about (`Session.complaints_performAll`).
-/

namespace ScalarLang

open Code

namespace Session

/-- A session that starts on an open unit and an engine that were used before. -/
def attach (settings : Settings) (u : OpenUnit) (engine : Engine) : Session where
  settings := settings
  openUnit := u.reopen settings.moduleName
  engine := engine
  bindings := []
  prototypes := []
  sealedUnits := 0

theorem new_eq_attach (settings : Settings) (limit : Nat) :
    new settings limit = attach settings (.new settings.moduleName) (.new limit) := rfl

/-- What a session can be asked for. -/
inductive Request where
  | define (d : Definition)
  | declare (p : Prototype)
  | emitTopLevel (d : Definition)
  | evaluate (d : Definition)
  | runTopLevel (symbol : String)
  | callee (name : String)
  deriving BEq, Repr, Inhabited

/-- The session behind a request. -/
def perform (s : Session) : Request → Session
  | .define d => (s.define d).2
  | .declare p => (s.declare p).2
  | .emitTopLevel d => (s.emitTopLevel d).2
  | .evaluate d => (s.evaluate d).2
  | .runTopLevel symbol => (s.runTopLevel symbol).2
  | .callee name => (s.callee? name).2

def performAll (s : Session) (requests : List Request) : Session := requests.foldl perform s

/-- The open unit is well formed, no recorded prototype repeats a parameter, and no parameter is
bound. -/
structure WellFormed (s : Session) : Prop where
  opened : s.openUnit.module.WellFormed
  unbound : s.bindings = []
  recorded : ∀ p ∈ s.prototypes, p.repeated? = none

theorem emit_snd {α : Type} (s : Session) (x : Emit α) :
    (s.emit x).2 = { s with openUnit := x.after s.openUnit } := by
  rw [emit, Emit.after, EStateM.run]
  cases x s.openUnit <;> rfl

theorem run_of_emit {α : Type} {s s' : Session} {x : Emit α} {value : α}
    (h : s.emit x = (.ok value, s')) : x.run s.openUnit = .ok value s'.openUnit := by
  rw [emit] at h
  rw [EStateM.run]
  split at h
  next hrun =>
    cases h
    exact hrun
  · cases h

namespace WellFormed

variable {s : Session}

theorem emit {α : Type} (h : s.WellFormed) {x : Emit α}
    (hx : (x.after s.openUnit).module.WellFormed) : (s.emit x).2.WellFormed := by
  rw [emit_snd]
  exact ⟨hx, h.unbound, h.recorded⟩

/-- A prototype is recorded behind a success only. -/
theorem record (h : s.WellFormed) {p : Prototype} {x : Emit Signature}
    (hx : (x.after s.openUnit).module.WellFormed)
    (hp : ∀ signature s', s.emit x = (.ok signature, s') → p.repeated? = none) :
    (record p (s.emit x)).2.WellFormed := by
  have hemit := h.emit hx
  rcases hresult : s.emit x with ⟨_ | signature, s'⟩
  · rw [hresult] at hemit
    exact hemit
  · rw [hresult] at hemit
    exact ⟨hemit.opened, hemit.unbound,
      List.forall_mem_cons.2 ⟨hp signature s' hresult, hemit.recorded⟩⟩

theorem emitTopLevel (h : s.WellFormed) (d : Definition) : (s.emitTopLevel d).2.WellFormed := by
  rw [emitTopLevel_eq h.unbound]
  exact h.emit (d.wellFormed_emit h.opened h.recorded)

theorem define (h : s.WellFormed) (d : Definition) : (s.define d).2.WellFormed := by
  rw [define_eq h.unbound]
  split
  · exact h.emit (d.wellFormed_emit h.opened h.recorded)
  · refine h.record (d.wellFormed_emit h.opened h.recorded) fun signature s' hemit => ?_
    have hcheck := (Definition.of_run_emit h.opened.nodup h.recorded (run_of_emit hemit)).1
    exact Definition.repeated?_of_checkName (Definition.check_eq_ok_iff.1 hcheck).1

theorem declare (h : s.WellFormed) (p : Prototype) : (s.declare p).2.WellFormed := by
  refine h.record (p.wellFormed_emit h.opened) fun signature s' hemit => ?_
  exact Prototype.repeated?_of_checkName
    (Prototype.checkName_of_run_emit h.opened.nodup (run_of_emit hemit))

theorem callee? (h : s.WellFormed) (name : String) : (s.callee? name).2.WellFormed :=
  h.emit (Environment.wellFormed_callee? h.opened name)

/-- Running seals the open unit, whether the run succeeds or fails, and the next one is empty. -/
theorem runTopLevel (h : s.WellFormed) (symbol : String) : (s.runTopLevel symbol).2.WellFormed :=
  ⟨Module.wellFormed_nil s.settings.moduleName, h.unbound, h.recorded⟩

theorem evaluate (h : s.WellFormed) (d : Definition) : (s.evaluate d).2.WellFormed := by
  have hemit := h.emitTopLevel d
  rw [Session.evaluate]
  revert hemit
  generalize s.emitTopLevel d = result
  obtain ⟨_ | signature, s'⟩ := result
  · exact id
  · exact fun h' => h'.runTopLevel d.prototype.name

/-- Every request keeps a session well formed. -/
theorem perform (h : s.WellFormed) (request : Request) : (s.perform request).WellFormed := by
  cases request with
  | define d => exact h.define d
  | declare p => exact h.declare p
  | emitTopLevel d => exact h.emitTopLevel d
  | evaluate d => exact h.evaluate d
  | runTopLevel symbol => exact h.runTopLevel symbol
  | callee name => exact h.callee? name

theorem performAll (h : s.WellFormed) (requests : List Request) :
    (s.performAll requests).WellFormed := by
  induction requests generalizing s with
  | nil => exact h
  | cons request requests ih => exact ih (h.perform request)

theorem attach (settings : Settings) (u : OpenUnit) (engine : Engine) :
    (attach settings u engine).WellFormed :=
  ⟨Module.wellFormed_nil settings.moduleName, rfl, List.forall_mem_nil _⟩

theorem new (settings : Settings) (limit : Nat) : (new settings limit).WellFormed := by
  rw [new_eq_attach]
  exact attach settings _ _

end WellFormed

/-- Behind any requests the functions of the open unit have distinct names and there is nothing to
complain about: every body is terminated, and every callee is there with the arity of the call. -/
theorem complaints_performAll (settings : Settings) (u : OpenUnit) (engine : Engine)
    (requests : List Request) :
    let m := ((attach settings u engine).performAll requests).openUnit.module
    (m.functions.map Function.name).Nodup ∧ m.complaints = [] ∧
      ∀ f ∈ m.functions, ∀ b ∈ f.blocks, b.terminator.isSome ∧
        ∀ i ∈ b.instructions, ∀ signature ∈ i.signature?, m.Provides signature := by
  intro m
  have h : m.WellFormed := ((WellFormed.attach settings u engine).performAll requests).opened
  refine ⟨h.nodup, m.complaints_eq_nil_iff.2 h.valid, fun f hf b hb => ?_⟩
  obtain ⟨hscoped, hprovides⟩ := Function.valid_iff.1 (h.valid f hf)
  refine ⟨isSome_terminator hscoped.blocks b hb, fun i hi signature hsignature => ?_⟩
  refine hprovides signature (List.mem_flatMap.2 ⟨b, hb, ?_⟩)
  exact List.mem_filterMap.2 ⟨i, hi, hsignature⟩

end Session

end ScalarLang
