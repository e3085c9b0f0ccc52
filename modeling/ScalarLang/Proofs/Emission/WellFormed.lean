import ScalarLang.Proofs.Emission.Definition
import ScalarLang.Proofs.Validity.Folding

/-!
# Emission keeps the open unit well formed

A module is well formed if no two of its functions have one name and each of them is
valid. Emission, whether it succeeds or fails, updates the open unit under one name
(`Prototype.updates_emit`, `Definition.updates_emit`): what takes the place of a function
that others call has the arity of that function, so the callers stay valid
(`OpenUnit.Updates.wellFormed`).
-/

namespace ScalarLang

open Code

namespace Code.Module

/-- The functions of the module have distinct names, and nothing is wrong with any of them. -/
structure WellFormed (m : Module) : Prop where
  nodup : (m.functions.map Function.name).Nodup
  valid : m.Valid

theorem wellFormed_nil (name : String) : (⟨name, []⟩ : Module).WellFormed :=
  ⟨List.nodup_nil, List.forall_mem_nil _⟩

theorem Provides.exists_mem {m : Module} {signature : Signature} (h : m.Provides signature) :
    ∃ f ∈ m.functions, f.signature = signature := by
  obtain ⟨f, hfind, rfl⟩ := Option.map_eq_some_iff.1 h
  exact ⟨f, List.mem_of_find?_eq_some hfind, rfl⟩

end Code.Module

theorem Prototype.valid_declaration {p : Prototype} (h : p.repeated? = none) (m : Module) :
    p.declaration.Valid m :=
  Function.valid_iff.2 ⟨Function.scoped_declaration h, List.forall_mem_nil _⟩

/-- What emission under a name does to the open unit, failed or not: nothing, or it replaces the
functions of the name. Then the name has no body, a function that others call is replaced by one of
its signature, and what takes the place is valid. -/
inductive OpenUnit.Updates (u : OpenUnit) (name : String) (recorded : List Prototype)
    (u' : OpenUnit) : Prop
  | kept : u'.module = u.module → Updates u name recorded u'
  | replaced {own : Option Function} : u.Replaces name recorded own u'.module.functions →
      u.hasBody name = false →
      (u.isReferenced name = true → ∀ f ∈ u.module.functions, f.name = name →
        ∃ g ∈ own, g.signature = f.signature) →
      (∀ f ∈ own, f.Valid u'.module) → Updates u name recorded u'

namespace OpenUnit

variable {u u' : OpenUnit} {name : String} {recorded : List Prototype}

/-- An update keeps the open unit well formed. -/
theorem Updates.wellFormed (hu : u.Updates name recorded u') (h : u.module.WellFormed)
    (hrecorded : ∀ p ∈ recorded, p.repeated? = none) : u'.module.WellFormed := by
  cases hu with
  | kept hmodule => rwa [hmodule]
  | replaced hr _ hcalled hown =>
  refine ⟨hr.nodup, fun f hf => ?_⟩
  rcases hr.cases_mem f hf with hother | hf | ⟨p, hp, rfl⟩
  · have hvalid := h.valid f (List.mem_filter.1 hother).1
    refine hvalid.of_provides fun signature hsignature => ?_
    obtain ⟨g, hg, rfl⟩ := ((Function.valid_iff.1 hvalid).2 signature hsignature).exists_mem
    refine Module.provides_of_mem hr.nodup ?_
    -- A callee under another name is kept as it is. One that is replaced is called by `f`, which
    -- is kept, so its replacement has its signature.
    by_cases hname : g.name = name
    · have hreferenced : u.isReferenced name = true := by
        rw [isReferenced_eq]
        refine List.any_eq_true.2 ⟨f, hother, Function.calls_iff.2 ⟨_, hsignature, ?_⟩⟩
        exact hname
      obtain ⟨g', hg', heq⟩ := hcalled hreferenced g hg hname
      rw [← heq]
      exact List.mem_map_of_mem (hr.mem_own g' hg')
    · exact List.mem_map_of_mem (hr.mem_others g (List.mem_filter.2 ⟨hg, by simpa using hname⟩))
  · exact hown f hf
  · exact Prototype.valid_declaration (hrecorded p (List.mem_of_find?_eq_some hp)) _

/-- A name that can be declared anew has no body. -/
theorem hasBody_eq_false
    (hfree : u.lookup? name = none ∨ u.hasBody name = false ∧ u.isReferenced name = false) :
    u.hasBody name = false := by
  rcases hfree with hnone | ⟨hbody, -⟩
  · rw [lookup?, Option.map_eq_none_iff] at hnone
    rw [hasBody, hnone, Option.any_none]
  · exact hbody

/-- No function stands in the way of a name that others call, if the name can be declared anew. -/
theorem name_ne_of_isReferenced
    (hfree : u.lookup? name = none ∨ u.hasBody name = false ∧ u.isReferenced name = false)
    (hreferenced : u.isReferenced name = true) {f : Function} (hf : f ∈ u.module.functions) :
    f.name ≠ name := by
  rcases hfree with hnone | ⟨-, hunreferenced⟩
  · rw [lookup?, Option.map_eq_none_iff] at hnone
    simpa using List.find?_eq_none.1 hnone f hf
  · rw [hunreferenced] at hreferenced
    cases hreferenced

end OpenUnit

/-- The open unit behind an action, failed or not. -/
def Emit.after {α : Type} (x : Emit α) (u : OpenUnit) : OpenUnit :=
  match x.run u with
  | .ok _ u => u
  | .error _ u => u

theorem Emit.after_eq {α : Type} {x : Emit α} {u u' : OpenUnit} {value : α}
    (h : x.run u = .ok value u') : x.after u = u' := by
  rw [after, h]

theorem Emit.after_eq_of_error {α : Type} {x : Emit α} {u u' : OpenUnit} {error : EmissionError}
    (h : x.run u = .error error u') : x.after u = u' := by
  rw [after, h]

namespace Prototype

theorem repeated?_of_checkName {p : Prototype} {u : OpenUnit} (h : p.checkName u = .ok ()) :
    p.repeated? = none := by
  rw [checkName] at h
  split at h
  · cases h
  next hrepeated => exact hrepeated

/-- Emitting a declaration updates the open unit under its name. -/
theorem updates_emit {p : Prototype} {u : OpenUnit}
    (hnodup : (u.module.functions.map Function.name).Nodup) :
    u.Updates p.name [] (p.emit.after u) := by
  have hemit := p.run_emit hnodup
  cases hcheck : p.checkName u with
  | error error =>
      rw [hcheck] at hemit
      rw [Emit.after_eq_of_error hemit]
      exact .kept rfl
  | ok _ =>
      rw [hcheck] at hemit
      obtain ⟨-, hrun⟩ | ⟨hfree, target, hrun⟩ := hemit
      · rw [Emit.after_eq hrun]
        exact .kept rfl
      · rw [Emit.after_eq hrun]
        refine .replaced (p.replaces_declaration hnodup []) (OpenUnit.hasBody_eq_false hfree)
          (fun hreferenced f hf hname => ?_) fun f hf => ?_
        · exact absurd hname (OpenUnit.name_ne_of_isReferenced hfree hreferenced hf)
        · rw [← Option.some.inj hf]
          exact valid_declaration (repeated?_of_checkName hcheck) _

theorem wellFormed_emit {p : Prototype} {u : OpenUnit} (h : u.module.WellFormed) :
    (p.emit.after u).module.WellFormed :=
  (p.updates_emit h.nodup).wellFormed h (List.forall_mem_nil _)

end Prototype

namespace Definition

theorem check_eq_ok_iff {d : Definition} {u : OpenUnit} {recorded : List Prototype} :
    d.check u recorded = .ok () ↔ d.checkName u = .ok () ∧
      d.body.check (fun name => if name = d.prototype.name then some d.prototype.params.length
        else arityIn u.signatures recorded name) d.prototype.params = .ok () ∧ d.clashes = [] := by
  rw [check, ← checkBody_eq_ok_iff]
  cases d.checkName u <;> simp [bind, Except.bind]

/-- A definition that is not refused has the signature of a function of its name that others
call. -/
theorem signature_of_checkName {d : Definition} {u : OpenUnit} (h : d.checkName u = .ok ())
    (hnodup : (u.module.functions.map Function.name).Nodup)
    (hreferenced : u.isReferenced d.prototype.name = true) {f : Function}
    (hf : f ∈ u.module.functions) (hname : f.name = d.prototype.name) :
    d.prototype.signature = f.signature := by
  have hlookup : u.lookup? d.prototype.name = some f.signature := by
    rw [← hname, OpenUnit.lookup?, Module.find?_eq_some_of_mem hnodup hf]
    rfl
  rw [checkName, repeated?_of_checkName h, hlookup, hreferenced] at h
  have harity : f.params.length = d.prototype.params.length := by
    by_contra hne
    simp only [Function.signature, hne, if_false, if_true] at h
    split at h <;> cases h
  rw [Prototype.signature, Function.signature, hname, harity]

/-- The function of a definition is valid among functions that have its callees. -/
theorem valid_compiled {d : Definition} {m : Module} (hrepeated : d.prototype.repeated? = none)
    (hclashes : d.clashes = []) (hcalls : ∀ signature ∈ d.body.calls, m.Provides signature) :
    d.compiled.Valid m := by
  have hwritten : d.written.Valid m := (violations_written hrepeated hcalls).trans hclashes
  exact hwritten.fold

/-- A definition that is not refused has no body yet. -/
theorem hasBody_of_checkName {d : Definition} {u : OpenUnit} (h : d.checkName u = .ok ()) :
    u.hasBody d.prototype.name = false := by
  cases hfind : u.module.find? d.prototype.name with
  | none => rw [OpenUnit.hasBody, hfind, Option.any_none]
  | some f =>
      rw [checkName, repeated?_of_checkName h, OpenUnit.lookup?, hfind] at h
      cases hbody : u.hasBody d.prototype.name with
      | false => rfl
      | true =>
          rw [hbody] at h
          cases h

/-- Emitting a definition updates the open unit under its name, also if the body fails. -/
theorem updates_emit {d : Definition} {u : OpenUnit} {recorded : List Prototype}
    (hnodup : (u.module.functions.map Function.name).Nodup)
    (hrecorded : ∀ p ∈ recorded, p.repeated? = none) :
    u.Updates d.prototype.name recorded ((d.emit recorded).after u) := by
  have hemit := d.run_emit hnodup hrecorded
  cases hcheck : d.check u recorded with
  | ok _ =>
      rw [hcheck] at hemit
      obtain ⟨functions, registers, hrun, hreplaces, hcalls⟩ := hemit
      obtain ⟨hname, -, hclashes⟩ := check_eq_ok_iff.1 hcheck
      rw [Emit.after_eq hrun]
      refine .replaced hreplaces (hasBody_of_checkName hname) (fun hreferenced f hf hf' => ?_)
        fun f hf => ?_
      · exact ⟨d.compiled, rfl, signature_of_checkName hname hnodup hreferenced hf hf'⟩
      · rw [← Option.some.inj hf]
        exact valid_compiled (repeated?_of_checkName hname) hclashes fun signature hsignature =>
          Module.provides_of_mem hreplaces.nodup (hcalls signature hsignature)
  | error error =>
      rw [hcheck] at hemit
      obtain ⟨functions, target, registers, hrun, ⟨-, rfl⟩ | ⟨hname, hreplaces⟩⟩ := hemit
      · rw [Emit.after_eq_of_error hrun]
        exact .kept rfl
      · rw [Emit.after_eq_of_error hrun]
        refine .replaced hreplaces (hasBody_of_checkName hname) (fun hreferenced f hf hf' => ?_)
          fun f hf => ?_
        · rw [if_pos hreferenced]
          exact ⟨_, rfl, signature_of_checkName hname hnodup hreferenced hf hf'⟩
        · split at hf
          · rw [← Option.some.inj hf]
            exact Prototype.valid_declaration (repeated?_of_checkName hname) _
          · cases hf

theorem wellFormed_emit {d : Definition} {u : OpenUnit} {recorded : List Prototype}
    (h : u.module.WellFormed) (hrecorded : ∀ p ∈ recorded, p.repeated? = none) :
    ((d.emit recorded).after u).module.WellFormed :=
  (d.updates_emit h.nodup hrecorded).wellFormed h hrecorded

end Definition

namespace Environment

/-- Looking up a callee leaves the open unit as it is, or declares a recorded prototype. -/
theorem after_callee? (env : Environment) (name : String) (u : OpenUnit) :
    (env.callee? name).after u = u ∨
      ∃ p, env.prototype? name = some p ∧ (env.callee? name).after u = p.emit.after u := by
  rw [Emit.after, callee?, EStateM.run_bind, EStateM.run_get]
  dsimp only
  cases u.lookup? name with
  | some signature => exact .inl rfl
  | none =>
      dsimp only
      cases env.prototype? name with
      | none => exact .inl rfl
      | some p =>
          refine .inr ⟨p, rfl, ?_⟩
          dsimp only
          rw [EStateM.run_bind, Emit.after]
          cases p.emit.run u <;> rfl

/-- Looking up a callee keeps the open unit well formed. -/
theorem wellFormed_callee? {env : Environment} {u : OpenUnit} (h : u.module.WellFormed)
    (name : String) : ((env.callee? name).after u).module.WellFormed := by
  obtain heq | ⟨p, -, heq⟩ := env.after_callee? name u
  · rwa [heq]
  · rw [heq]
    exact p.wellFormed_emit h

end Environment

end ScalarLang
