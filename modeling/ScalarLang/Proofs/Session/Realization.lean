import ScalarLang.Proofs.Session.Bindings
import ScalarLang.Proofs.Session.Sound

/-!
# Sessions that realize sessions on trees

`Session.Realizes` ties the code of a session to the definitions of a session on
trees: every unit holds its definitions, and what the open unit declares is
recorded. A realizing session refuses the same statements for the same reasons
(`Session.Realizes.check_eq`).
-/

namespace ScalarLang

open Code

/-- The session holds the code of the session on trees. -/
structure Session.Realizes (s : Session) (settings : Settings) (t : TreeSession) : Prop where
  settings_eq : s.settings = settings
  limit : s.engine.limit = t.limit
  unbound : s.bindings = []
  recorded : s.prototypes = t.recorded
  sealedUnits : s.sealedUnits = t.sealed.length
  opened : s.openUnit.module.Holds t.opened
  declared : ∀ f ∈ s.openUnit.module.functions, t.arity? f.name = some f.params.length
  loaded : Loaded t.sealed s.engine.units
  openedName : s.openUnit.module.name = settings.moduleName
  loadedName : ∀ m ∈ s.engine.units, m.name = settings.moduleName
  sound : t.Sound

namespace Code.Module.Holds

variable {u : OpenUnit} {unit : List Definition}

theorem hasBody_eq (h : u.module.Holds unit) (name : String) :
    u.hasBody name = (Definition.find? unit name).isSome := by
  have htarget : u.hasBody name = (u.module.target? name).isSome := by
    rw [OpenUnit.hasBody, target?]
    cases u.module.find? name with
    | none => rfl
    | some f =>
        cases hblocks : f.blocks <;>
          simp [Function.isDeclaration, Function.entryBlock?, hblocks]
  rw [htarget, h.target?_eq, Option.isSome_map]

theorem isReferenced_eq (h : u.module.Holds unit) {name : String}
    (hne : ∀ d ∈ unit, d.prototype.name ≠ name) :
    u.isReferenced name = unit.any fun d => d.body.calls.any (·.name == name) := by
  have hcalls : ∀ d : Definition, d.compiled.calls name = d.body.calls.any (·.name == name) := by
    intro d
    rw [Bool.eq_iff_iff, d.calls_compiled, List.any_eq_true]
    simp
  rw [OpenUnit.isReferenced, references, Bool.eq_iff_iff, List.any_eq_true, List.any_eq_true]
  refine ⟨?_, ?_⟩
  · rintro ⟨f, hf, hfcalls⟩
    obtain ⟨-, hfcalls⟩ := Bool.and_eq_true_iff.1 hfcalls
    have hbody : f.isDeclaration = false := by
      cases hblocks : f.blocks with
      | nil => simp [Function.calls, hblocks] at hfcalls
      | cons b bs => simp [Function.isDeclaration, hblocks]
    obtain ⟨d, hd, rfl⟩ := h.bodies f hf hbody
    exact ⟨d, hd, by rwa [← hcalls d]⟩
  · rintro ⟨d, hd, hdcalls⟩
    refine ⟨d.compiled, h.compiled d hd, ?_⟩
    rw [hcalls d, hdcalls, Bool.and_true]
    simpa using hne d hd

end Code.Module.Holds

namespace Session.Realizes

variable {s : Session} {settings : Settings} {t : TreeSession}

theorem lookup?_eq_some (h : s.Realizes settings t) {name : String} {signature : Signature}
    (hl : s.openUnit.lookup? name = some signature) : t.arity? name = some signature.arity := by
  obtain ⟨f, hf, rfl⟩ := Option.map_eq_some_iff.1 hl
  have hname : f.name = name := by simpa using List.find?_some hf
  rw [← hname]
  exact h.declared f (List.mem_of_find?_eq_some hf)

theorem not_mem_of_lookup?_eq_none (h : s.Realizes settings t) {name : String}
    (hl : s.openUnit.lookup? name = none) :
    (∀ d ∈ t.opened, d.prototype.name ≠ name) ∧ t.calls name = false := by
  have hfind : ∀ f ∈ s.openUnit.module.functions, f.name ≠ name := by
    simpa [OpenUnit.lookup?, Module.find?] using hl
  refine ⟨fun d hd => hfind d.compiled (h.opened.compiled d hd), ?_⟩
  rw [TreeSession.calls, List.any_eq_false]
  intro d hd hcalls
  obtain ⟨signature, hmem, hname⟩ := List.any_eq_true.1 hcalls
  obtain ⟨f, hf, rfl⟩ := List.mem_map.1 (h.opened.linked d hd signature hmem)
  exact hfind f hf (by simpa [Function.signature] using hname)

theorem hasBody_eq (h : s.Realizes settings t) (name : String) :
    s.openUnit.hasBody name = t.defines name := h.opened.hasBody_eq name

theorem isReferenced_eq (h : s.Realizes settings t) {name : String} (hd : t.defines name = false) :
    s.openUnit.isReferenced name = t.calls name := by
  refine h.opened.isReferenced_eq (Definition.find?_eq_none_iff.1 ?_)
  simpa [TreeSession.defines] using hd

theorem arityIn_eq (h : s.Realizes settings t) :
    arityIn s.openUnit.signatures s.prototypes = t.arity? := by
  funext name
  rw [arityIn, ← OpenUnit.lookup?_eq]
  cases hl : s.openUnit.lookup? name with
  | some signature => exact (h.lookup?_eq_some hl).symm
  | none =>
      rw [h.recorded]
      rfl

theorem checkArity_of_lookup?_eq_none (h : s.Realizes settings t) {q : Prototype}
    (hl : s.openUnit.lookup? q.name = none) :
    t.defines q.name = false ∧ t.checkArity q = .ok () := by
  obtain ⟨hnew, hcalls⟩ := h.not_mem_of_lookup?_eq_none hl
  have hdefines : t.defines q.name = false := by
    rw [TreeSession.defines, Definition.find?_eq_none_iff.2 hnew]
    rfl
  refine ⟨hdefines, ?_⟩
  rw [TreeSession.checkArity, hdefines, hcalls]
  cases t.arity? q.name <;> simp

/-- A declaration is refused for the same reason. -/
theorem checkExternal_eq (h : s.Realizes settings t) (q : Prototype) :
    q.checkName s.openUnit = t.checkExternal q := by
  rw [Prototype.checkName, TreeSession.checkExternal]
  cases q.repeated? with
  | some param => rfl
  | none =>
  cases hl : s.openUnit.lookup? q.name with
  | none => exact (h.checkArity_of_lookup?_eq_none hl).2.symm
  | some existing =>
      rw [TreeSession.checkArity, h.lookup?_eq_some hl, h.hasBody_eq]
      cases hdefines : t.defines q.name with
      | true => rfl
      | false =>
          rw [h.isReferenced_eq hdefines]

/-- A definition is refused for the same reason. -/
theorem checkName_eq (h : s.Realizes settings t) (d : Definition) :
    d.checkName s.openUnit = t.checkName d.prototype := by
  rw [Definition.checkName, TreeSession.checkName]
  cases d.prototype.repeated? with
  | some param => rfl
  | none =>
  cases hl : s.openUnit.lookup? d.prototype.name with
  | none =>
      obtain ⟨hdefines, harity⟩ := h.checkArity_of_lookup?_eq_none hl
      rw [hdefines, harity]
      rfl
  | some existing =>
      rw [TreeSession.checkArity, h.lookup?_eq_some hl, h.hasBody_eq]
      cases hdefines : t.defines d.prototype.name with
      | true => rfl
      | false =>
          rw [h.isReferenced_eq hdefines]
          rfl

theorem check_eq (h : s.Realizes settings t) (d : Definition) :
    d.check s.openUnit s.prototypes = t.check d := by
  rw [Definition.check, TreeSession.check, h.checkName_eq, h.arityIn_eq]

end Session.Realizes

end ScalarLang
