import ScalarLang.Proofs.Session.WellFormed

/-!
# What emission keeps of the open unit

A body that the open unit has got stays as it is until the unit is sealed, and a
function that another one calls stays with its arity (`OpenUnit.Keeps`). So it is
whatever is emitted, also where a body fails halfway and is discarded again: what is
replaced has no body, and if it is called it is replaced by one of its signature
(`OpenUnit.Updates.keeps`). A name that has a body is refused before anything changes
(`Session.Refuses`).
-/

namespace ScalarLang

open Code

/-- The second unit has every body of the first one, and every function that another one calls in
the first has its signature in the second. -/
structure OpenUnit.Keeps (u u' : OpenUnit) : Prop where
  bodies : ∀ f ∈ u.module.functions, f.isDeclaration = false → u'.module.find? f.name = some f
  called : ∀ f ∈ u.module.functions, u.isReferenced f.name = true →
    u'.lookup? f.name = some f.signature

namespace OpenUnit

variable {u : OpenUnit} {name : String}

theorem lookup?_of_find? {f : Function} (h : u.module.find? f.name = some f) :
    u.lookup? f.name = some f.signature := by
  rw [lookup?, h, Option.map_some]

theorem Keeps.of_module_eq {u' : OpenUnit} (h : (u.module.functions.map Function.name).Nodup)
    (heq : u'.module = u.module) : u.Keeps u' := by
  have hfind : ∀ f ∈ u.module.functions, u'.module.find? f.name = some f := by
    rw [heq]
    exact fun f => Module.find?_eq_some_of_mem h
  exact ⟨fun f hf _ => hfind f hf, fun f hf _ => lookup?_of_find? (hfind f hf)⟩

namespace Keeps

variable {u' u'' : OpenUnit}

/-- Calls stay, because they stand in bodies. -/
theorem isReferenced (h : u.Keeps u') (hreferenced : u.isReferenced name = true) :
    u'.isReferenced name = true := by
  rw [isReferenced_eq, List.any_eq_true] at hreferenced ⊢
  obtain ⟨f, hf, hcalls⟩ := hreferenced
  have hbody : f.isDeclaration = false := by
    cases hdeclared : f.isDeclaration with
    | false => rfl
    | true =>
        have hblocks : f.blocks = [] := List.isEmpty_iff.1 hdeclared
        rw [Function.calls, hblocks] at hcalls
        cases hcalls
  obtain ⟨hmem, hname⟩ := List.mem_filter.1 hf
  have hkept := List.mem_of_find?_eq_some (h.bodies f hmem hbody)
  exact ⟨f, List.mem_filter.2 ⟨hkept, hname⟩, hcalls⟩

theorem trans (h : u.Keeps u') (h' : u'.Keeps u'') : u.Keeps u'' where
  bodies f hf hbody := h'.bodies f (List.mem_of_find?_eq_some (h.bodies f hf hbody)) hbody
  called f hf hreferenced := by
    obtain ⟨g, hfind, hsignature⟩ := Option.map_eq_some_iff.1 (h.called f hf hreferenced)
    have hname : g.name = f.name := congrArg Signature.name hsignature
    have hg := h'.called g (List.mem_of_find?_eq_some hfind) (hname ▸ h.isReferenced hreferenced)
    rwa [hname, hsignature] at hg

end Keeps

/-- An update keeps the open unit: it replaces nothing that has a body, and what is called by others
it replaces by a function of the same signature. -/
theorem Updates.keeps {u' : OpenUnit} {recorded : List Prototype} (hu : u.Updates name recorded u')
    (hnodup : (u.module.functions.map Function.name).Nodup) : u.Keeps u' := by
  cases hu with
  | kept hmodule => exact .of_module_eq hnodup hmodule
  | replaced hr hbody hcalled _ =>
  have hother : ∀ f ∈ u.module.functions, f.name ≠ name → u'.module.find? f.name = some f :=
    fun f hf hne => Module.find?_eq_some_of_mem hr.nodup
      (hr.mem_others f (List.mem_filter.2 ⟨hf, by simpa using hne⟩))
  refine ⟨fun f hf hdefined => hother f hf fun heq => ?_, fun f hf hreferenced => ?_⟩
  · have hfind := Module.find?_eq_some_of_mem hnodup hf
    rw [← heq, hasBody, hfind, Option.any_some, hdefined] at hbody
    cases hbody
  · by_cases hname : f.name = name
    · obtain ⟨g, hg, heq⟩ := hcalled (hname ▸ hreferenced) f hf hname
      have hsame : g.name = f.name := congrArg Signature.name heq
      rw [← heq, ← hsame]
      exact lookup?_of_find? (Module.find?_eq_some_of_mem hr.nodup (hr.mem_own g hg))
    · exact lookup?_of_find? (hother f hf hname)

end OpenUnit

/-- Looking up a callee keeps the open unit. -/
theorem Environment.keeps_callee? (env : Environment) {u : OpenUnit}
    (hnodup : (u.module.functions.map Function.name).Nodup) (name : String) :
    u.Keeps ((env.callee? name).after u) := by
  obtain heq | ⟨p, -, heq⟩ := env.after_callee? name u
  · exact .of_module_eq hnodup (congrArg OpenUnit.module heq)
  · rw [heq]
    exact (p.updates_emit hnodup).keeps hnodup

namespace Session

/-- The request emits into the open unit and does not seal it. -/
def Request.isEmission : Request → Bool
  | .define _ | .declare _ | .emitTopLevel _ | .callee _ => true
  | .evaluate _ | .runTopLevel _ => false

/-- Recording a prototype does not touch the open unit. -/
theorem openUnit_record (p : Prototype) (result : Except EmissionError Signature × Session) :
    (record p result).2.openUnit = result.2.openUnit := by
  obtain ⟨_ | signature, s⟩ := result <;> rfl

theorem openUnit_emit {α : Type} (s : Session) (x : Emit α) :
    (s.emit x).2.openUnit = x.after s.openUnit := by
  rw [emit_snd]

/-- Every request that does not seal the open unit keeps it. -/
theorem WellFormed.keeps_perform {s : Session} (h : s.WellFormed) {request : Request}
    (hrequest : request.isEmission = true) :
    s.openUnit.Keeps (s.perform request).openUnit := by
  have hemit (d : Definition) : s.openUnit.Keeps (s.emitTopLevel d).2.openUnit := by
    rw [emitTopLevel_eq h.unbound, openUnit_emit]
    exact (d.updates_emit h.opened.nodup h.recorded).keeps h.opened.nodup
  cases request with
  | define d =>
      rw [Session.perform, Session.define]
      split
      · exact hemit d
      · rw [openUnit_record]
        exact hemit d
  | declare p =>
      rw [Session.perform, Session.declare, openUnit_record, openUnit_emit]
      exact (p.updates_emit h.opened.nodup).keeps h.opened.nodup
  | emitTopLevel d => exact hemit d
  | callee name =>
      rw [Session.perform, Session.callee?, openUnit_emit]
      exact s.environment.keeps_callee? h.opened.nodup name
  | evaluate d | runTopLevel symbol => cases hrequest

theorem WellFormed.keeps_performAll {s : Session} (h : s.WellFormed) {requests : List Request}
    (hrequests : ∀ request ∈ requests, request.isEmission = true) :
    s.openUnit.Keeps (s.performAll requests).openUnit := by
  induction requests generalizing s with
  | nil => exact .of_module_eq h.opened.nodup rfl
  | cons request requests ih =>
      obtain ⟨hrequest, hlater⟩ := List.forall_mem_cons.1 hrequests
      exact (h.keeps_perform hrequest).trans (ih (h.perform request) hlater)

/-- A request for the prototype fails because its name is taken, or with the first of its parameters
that stands earlier too, and changes nothing. -/
structure Refuses (s : Session) (p : Prototype)
    (result : Except EmissionError Signature × Session) : Prop where
  session : result.2 = s
  redefinition : p.params.Nodup → result.1 = .error (.redefinition p.name p.span)
  duplicate : ¬ p.params.Nodup → ∃ before param after, p.params = before ++ param :: after ∧
    before.Nodup ∧ param ∈ before ∧
      result.1 = .error (.duplicateParameter p.name param p.span)

namespace Refuses

variable {s : Session} {p : Prototype} {result : Except EmissionError Signature × Session}

theorem of_eq (h : result = match p.repeated? with
    | some param => (.error (.duplicateParameter p.name param p.span), s)
    | none => (.error (.redefinition p.name p.span), s)) : s.Refuses p result := by
  subst h
  cases hrepeated : p.repeated? with
  | none =>
      refine ⟨rfl, fun _ => rfl, fun hrepeats => ?_⟩
      exact absurd (Prototype.repeated?_eq_none_iff.1 hrepeated) hrepeats
  | some param =>
      refine ⟨rfl, fun hnodup => ?_, fun _ => ?_⟩
      · rw [Prototype.repeated?_eq_none_iff.2 hnodup] at hrepeated
        cases hrepeated
      · obtain ⟨before, after, hparams, hbefore, hmem⟩ := p.exists_split_of_repeated? hrepeated
        exact ⟨before, param, after, hparams, hbefore, hmem, rfl⟩

/-- A refusal is not recorded. -/
theorem record (h : s.Refuses p result) (q : Prototype) : s.Refuses p (record q result) := by
  have herror : ∃ error, result.1 = .error error := by
    by_cases hnodup : p.params.Nodup
    · exact ⟨_, h.redefinition hnodup⟩
    · obtain ⟨_, _, _, -, -, -, heq⟩ := h.duplicate hnodup
      exact ⟨_, heq⟩
  obtain ⟨_ | signature, s'⟩ := result
  · exact h
  · cases herror.choose_spec

end Refuses

theorem emit_eq_error {α : Type} {s : Session} {x : Emit α} {error : EmissionError}
    (h : x.run s.openUnit = .error error s.openUnit) : s.emit x = (.error error, s) := by
  rw [emit_eq, h]

namespace WellFormed

variable {s : Session}

/-- A definition of a name that has a body is refused. -/
theorem refuses_emitTopLevel (h : s.WellFormed) {d : Definition}
    (hbody : s.openUnit.hasBody d.prototype.name = true) :
    s.Refuses d.prototype (s.emitTopLevel d) := by
  have hdeclare := d.run_declare h.opened.nodup
  obtain ⟨f, hfind, -⟩ := (Option.any_eq_true _ _).1 hbody
  refine .of_eq ?_
  rw [Definition.checkName, OpenUnit.lookup?, hfind, hbody] at hdeclare
  rw [Session.emitTopLevel]
  cases hrepeated : d.prototype.repeated? with
  | some param =>
      rw [hrepeated] at hdeclare
      rw [emit_eq_error hdeclare]
  | none =>
      rw [hrepeated] at hdeclare
      rw [emit_eq_error hdeclare]

theorem refuses_define (h : s.WellFormed) {d : Definition}
    (hbody : s.openUnit.hasBody d.prototype.name = true) :
    s.Refuses d.prototype (s.define d) := by
  rw [Session.define]
  split
  · exact h.refuses_emitTopLevel hbody
  · exact (h.refuses_emitTopLevel hbody).record d.prototype

/-- A declaration of a name that has a body is refused if it has another number of parameters. -/
theorem refuses_declare (h : s.WellFormed) {p : Prototype}
    (hbody : s.openUnit.hasBody p.name = true)
    (harity : ∀ signature ∈ s.openUnit.lookup? p.name, signature.arity ≠ p.params.length) :
    s.Refuses p (s.declare p) := by
  have hemit := p.run_emit h.opened.nodup
  obtain ⟨f, hfind, -⟩ := (Option.any_eq_true _ _).1 hbody
  rw [OpenUnit.lookup?, hfind] at harity
  refine Refuses.record (.of_eq ?_) p
  rw [Prototype.checkName, OpenUnit.lookup?, hfind, hbody] at hemit
  cases hrepeated : p.repeated? with
  | some param =>
      rw [hrepeated] at hemit
      exact emit_eq_error hemit
  | none =>
      have hne : f.signature.arity ≠ p.params.length := harity f.signature rfl
      simp only [hrepeated, Option.map_some, hne, if_false, if_true] at hemit
      exact emit_eq_error hemit

end WellFormed

/-- Behind any requests, one more request leaves every body of the open unit as it is, and every
function that another one calls with its arity, and so do more of them until one seals the unit. A
name with a body is refused, and nothing changes then. -/
theorem openUnit_kept (settings : Settings) (u : OpenUnit) (engine : Engine)
    (requests : List Request) :
    let s := (attach settings u engine).performAll requests
    (∀ request : Request, request.isEmission = true →
      s.openUnit.Keeps (s.perform request).openUnit) ∧
    (∀ later : List Request, (∀ request ∈ later, request.isEmission = true) →
      s.openUnit.Keeps (s.performAll later).openUnit) ∧
    (∀ d : Definition, s.openUnit.hasBody d.prototype.name = true →
      s.Refuses d.prototype (s.define d) ∧ s.Refuses d.prototype (s.emitTopLevel d)) ∧
    ∀ p : Prototype, s.openUnit.hasBody p.name = true →
      (∀ signature ∈ s.openUnit.lookup? p.name, signature.arity ≠ p.params.length) →
        s.Refuses p (s.declare p) := by
  intro s
  have h : s.WellFormed := (WellFormed.attach settings u engine).performAll requests
  refine ⟨fun request => h.keeps_perform, fun later => h.keeps_performAll, fun d hbody => ?_,
    fun p => h.refuses_declare⟩
  exact ⟨h.refuses_define hbody, h.refuses_emitTopLevel hbody⟩

/-- Behind `extern g(x)` and `def h(x) g(x)`, a `def g(x) y` that fails leaves both, and `h` is
refused as a definition and with other parameters. -/
theorem openUnit_kept_caller :
    let h : Definition := ⟨⟨"h", ["x"], ⟨4, 8⟩⟩, .call "g" [.var "x" ⟨11, 12⟩] ⟨9, 13⟩⟩
    let failing : Definition := ⟨⟨"g", ["x"], ⟨4, 8⟩⟩, .var "y" ⟨9, 10⟩⟩
    let s := (attach .standard (.new "") (.new 3)).performAll
      [.declare ⟨"g", ["x"], ⟨7, 11⟩⟩, .define h]
    (s.define failing).1 = .error (.unknownVariable "y" ⟨9, 10⟩) ∧
      (s.define failing).2.openUnit.module = s.openUnit.module ∧
      s.Refuses h.prototype (s.define h) ∧
      s.Refuses ⟨"h", ["x", "y", "x"], ⟨7, 14⟩⟩ (s.declare ⟨"h", ["x", "y", "x"], ⟨7, 14⟩⟩) := by
  intro h failing s
  have hbody : s.openUnit.hasBody "h" = true := by decide
  have hall := openUnit_kept .standard (.new "") (.new 3)
    [.declare ⟨"g", ["x"], ⟨7, 11⟩⟩, .define h]
  refine ⟨by decide, by decide, (hall.2.2.1 h hbody).1, ?_⟩
  exact hall.2.2.2 ⟨"h", ["x", "y", "x"], ⟨7, 14⟩⟩ hbody (by decide)

end Session

end ScalarLang
