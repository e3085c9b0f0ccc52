import ScalarLang.Proofs.Session.Realization
import ScalarLang.Proofs.Session.Replacement

/-!
# Sessions answer as sessions on trees do

A session that realizes a session on trees answers to a statement in the same way,
listings aside, and realizes it again behind the statement
(`Session.Realizes.handle`). So do whole runs (`Session.Realizes.handleAll`).
-/

namespace ScalarLang

open Code

namespace Session.Realizes

variable {s : Session} {settings : Settings} {t : TreeSession}

theorem signature_eq (h : s.Realizes settings t) {q : Prototype} (hcheck : t.checkArity q = .ok ())
    {f : Function} (hf : f ∈ s.openUnit.module.functions) (hname : f.name = q.name)
    (hcalled : ∃ d ∈ t.opened, f.signature ∈ d.body.calls) :
    t.calls q.name = true ∧ f.signature = q.signature := by
  obtain ⟨d, hd, hmem⟩ := hcalled
  have hcalls : t.calls q.name = true := by
    refine List.any_eq_true.2 ⟨d, hd, List.any_eq_true.2 ⟨f.signature, hmem, ?_⟩⟩
    simpa [Function.signature] using hname
  have harity := h.declared f hf
  rw [hname] at harity
  refine ⟨hcalls, ?_⟩
  rw [Function.signature, Prototype.signature, hname,
    TreeSession.eq_of_checkArity hcheck (.inr hcalls) harity]

theorem withFunctions (h : s.Realizes settings t) {functions : List Function}
    (hopened : (⟨s.openUnit.module.name, functions⟩ : Module).Holds t.opened)
    (hdeclared : ∀ f ∈ functions, t.arity? f.name = some f.params.length)
    (target : Option String) (registers : Nat) :
    Session.Realizes
      { s with openUnit := ⟨⟨s.openUnit.module.name, functions⟩, target, registers⟩ } settings t :=
  { h with
    opened := hopened
    declared := hdeclared }

theorem arity?_of_calls (h : s.Realizes settings t) {q : Prototype}
    (hcheck : t.checkArity q = .ok ()) (hcalls : t.calls q.name = true) :
    t.arity? q.name = some q.params.length := by
  obtain ⟨d, hd, hmem⟩ := List.any_eq_true.1 hcalls
  obtain ⟨signature, hsignature, hname⟩ := List.any_eq_true.1 hmem
  obtain ⟨f, hf, rfl⟩ := List.mem_map.1 (h.opened.linked d hd signature hsignature)
  have hname : f.name = q.name := by simpa [Function.signature] using hname
  have harity := h.declared f hf
  rw [hname] at harity
  rw [harity, TreeSession.eq_of_checkArity hcheck (.inr hcalls) harity]

theorem arity?_of_replaces (h : s.Realizes settings t) {name : String} {own : Option Function}
    {functions : List Function} (hr : s.openUnit.Replaces name s.prototypes own functions)
    {f : Function} (hf : f ∈ functions) (hown : f ∉ own) :
    t.arity? f.name = some f.params.length := by
  rcases hr.cases_mem f hf with hf | hf | ⟨p, hp, rfl⟩
  · exact h.declared f (List.mem_filter.1 hf).1
  · exact absurd hf hown
  · rw [h.recorded] at hp
    exact congrArg (Option.map fun q => q.params.length) hp

/-- What a refused definition leaves makes no difference. -/
theorem of_refused (h : s.Realizes settings t) {d : Definition} {functions : List Function}
    (hleft : functions = s.openUnit.module.functions ∨ d.checkName s.openUnit = .ok () ∧
      s.openUnit.Replaces d.prototype.name s.prototypes
        (if s.openUnit.isReferenced d.prototype.name then some d.prototype.declaration else none)
        functions) (target : Option String) (registers : Nat) :
    Session.Realizes
      { s with openUnit := ⟨⟨s.openUnit.module.name, functions⟩, target, registers⟩ }
      settings t := by
  rcases hleft with rfl | ⟨hname, hreplaces⟩
  · exact h.withFunctions h.opened h.declared target registers
  · rw [h.checkName_eq] at hname
    obtain ⟨-, hdefines, harity⟩ := TreeSession.checkName_eq_ok_iff.1 hname
    rw [h.isReferenced_eq hdefines] at hreplaces
    refine h.withFunctions (h.opened.replace hreplaces ?_ ?_ none ?_ ?_ _) ?_ target registers
    · exact Definition.find?_eq_none_iff.1 (by simpa [TreeSession.defines] using hdefines)
    · intro f hf hname hcalled
      obtain ⟨hcalls, hsignature⟩ := h.signature_eq harity hf hname hcalled
      rw [if_pos hcalls]
      exact ⟨d.prototype.declaration, rfl, hsignature.symm⟩
    · intro g hg hbody
      split at hg
      · cases hg
        cases hbody
      · cases hg
    · intro d hd
      cases hd
    · intro f hf
      by_cases hown : f ∈ if t.calls d.prototype.name then some d.prototype.declaration else none
      · split at hown
        next hcalls =>
          cases hown
          exact h.arity?_of_calls harity hcalls
        · cases hown
      · exact h.arity?_of_replaces hreplaces hf hown

/-- Emitting a definition does what the check says. -/
theorem emit_definition (h : s.Realizes settings t) (d : Definition) :
    match t.check d with
    | .ok () => ∃ functions registers,
        s.emit (d.emit s.prototypes) = (.ok d.prototype.signature,
          { s with openUnit := ⟨⟨s.openUnit.module.name, functions⟩, none, registers⟩ }) ∧
        s.openUnit.Replaces d.prototype.name s.prototypes (some d.compiled) functions ∧
        (⟨s.openUnit.module.name, functions⟩ : Module).Holds (d :: t.opened)
    | .error error => ∃ s', s.emit (d.emit s.prototypes) = (.error error, s') ∧
        s'.Realizes settings t := by
  have hvalid : ∀ p ∈ s.prototypes, p.repeated? = none := by
    intro p hp
    rw [h.recorded] at hp
    exact (h.sound.recorded p hp).2
  have hemit := d.run_emit h.opened.nodup hvalid
  rw [h.check_eq] at hemit
  cases hcheck : t.check d with
  | error error =>
      rw [hcheck] at hemit
      obtain ⟨functions, target, registers, hrun, hleft⟩ := hemit
      refine ⟨_, ?_, h.of_refused (hleft.imp_left And.right) target registers⟩
      rw [EStateM.run] at hrun
      rw [Session.emit, hrun]
  | ok _ =>
      rw [hcheck] at hemit
      obtain ⟨functions, registers, hrun, hreplaces, hcalls⟩ := hemit
      obtain ⟨hname, -⟩ := TreeSession.check_eq_ok hcheck
      obtain ⟨-, hdefines, harity⟩ := TreeSession.checkName_eq_ok_iff.1 hname
      refine ⟨functions, registers, ?_, hreplaces, ?_⟩
      · rw [EStateM.run] at hrun
        rw [Session.emit, hrun]
      · refine h.opened.replace hreplaces ?_ ?_ (some d) ?_ ?_ _
        · exact Definition.find?_eq_none_iff.1 (by simpa [TreeSession.defines] using hdefines)
        · intro f hf hfname hcalled
          obtain ⟨-, hsignature⟩ := h.signature_eq harity hf hfname hcalled
          exact ⟨d.compiled, rfl, hsignature.symm⟩
        · rintro g hg -
          exact ⟨d, rfl, (Option.some.inj hg).symm⟩
        · rintro d' hd
          cases hd
          exact ⟨rfl, rfl, hcalls⟩

/-- Recording a prototype whose function takes the place of another one. -/
theorem declared_of_replaces (h : s.Realizes settings t) {q : Prototype} {g : Function}
    {functions : List Function} (hg : g.signature = q.signature)
    (hr : s.openUnit.Replaces q.name s.prototypes (some g) functions) :
    ∀ f ∈ functions, TreeSession.arity? { t with recorded := q :: t.recorded } f.name =
      some f.params.length := by
  intro f hf
  by_cases hname : f.name = q.name
  · have hgname : g.name = q.name := congrArg Signature.name hg
    have heq := List.inj_on_of_nodup_map hr.nodup hf (hr.mem_own g rfl) (hname.trans hgname.symm)
    rw [hname, TreeSession.arity?_cons_self, heq]
    exact congrArg (fun signature => some signature.arity) hg.symm
  · rw [TreeSession.arity?_cons_of_ne hname]
    refine h.arity?_of_replaces hr hf fun hmem => hname ?_
    rw [← Option.some.inj hmem]
    exact congrArg Signature.name hg

theorem handleDefinition (h : s.Realizes settings t) {d : Definition}
    (hnamed : d.prototype.name ≠ Prototype.anonymousName) :
    (s.handleDefinition d).1.bare = (t.handle (.definition d)).1 ∧
      (s.handleDefinition d).2.Realizes settings (t.handle (.definition d)).2 := by
  have hdefine : s.define d = record d.prototype (s.emit (d.emit s.prototypes)) := by
    rw [define_eq h.unbound, if_neg]
    simpa [Prototype.isAnonymous] using hnamed
  have hemit := h.emit_definition d
  rw [Session.handleDefinition, hdefine, TreeSession.handle]
  cases hcheck : t.check d with
  | error error =>
      rw [hcheck] at hemit
      obtain ⟨s', hs', hrealizes⟩ := hemit
      rw [hs']
      exact ⟨rfl, hrealizes⟩
  | ok _ =>
      rw [hcheck] at hemit
      obtain ⟨functions, registers, hs', hreplaces, hholds⟩ := hemit
      rw [hs']
      refine ⟨rfl, ?_⟩
      exact { h with
        recorded := congrArg (d.prototype :: ·) h.recorded
        opened := hholds
        declared := h.declared_of_replaces d.signature_compiled hreplaces
        sound := h.sound.accept_definition hnamed hcheck }

/-- Emitting a declaration does what the check says. -/
theorem emit_external (h : s.Realizes settings t) {q : Prototype}
    (hnamed : q.name ≠ Prototype.anonymousName) :
    match t.checkExternal q with
    | .ok () => ∃ u, s.emit q.emit = (.ok q.signature, { s with openUnit := u }) ∧
        ({ s with openUnit := u, prototypes := q :: s.prototypes } : Session).Realizes settings
          (t.accept (.external q))
    | .error error => s.emit q.emit = (.error error, s) := by
  have hemit := q.run_emit h.opened.nodup
  rw [h.checkExternal_eq] at hemit
  cases hcheck : t.checkExternal q with
  | error error =>
      rw [hcheck, EStateM.run] at hemit
      dsimp only at hemit ⊢
      rw [Session.emit, hemit]
  | ok _ =>
      rw [hcheck, EStateM.run] at hemit
      have hcount := (TreeSession.checkExternal_eq_ok_iff.1 hcheck).2
      have hsound := h.sound.accept_external hnamed hcheck
      have hrecorded := congrArg (q :: ·) h.recorded
      rcases hemit with ⟨hl, hrun⟩ | ⟨hfree, target, hrun⟩
      · refine ⟨s.openUnit, by rw [Session.emit, hrun], ?_⟩
        refine { h with recorded := hrecorded, declared := fun f hf => ?_, sound := hsound }
        by_cases hname : f.name = q.name
        · have hdeclared := h.declared f hf
          rw [hname, h.lookup?_eq_some hl] at hdeclared
          rw [hname]
          exact (TreeSession.arity?_cons_self q).trans hdeclared
        · exact (TreeSession.arity?_cons_of_ne hname).trans (h.declared f hf)
      · refine ⟨_, by rw [Session.emit, hrun], ?_⟩
        have hreplaces := q.replaces_declaration h.opened.nodup s.prototypes
        have hne : ∀ d ∈ t.opened, d.prototype.name ≠ q.name := by
          rcases hfree with hl | ⟨hbody, -⟩
          · exact (h.not_mem_of_lookup?_eq_none hl).1
          · rw [h.hasBody_eq] at hbody
            exact Definition.find?_eq_none_iff.1 (by simpa [TreeSession.defines] using hbody)
        have hopened := h.opened.replace hreplaces hne (fun f hf hname hcalled =>
          ⟨q.declaration, rfl, (h.signature_eq hcount hf hname hcalled).2.symm⟩) none
          (fun g hg hbody => by cases hg; cases hbody) (fun d hd => by cases hd)
          s.openUnit.module.name
        exact { h with
          recorded := hrecorded
          opened := hopened
          declared := h.declared_of_replaces q.signature_declaration hreplaces
          sound := hsound }

theorem handleExternal (h : s.Realizes settings t) {q : Prototype}
    (hnamed : q.name ≠ Prototype.anonymousName) :
    (s.handleExternal q).1.bare = (t.handle (.external q)).1 ∧
      (s.handleExternal q).2.Realizes settings (t.handle (.external q)).2 := by
  have hemit := h.emit_external hnamed
  rw [Session.handleExternal, declare, TreeSession.handle]
  cases hcheck : t.checkExternal q with
  | error error =>
      rw [hcheck] at hemit
      dsimp only at hemit
      rw [hemit]
      exact ⟨rfl, h⟩
  | ok _ =>
      rw [hcheck] at hemit
      obtain ⟨u, hemit, hrealizes⟩ := hemit
      rw [hemit]
      exact ⟨rfl, hrealizes⟩

/-- Running an expression at the top level evaluates it in the definitions of all units. -/
theorem run_topLevel (h : s.Realizes settings t) {d : Definition} {functions : List Function}
    (registers : Nat) (hchecked : d.Checked)
    (hholds : (⟨s.openUnit.module.name, functions⟩ : Module).Holds (d :: t.opened)) :
    let emitted := { s with openUnit := ⟨⟨s.openUnit.module.name, functions⟩, none, registers⟩ }
    (emitted.runTopLevel d.prototype.name).1 = t.run d := by
  intro emitted
  have hfind : Definition.find? (d :: t.opened) d.prototype.name = some d :=
    (Definition.find?_eq_some_iff hholds.distinct).2 ⟨List.mem_cons_self, rfl⟩
  have hload : Loaded ((d :: t.opened) :: t.sealed)
      (s.engine.load ⟨s.openUnit.module.name, functions⟩).units :=
    .cons (List.cons_ne_nil _ _) hholds h.loaded
  have hopened : ∀ d' ∈ d :: t.opened, d'.Checked :=
    List.forall_mem_cons.2 ⟨hchecked, h.sound.checked _ List.mem_cons_self⟩
  have hunits : ∀ unit ∈ (d :: t.opened) :: t.sealed, ∀ d' ∈ unit, Definition.Checked d' :=
    List.forall_mem_cons.2 ⟨hopened, fun unit hunit =>
      h.sound.checked unit (List.mem_cons_of_mem _ hunit)⟩
  have htarget := hholds.target?_eq d.prototype.name
  rw [hfind] at htarget
  have hrun := Engine.run_eq_toRun (s.engine.load ⟨s.openUnit.module.name, functions⟩)
    d.prototype.name
  simp only [Engine.units_load, List.head?_cons, Option.bind_some, htarget, Option.map_some,
    Engine.limit_load] at hrun
  refine hrun.trans ?_
  rw [Engine.evaluate_eq_evaluate hload hunits _ hholds hopened List.mem_cons_self,
    Engine.limit_load, h.limit]
  rfl

/-- Running an expression at the top level seals the open unit without it. -/
theorem seal_topLevel (h : s.Realizes settings t) {d : Definition} {functions : List Function}
    (registers : Nat) (hnamed : d.prototype.name = Prototype.anonymousName)
    (hholds : (⟨s.openUnit.module.name, functions⟩ : Module).Holds (d :: t.opened)) :
    let emitted := { s with openUnit := ⟨⟨s.openUnit.module.name, functions⟩, none, registers⟩ }
    (emitted.runTopLevel d.prototype.name).2.Realizes settings (t.accept (.topLevel d)) := by
  intro emitted
  have hcalled : ∀ d' ∈ t.opened, ∀ signature ∈ d'.body.calls,
      signature.name ≠ d.prototype.name := by
    rw [hnamed]
    exact h.sound.called
  have hunload : (emitted.runTopLevel d.prototype.name).2.engine.units =
      if t.opened.isEmpty then s.engine.units
      else Module.erase ⟨s.openUnit.module.name, functions⟩ d.prototype.name :: s.engine.units :=
    hholds.unloadFrom_eq hcalled s.engine.units
  have hname : emitted.settings.moduleName = settings.moduleName := by
    rw [← h.settings_eq]
  refine {
    settings_eq := h.settings_eq
    limit := h.limit
    unbound := h.unbound
    recorded := h.recorded
    sealedUnits := congrArg (· + 1) h.sealedUnits
    opened := ⟨List.nodup_nil, List.nodup_nil, nofun, nofun, nofun⟩
    declared := nofun
    loaded := ?_
    openedName := hname
    loadedName := ?_
    sound := h.sound.accept_topLevel d }
  · have hsealed : (t.accept (.topLevel d)).sealed = t.opened :: t.sealed := rfl
    rw [hunload, hsealed]
    cases hopened : t.opened with
    | nil => exact .bodiless h.loaded
    | cons d' opened =>
        have herase := hholds.erase hcalled
        rw [hopened] at herase
        exact .cons (List.cons_ne_nil _ _) herase h.loaded
  · intro m hm
    rw [hunload] at hm
    split at hm
    · exact h.loadedName m hm
    · rcases List.mem_cons.1 hm with rfl | hm
      · exact h.openedName
      · exact h.loadedName m hm

theorem handleTopLevel (h : s.Realizes settings t) {d : Definition}
    (hnamed : d.prototype.name = Prototype.anonymousName) :
    (s.handleTopLevel d).1.bare = (t.handle (.topLevel d)).1 ∧
      (s.handleTopLevel d).2.Realizes settings (t.handle (.topLevel d)).2 := by
  have hemit := h.emit_definition d
  rw [Session.handleTopLevel, emitTopLevel_eq h.unbound, TreeSession.handle]
  cases hcheck : t.check d with
  | error error =>
      rw [hcheck] at hemit
      obtain ⟨s', hs', hrealizes⟩ := hemit
      rw [hs']
      exact ⟨rfl, hrealizes⟩
  | ok _ =>
      rw [hcheck] at hemit
      obtain ⟨functions, registers, hs', -, hholds⟩ := hemit
      have hrun := h.run_topLevel registers ⟨_, (TreeSession.check_eq_ok hcheck).2⟩ hholds
      have hrealizes := h.seal_topLevel registers hnamed hholds
      rw [hs']
      revert hrun hrealizes
      dsimp only
      generalize Session.runTopLevel _ d.prototype.name = result
      obtain ⟨run, s'⟩ := result
      rintro rfl hrealizes
      dsimp only
      rw [Run.answer]
      cases (t.run d).result <;> exact ⟨rfl, hrealizes⟩

/-- The session answers to a statement as the session on trees does, and still realizes it. -/
theorem handle (h : s.Realizes settings t) {statement : Statement} (hnamed : statement.Named) :
    (s.handle statement).1.bare = (t.handle statement).1 ∧
      (s.handle statement).2.Realizes settings (t.handle statement).2 := by
  cases statement with
  | definition d => exact h.handleDefinition hnamed
  | external q => exact h.handleExternal hnamed
  | topLevel d => exact h.handleTopLevel hnamed
  | malformed error | endOfInput => exact ⟨rfl, h⟩

theorem handleAll (h : s.Realizes settings t) {statements : List Statement}
    (hnamed : ∀ statement ∈ statements, statement.Named) :
    (s.handleAll statements).1.map Answer.bare = (t.handleAll statements).1 ∧
      (s.handleAll statements).2.Realizes settings (t.handleAll statements).2 := by
  induction statements generalizing s t with
  | nil => exact ⟨rfl, h⟩
  | cons statement statements ih =>
      obtain ⟨hanswer, hrealizes⟩ := h.handle (hnamed statement List.mem_cons_self)
      obtain ⟨hanswers, hrealizes'⟩ := ih hrealizes fun later hlater =>
        hnamed later (List.mem_cons_of_mem statement hlater)
      rw [handleAll_cons, TreeSession.handleAll, List.map_cons, hanswer, hanswers]
      exact ⟨rfl, hrealizes'⟩

theorem new (settings : Settings) (limit : Nat) :
    (Session.new settings limit).Realizes settings (.new limit) where
  settings_eq := rfl
  limit := rfl
  unbound := rfl
  recorded := rfl
  sealedUnits := rfl
  opened := ⟨List.nodup_nil, List.nodup_nil, nofun, nofun, nofun⟩
  declared := nofun
  loaded := .nil
  openedName := rfl
  loadedName := nofun
  sound := by
    refine ⟨nofun, fun unit hunit d hd => ?_, nofun⟩
    rw [List.mem_singleton.1 hunit] at hd
    cases hd

end Session.Realizes

end ScalarLang
