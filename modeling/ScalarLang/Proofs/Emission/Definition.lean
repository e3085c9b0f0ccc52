import ScalarLang.Proofs.Emission.Compiled
import ScalarLang.Proofs.Emission.Declaration

/-!
# Emission of definitions is checking and compiling

Emitting a definition fails with the first mistake that `Definition.check` finds
and otherwise puts `Definition.compiled` into the open unit. Either way the other
functions of the unit stay, and recorded prototypes of callees may be declared
behind them (`Definition.run_emit`). What a failure leaves of the function
itself is at most a declaration, and only if another function calls it.
-/

namespace ScalarLang

open Code

namespace Definition

/-- Emits the body of a declared function, given the recorded prototypes. Its parameters are bound
for the body alone. -/
def emitBody (d : Definition) (prototypes : List Prototype) : Emit Unit := do
  let bindings ← Emit.openBody d.prototype.name d.prototype.params
  d.fillBody ⟨bindings.reverse, prototypes⟩

/-- Emits a definition into the open unit, given the recorded prototypes. -/
def emit (d : Definition) (prototypes : List Prototype) : Emit Signature := do
  let signature ← d.declare
  tryCatch (d.emitBody prototypes) fun error => do
    modify (·.discard d.prototype.name)
    throw error
  return signature

/-- What a definition is refused for before its body is looked at. -/
def checkName (d : Definition) (u : OpenUnit) : Except EmissionError Unit :=
  match d.prototype.repeated? with
  | some param => .error (.duplicateParameter d.prototype.name param d.prototype.span)
  | none =>
    match u.lookup? d.prototype.name with
    | none => .ok ()
    | some existing =>
      if u.hasBody d.prototype.name then .error (.redefinition d.prototype.name d.prototype.span)
      else if existing.arity = d.prototype.params.length then .ok ()
      else if u.isReferenced d.prototype.name then
        .error (.declarationInUse d.prototype.name existing.arity d.prototype.span)
      else .ok ()

/-- A definition that is not refused gets a declaration among the other functions. -/
theorem run_declare {d : Definition} {u : OpenUnit}
    (hnodup : (u.module.functions.map Function.name).Nodup) :
    match d.checkName u with
    | .error error => d.declare.run u = .error error u
    | .ok () => ∃ before after params target,
        before ++ after = u.others d.prototype.name ∧
        d.declare.run u = .ok d.prototype.signature
          ⟨⟨u.module.name, before ++ ⟨d.prototype.name, params, []⟩ :: after⟩, target,
            u.registers⟩ := by
  rw [checkName, declare]
  cases hrepeated : d.prototype.repeated? with
  | some param => simp [Prototype.check, hrepeated]
  | none =>
  simp only [Prototype.check, hrepeated, pure_bind, EStateM.run_bind, EStateM.run_get]
  cases hl : u.lookup? d.prototype.name with
  | none =>
      have hfind : u.module.find? d.prototype.name = none := by
        simpa [OpenUnit.lookup?] using hl
      refine ⟨u.module.functions, [], d.prototype.params, u.target, ?_, ?_⟩
      · rw [List.append_nil, OpenUnit.others_eq_self hl]
      · exact Emit.run_declare hfind _
  | some existing =>
      obtain ⟨f, hfind, rfl⟩ := Option.map_eq_some_iff.1 hl
      obtain ⟨before, after, hsplit, hname, hothers, hne⟩ := OpenUnit.exists_split hnodup hfind
      have hbody : u.hasBody d.prototype.name = !f.isDeclaration := by
        rw [OpenUnit.hasBody, hfind, Option.any_some]
      cases hblocks : f.isDeclaration with
      | false => simp [hbody, hblocks]
      | true =>
      simp only [hbody, hblocks, Bool.not_true, Bool.false_eq_true, if_false]
      by_cases harity : f.signature.arity = d.prototype.params.length
      · simp only [harity, if_true, EStateM.run_pure]
        obtain ⟨name, params, blocks⟩ := f
        obtain rfl : blocks = [] := List.isEmpty_iff.1 hblocks
        subst hname
        refine ⟨before, after, params, u.target, hothers, ?_⟩
        rw [← hsplit]
        simp [Prototype.signature, ← harity, Function.signature]
      · simp only [harity, if_false]
        have hredeclare := Prototype.run_redeclare f.signature hnodup hfind
        cases hreferenced : u.isReferenced d.prototype.name with
        | true => simpa [hreferenced] using hredeclare
        | false =>
            rw [hreferenced, if_neg Bool.false_ne_true] at hredeclare
            obtain ⟨target, hrun⟩ := hredeclare
            exact ⟨u.others d.prototype.name, [], d.prototype.params, target, by simp, hrun⟩

/-- The draft that a definition starts among other functions. -/
def draft (d : Definition) (unitName : String) (before after : List Function) : Draft :=
  ⟨unitName, before, d.prototype.name, d.prototype.params, [], after, 0⟩

theorem run_openBody {d : Definition} {unitName : String} {before after : List Function}
    (params : List String) (target : Option String) (registers : Nat)
    (hne : ∀ g ∈ before ++ after, g.name ≠ d.prototype.name) :
    (Emit.openBody d.prototype.name d.prototype.params).run
        ⟨⟨unitName, before ++ ⟨d.prototype.name, params, []⟩ :: after⟩, target, registers⟩ =
      .ok (d.prototype.params.map fun param => (param, .argument param))
        (d.draft unitName before after).openUnit := by
  have hbefore : ∀ g ∈ before, g.name ≠ d.prototype.name :=
    fun g hg => hne g (List.mem_append_left _ hg)
  have hfind : (⟨unitName, before ++ ⟨d.prototype.name, params, []⟩ :: after⟩ : Module).find?
      d.prototype.name = some ⟨d.prototype.name, params, []⟩ :=
    Module.find?_append_cons unitName hbefore rfl
  have hmodify : Module.modifyFirst d.prototype.name (Function.openEntry d.prototype.params)
      (before ++ ⟨d.prototype.name, params, []⟩ :: after) =
      before ++ (d.draft unitName before after).function :: after :=
    Module.modifyFirst_append_cons _ hbefore rfl
  simp only [Emit.openBody, EStateM.run_bind, EStateM.run_get, hfind, Option.isNone_some,
    Bool.false_eq_true, if_false, EStateM.run_set, EStateM.run_pure, OpenUnit.change,
    Module.modify, hmodify]
  rfl

end Definition

namespace Draft

/-- Names are distinct if those of the other functions are, and none of them is that of the function
whose body is open. -/
theorem names_nodup_iff {t : Draft} : t.names.Nodup ↔
    ((t.before ++ t.after).map Function.name).Nodup ∧
      ∀ g ∈ t.before ++ t.after, g.name ≠ t.name := by
  have hnames : t.names = t.before.map Function.name ++ t.name :: t.after.map Function.name := by
    simp [names, signatures_openUnit, Function.comp_def, Function.signature]
  rw [hnames, List.nodup_middle, List.nodup_cons, ← List.map_append, and_comm]
  refine and_congr_right fun _ => ⟨fun h g hg heq => ?_, fun h hmem => ?_⟩
  · exact h (heq ▸ List.mem_map_of_mem hg)
  · obtain ⟨g, hg, heq⟩ := List.mem_map.1 hmem
    exact h g hg heq

/-- The function with its body closed. -/
def closed (t : Draft) (value : Operand) : Function :=
  ⟨t.name, t.params, [⟨"entry", t.code, some value⟩]⟩

/-- Closing a body validates it and folds its constants. -/
theorem run_closeBody {t : Draft} (h : t.names.Nodup) (value : Operand) :
    (Emit.closeBody t.name value).run t.openUnit =
      if (t.closed value).violations ⟨t.unitName, t.before ++ t.closed value :: t.after⟩ = [] then
        .ok () ⟨⟨t.unitName, t.before ++ (t.closed value).fold :: t.after⟩, none, t.registers⟩
      else
        .error (.failure (.invalid t.name
          ((t.closed value).violations ⟨t.unitName, t.before ++ t.closed value :: t.after⟩)))
          ⟨⟨t.unitName, t.before ++ t.closed value :: t.after⟩, none, t.registers⟩ := by
  have hterminate : t.function.terminate value = t.closed value := rfl
  have hmodify : Module.modifyFirst t.name (Function.terminate value)
      (t.before ++ t.function :: t.after) = t.before ++ t.closed value :: t.after :=
    Module.modifyFirst_append_cons _ (before_ne h) rfl
  have hfold : Module.modifyFirst t.name Function.fold (t.before ++ t.closed value :: t.after) =
      t.before ++ (t.closed value).fold :: t.after :=
    Module.modifyFirst_append_cons _ (before_ne h) rfl
  have hfind := find?_openUnit h
  have hbody : t.function.isDeclaration = false := rfl
  simp only [openUnit] at hfind
  simp only [Emit.closeBody, EStateM.run_bind, EStateM.run_modify, EStateM.run_get, openUnit, hfind,
    hbody, Bool.false_eq_true, if_false, EStateM.run_set, OpenUnit.change, Module.modify, hmodify,
    hfold, hterminate]
  by_cases hviolations : (t.closed value).violations
      ⟨t.unitName, t.before ++ t.closed value :: t.after⟩ = []
  · rw [if_neg (not_not.2 hviolations), if_pos hviolations]
    rfl
  · rw [if_pos hviolations, if_neg hviolations]
    rfl

theorem provides_closed {t : Draft} (h : t.names.Nodup) (value : Operand) {signature : Signature}
    (hmem : signature ∈ t.openUnit.signatures) :
    (⟨t.unitName, t.before ++ t.closed value :: t.after⟩ : Module).Provides signature := by
  have hsame : (t.before ++ t.closed value :: t.after).map Function.signature =
      t.openUnit.signatures := by
    simp [signatures_openUnit, closed, Function.signature]
  refine Module.provides_of_mem ?_ (hsame ▸ hmem)
  have hnames := congrArg (List.map Signature.name) hsame
  rw [List.map_map] at hnames
  exact (congrArg List.Nodup hnames).mpr h

end Draft

/-- The parameters are bound to their arguments. -/
theorem lookup_bindings (params : List String) (name : String) :
    ((params.map fun param => (param, Operand.argument param)).reverse).lookup name =
      if name ∈ params then some (.argument name) else none := by
  have hmem : name ∈ params ↔ name ∈ params.reverse := List.mem_reverse.symm
  simp only [← List.map_reverse, hmem]
  induction params.reverse with
  | nil => rfl
  | cons param params ih =>
      rw [List.map_cons, List.lookup_cons, ih]
      by_cases heq : name = param
      · simp [heq]
      · simp [heq, beq_false_of_ne heq]

/-- Only names can be wrong with a complete body in a unit that has its callees. -/
theorem Definition.violations_closed {d : Definition} {t : Draft} {value : Operand}
    (h : t.names.Nodup) (hclosed : t.closed value = d.written)
    (hparams : d.prototype.repeated? = none)
    (hcalls : ∀ signature ∈ d.body.calls, signature ∈ t.openUnit.signatures) :
    d.written.violations ⟨t.unitName, t.before ++ d.written :: t.after⟩ = d.clashes := by
  refine violations_written hparams fun signature hsignature => ?_
  rw [← hclosed]
  exact Draft.provides_closed h value (hcalls signature hsignature)

theorem Definition.run_closeBody {d : Definition} {t : Draft} {value : Operand}
    (h : t.names.Nodup) (hclosed : t.closed value = d.written)
    (hparams : d.prototype.repeated? = none)
    (hcalls : ∀ signature ∈ d.body.calls, signature ∈ t.openUnit.signatures) :
    (Emit.closeBody d.prototype.name value).run t.openUnit =
      if d.clashes = [] then
        .ok () ⟨⟨t.unitName, t.before ++ d.compiled :: t.after⟩, none, t.registers⟩
      else
        .error (.failure (.invalid d.prototype.name d.clashes))
          ⟨⟨t.unitName, t.before ++ d.written :: t.after⟩, none, t.registers⟩ := by
  have hname : t.name = d.prototype.name := congrArg Function.name hclosed
  rw [← hname, Draft.run_closeBody h, hclosed, violations_closed h hclosed hparams hcalls]
  rfl

/-- Emitting a body is checking and compiling it. -/
theorem Definition.emits_emitBody {d : Definition} {recorded : List Prototype} {unitName : String}
    {before after : List Function} (params : List String) (target : Option String)
    (registers : Nat) (hnodup : (d.draft unitName before after).names.Nodup)
    (hparams : d.prototype.repeated? = none) (hvalid : ∀ p ∈ recorded, p.repeated? = none) :
    ∃ declared, (d.draft unitName before after).Adds recorded declared ∧
      match d.checkBody (arityIn (d.draft unitName before after).openUnit.signatures recorded) with
      | .ok () => ∃ latest, (d.emitBody recorded).run
            ⟨⟨unitName, before ++ ⟨d.prototype.name, params, []⟩ :: after⟩, target, registers⟩ =
          .ok () ⟨⟨unitName, before ++ d.compiled ::
            (after ++ declared.map Prototype.declaration)⟩, none, latest⟩ ∧
          ∀ signature ∈ d.body.calls, signature ∈
            ((d.draft unitName before after).grow [] 0 declared).openUnit.signatures
      | .error error => ∃ f target' latest, f.name = d.prototype.name ∧
          f.params = d.prototype.params ∧ (d.emitBody recorded).run
            ⟨⟨unitName, before ++ ⟨d.prototype.name, params, []⟩ :: after⟩, target, registers⟩ =
          .error error ⟨⟨unitName, before ++ f ::
            (after ++ declared.map Prototype.declaration)⟩, target', latest⟩ := by
  have hne : ∀ g ∈ before ++ after, g.name ≠ d.prototype.name :=
    (Draft.names_nodup_iff.1 hnodup).2
  obtain ⟨declared, hadds, hbody⟩ := d.body.emits_emit
    ⟨(d.prototype.params.map fun param => (param, Operand.argument param)).reverse, recorded⟩
    hnodup hvalid (lookup_bindings _)
  refine ⟨declared, hadds, ?_⟩
  simp only [checkBody, emitBody, fillBody, EStateM.run_bind,
    run_openBody params target registers hne]
  cases hcheck : d.body.check
      (arityIn (d.draft unitName before after).openUnit.signatures recorded) d.prototype.params with
  | error error =>
      rw [hcheck] at hbody
      obtain ⟨code, latest, hrun⟩ := hbody
      simp only [hrun]
      exact ⟨_, _, _, rfl, rfl, rfl⟩
  | ok _ =>
      rw [hcheck] at hbody
      obtain ⟨hrun, hcalls⟩ := hbody
      simp only [hrun]
      have hgrow := hadds.names_nodup (d.body.lower 0).code (d.body.lower 0).latest
      have hclose := run_closeBody (d := d) hgrow rfl hparams hcalls
      by_cases hclashes : d.clashes = []
      · rw [if_pos hclashes] at hclose ⊢
        refine Exists.intro (d.body.lower 0).latest ⟨hclose, fun signature hsignature => ?_⟩
        have hmem := hcalls signature hsignature
        rwa [Draft.signatures_grow] at hmem ⊢
      · rw [if_neg hclashes] at hclose ⊢
        exact Exists.intro d.written ⟨_, _, rfl, rfl, hclose⟩

theorem Draft.Adds.replaces {t : Draft} {recorded declared : List Prototype} {u : OpenUnit}
    (h : t.Adds recorded declared) (hothers : t.before ++ t.after = u.others t.name) {f : Function}
    (hf : f.name = t.name) :
    u.Replaces t.name recorded (some f)
        (t.before ++ f :: (t.after ++ declared.map Prototype.declaration)) ∧
      u.Replaces t.name recorded none
        (t.before ++ (t.after ++ declared.map Prototype.declaration)) := by
  have hnodup : ((t.before ++ (t.after ++ declared.map Prototype.declaration)).map
      Function.name).Nodup ∧ ∀ g ∈ t.before ++ (t.after ++ declared.map Prototype.declaration),
        g.name ≠ t.name :=
    names_nodup_iff.1 (h.names_nodup [] 0)
  have hmem : ∀ g ∈ t.before ++ (t.after ++ declared.map Prototype.declaration),
      g ∈ u.others t.name ∨ ∃ p, recorded.find? (·.name == p.name) = some p ∧
        g = p.declaration := by
    intro g hg
    rw [← List.append_assoc, hothers] at hg
    refine (List.mem_append.1 hg).imp_right fun hg => ?_
    obtain ⟨p, hp, rfl⟩ := List.mem_map.1 hg
    exact ⟨p, h.recorded p hp, rfl⟩
  have hothers' : ∀ g ∈ u.others t.name,
      g ∈ t.before ++ (t.after ++ declared.map Prototype.declaration) := by
    intro g hg
    rw [← List.append_assoc, hothers]
    exact List.mem_append_left _ hg
  refine ⟨⟨?_, ?_, ?_, ?_⟩, ⟨hnodup.1, by simp, hothers', fun g hg => ?_⟩⟩
  · rw [List.map_append, List.map_cons, List.nodup_middle, ← List.map_append, List.nodup_cons]
    refine ⟨fun hmem => ?_, hnodup.1⟩
    obtain ⟨g, hg, heq⟩ := List.mem_map.1 hmem
    exact hnodup.2 g hg (heq.trans hf)
  · simp
  · intro g hg
    exact List.mem_append.2 ((List.mem_append.1 (hothers' g hg)).imp_right (List.mem_cons_of_mem f))
  · intro g hg
    rcases List.mem_append.1 hg with hg | hg
    · exact (hmem g (List.mem_append_left _ hg)).imp_right .inr
    · rcases List.mem_cons.1 hg with rfl | hg
      · exact .inr (.inl rfl)
      · exact (hmem g (List.mem_append_right _ hg)).imp_right .inr
  · exact (hmem g hg).imp_right .inr

namespace Definition

def check (d : Definition) (u : OpenUnit) (recorded : List Prototype) :
    Except EmissionError Unit := do
  d.checkName u
  d.checkBody fun name =>
    if name = d.prototype.name then some d.prototype.params.length
    else arityIn u.signatures recorded name

/-- The draft has the other functions of the unit, each once. -/
theorem nodup_draft {d : Definition} {u : OpenUnit} {before after : List Function}
    (hothers : before ++ after = u.others d.prototype.name)
    (hnodup : (u.module.functions.map Function.name).Nodup) :
    (d.draft u.module.name before after).names.Nodup := by
  have hnames := OpenUnit.nodup_others (n := d.prototype.name) hnodup
  have hne : ∀ g ∈ u.others d.prototype.name, g.name ≠ d.prototype.name :=
    fun g hg => OpenUnit.name_ne_of_mem_others hg
  rw [← hothers] at hnames hne
  exact Draft.names_nodup_iff.2 ⟨hnames, hne⟩

theorem arityIn_draft {d : Definition} {u : OpenUnit} {before after : List Function}
    (hothers : before ++ after = u.others d.prototype.name) (unitName : String)
    (recorded : List Prototype) :
    arityIn (d.draft unitName before after).openUnit.signatures recorded = fun name =>
      if name = d.prototype.name then some d.prototype.params.length
      else arityIn u.signatures recorded name := by
  funext name
  have hsignatures : (d.draft unitName before after).openUnit.signatures =
      before.map Function.signature ++
        d.prototype.signature :: after.map Function.signature :=
    Draft.signatures_openUnit _
  rw [arityIn, hsignatures]
  by_cases hname : name = d.prototype.name
  · have hbefore : (before.map Function.signature).find? (·.name == name) = none := by
      refine List.find?_eq_none.2 fun signature hsignature => ?_
      obtain ⟨g, hg, rfl⟩ := List.mem_map.1 hsignature
      have hne : g.name ≠ d.prototype.name := by
        refine OpenUnit.name_ne_of_mem_others (u := u) ?_
        rw [← hothers]
        exact List.mem_append_left _ hg
      rw [← hname] at hne
      simpa [Function.signature] using hne
    rw [List.find?_append, hbefore, if_pos hname]
    simp [hname, Prototype.signature]
  · have hown : ¬ (d.prototype.signature.name == name) = true := by
      simpa [Prototype.signature] using Ne.symm hname
    have hskip : (d.prototype.signature :: after.map Function.signature).find? (·.name == name) =
        (after.map Function.signature).find? (·.name == name) :=
      List.find?_cons_of_neg hown
    rw [List.find?_append, hskip, ← List.find?_append, ← List.map_append, hothers, if_neg hname,
      OpenUnit.find?_signature_others u hname, arityIn]

/-- What is left of a function whose body failed: a declaration, if another function calls it. -/
theorem discard_draft {d : Definition} {u : OpenUnit} {recorded declared : List Prototype}
    {before after : List Function} (hothers : before ++ after = u.others d.prototype.name)
    (hadds : (d.draft u.module.name before after).Adds recorded declared) {f : Function}
    (hname : f.name = d.prototype.name) (hparams : f.params = d.prototype.params)
    (target : Option String) (registers : Nat) :
    ∃ functions target', OpenUnit.discard ⟨⟨u.module.name, before ++ f ::
        (after ++ declared.map Prototype.declaration)⟩, target, registers⟩ d.prototype.name =
          ⟨⟨u.module.name, functions⟩, target', registers⟩ ∧
      u.Replaces d.prototype.name recorded
        (if u.isReferenced d.prototype.name then some d.prototype.declaration else none)
        functions := by
  have hne : ∀ g ∈ before ++ (after ++ declared.map Prototype.declaration),
      g.name ≠ d.prototype.name :=
    (Draft.names_nodup_iff.1 (hadds.names_nodup [] 0)).2
  have hcalls : (before ++ (after ++ declared.map Prototype.declaration)).any
      (·.calls d.prototype.name) = u.isReferenced d.prototype.name := by
    rw [OpenUnit.isReferenced_eq, ← List.append_assoc, hothers, List.any_append, List.any_map]
    simp [Function.comp_def, Prototype.declaration, Function.calls]
  have hbare : f.withoutBody = d.prototype.declaration := by
    rw [Function.withoutBody, hname, hparams]
    rfl
  obtain ⟨target', hdiscard⟩ := OpenUnit.discard_eq (u := ⟨⟨u.module.name, before ++ f ::
    (after ++ declared.map Prototype.declaration)⟩, target, registers⟩) rfl hname hne
  rw [hcalls, hbare] at hdiscard
  have hreplaces := hadds.replaces (f := d.prototype.declaration) hothers rfl
  refine ⟨_, target', hdiscard, ?_⟩
  split
  · exact hreplaces.1
  · exact hreplaces.2

theorem repeated?_of_checkName {d : Definition} {u : OpenUnit} (h : d.checkName u = .ok ()) :
    d.prototype.repeated? = none := by
  rw [checkName] at h
  split at h
  · cases h
  next hrepeated => exact hrepeated

/-- Emitting a definition is checking and compiling it. -/
theorem run_emit {d : Definition} {u : OpenUnit} {recorded : List Prototype}
    (hnodup : (u.module.functions.map Function.name).Nodup)
    (hvalid : ∀ p ∈ recorded, p.repeated? = none) :
    match d.check u recorded with
    | .ok () => ∃ functions registers,
        (d.emit recorded).run u =
          .ok d.prototype.signature ⟨⟨u.module.name, functions⟩, none, registers⟩ ∧
        u.Replaces d.prototype.name recorded (some d.compiled) functions ∧
        ∀ signature ∈ d.body.calls, signature ∈ functions.map Function.signature
    | .error error => ∃ functions target registers,
        (d.emit recorded).run u = .error error ⟨⟨u.module.name, functions⟩, target, registers⟩ ∧
        (d.checkName u = .error error ∧ functions = u.module.functions ∨ d.checkName u = .ok () ∧
          u.Replaces d.prototype.name recorded
            (if u.isReferenced d.prototype.name then some d.prototype.declaration else none)
            functions) := by
  have hdeclare := run_declare (d := d) hnodup
  rw [check, emit, EStateM.run_bind]
  cases hname : d.checkName u with
  | error error =>
      rw [hname] at hdeclare
      simp only [hdeclare]
      exact Exists.intro u.module.functions ⟨u.target, u.registers, rfl, .inl ⟨rfl, rfl⟩⟩
  | ok _ =>
      rw [hname] at hdeclare
      obtain ⟨before, after, params, target, hothers, hrun⟩ := hdeclare
      obtain ⟨declared, hadds, hbody⟩ := emits_emitBody params target u.registers
        (nodup_draft hothers hnodup) (repeated?_of_checkName hname) hvalid
      rw [arityIn_draft hothers] at hbody
      simp only [hrun, EStateM.run_bind, Emit.run_tryCatch]
      change match d.checkBody _ with | .ok () => _ | .error error => _
      cases hcheck : d.checkBody fun name =>
          if name = d.prototype.name then some d.prototype.params.length
          else arityIn u.signatures recorded name with
      | ok _ =>
          rw [hcheck] at hbody
          obtain ⟨latest, hemit, hcalls⟩ := hbody
          simp only [hemit]
          have hreplaces := hadds.replaces (f := d.compiled) hothers rfl
          refine ⟨_, latest, rfl, hreplaces.1, fun signature hsignature => ?_⟩
          have hmem := hcalls signature hsignature
          rw [Draft.signatures_grow, Draft.signatures_openUnit] at hmem
          simpa [draft, Function.comp_def, Prototype.signature, Function.signature,
            Prototype.declaration] using hmem
      | error error =>
          rw [hcheck] at hbody
          obtain ⟨f, target', latest, hf, hparams, hemit⟩ := hbody
          obtain ⟨functions, target'', hdiscard, hreplaces⟩ :=
            discard_draft hothers hadds hf hparams target' latest
          simp only [hemit, EStateM.run_modify, hdiscard]
          exact ⟨functions, target'', latest, rfl, .inr ⟨trivial, hreplaces⟩⟩

/-- A definition that succeeds passed the check, and its function is in place. -/
theorem of_run_emit {d : Definition} {u u' : OpenUnit} {recorded : List Prototype}
    (hnodup : (u.module.functions.map Function.name).Nodup)
    (hvalid : ∀ p ∈ recorded, p.repeated? = none) {signature : Signature}
    (hrun : (d.emit recorded).run u = .ok signature u') :
    d.check u recorded = .ok () ∧
      u.Replaces d.prototype.name recorded (some d.compiled) u'.module.functions := by
  have hemit := d.run_emit hnodup hvalid
  cases hcheck : d.check u recorded with
  | ok _ =>
      rw [hcheck] at hemit
      obtain ⟨functions, registers, hok, hreplaces, -⟩ := hemit
      cases hrun.symm.trans hok
      exact ⟨rfl, hreplaces⟩
  | error error =>
      rw [hcheck] at hemit
      obtain ⟨functions, target, registers, herror, -⟩ := hemit
      cases hrun.symm.trans herror

end Definition

end ScalarLang
