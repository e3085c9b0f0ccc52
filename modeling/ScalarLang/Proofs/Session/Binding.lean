import ScalarLang.Proofs.Session.Calls
import ScalarLang.Proofs.Session.Residence
import ScalarLang.Proofs.Session.Rotation

/-!
# What a call runs

The bodies of the definitions that a session accepts, each with the place of its unit in
the order of sealing, are the history of a name (`Session.bodies`). A call that an
expression at the top level makes itself runs the latest body of the name in that history,
and a call from a function whose unit has a body of the name runs that one
(`Session.enters_latest`).
-/

namespace ScalarLang

open Code

/-- The name of a definition that was accepted. -/
def Outcome.definedName? : Outcome → Option String
  | .defined name _ => some name
  | .declared .. | .evaluated .. | .failed => none

theorem Outcome.definedName?_bare (o : Outcome) : o.bare.definedName? = o.definedName? := by
  cases o <;> rfl

theorem TreeSession.definedName?_handle (t : TreeSession) (statement : Statement) :
    (t.handle statement).1.outcome.definedName? =
      if t.accepts statement then statement.definedName? else none := by
  cases statement with
  | definition d =>
      rw [handle, accepts]
      cases t.check d <;> rfl
  | external q =>
      rw [handle, accepts]
      cases t.checkExternal q <;> rfl
  | topLevel d =>
      rw [handle, accepts]
      cases t.check d with
      | error error => rfl
      | ok _ =>
          dsimp only [Run.answer]
          cases (t.run d).result <;> rfl
  | malformed error | endOfInput => rfl

namespace Session

/-- The function that a definition became, and the number of units sealed before its own. -/
structure Body where
  function : Function
  unit : Nat
  deriving DecidableEq, Repr, Inhabited

/-- The body that a statement adds to the open unit. A definition adds one if it is accepted. -/
def body? (s : Session) (statement : Statement) : Option Body := do
  let name ← (s.handle statement).1.outcome.definedName?
  let f ← (s.handle statement).2.openUnit.module.find? name
  return ⟨f, s.sealedUnits⟩

/-- The bodies that statements add, the latest first. -/
def bodies (s : Session) : List Statement → List Body
  | [] => []
  | statement :: statements =>
    (s.handle statement).2.bodies statements ++ (s.body? statement).toList

end Session

/-- The bodies of the definitions of units, the latest first. -/
def Units.bodies : Units → List Session.Body
  | [] => []
  | unit :: older => unit.map (fun d => ⟨d.compiled, older.length⟩) ++ Units.bodies older

/-- Among the bodies of a unit, a name leads to the definition that it leads to in the unit. -/
theorem Units.find?_map_body (unit : Nat) (own : List Definition) (name : String) :
    (own.map fun d => (⟨d.compiled, unit⟩ : Session.Body)).find? (·.function.name == name) =
      (Definition.find? own name).map fun d => ⟨d.compiled, unit⟩ := List.find?_map ..

/-- What is paired with a member of the second list stands in the first with as many behind it. -/
theorem exists_append_of_mem_forall₂ {α β : Type} {R : α → β → Prop} {l : List α} {l' : List β}
    (h : List.Forall₂ R l l') {b : β} (hb : b ∈ l') :
    ∃ before a behind, l = before ++ a :: behind ∧ R a b ∧
      l'.reverse[behind.length]? = some b := by
  induction h with
  | nil => cases hb
  | @cons a b' l l' hrel hrels ih =>
      rw [List.reverse_cons]
      rcases List.mem_cons.1 hb with rfl | hb
      · refine ⟨[], a, l, rfl, hrel, ?_⟩
        rw [hrels.length_eq, ← List.length_reverse]
        exact List.getElem?_concat_length
      · obtain ⟨before, a', behind, rfl, hrel', hplace⟩ := ih hb
        refine ⟨a :: before, a', behind, rfl, hrel', ?_⟩
        rw [List.getElem?_append_left (List.getElem?_eq_some_iff.1 hplace).1]
        exact hplace

/-- The latest body of a name is what the newest unit with a body of the name has. -/
theorem Units.exists_target?_of_find? {units : Units} {modules : List Module}
    (h : List.Forall₂ (fun unit (m : Module) => m.Holds unit) units modules) {name : String}
    {body : Session.Body} (hfind : units.bodies.find? (·.function.name == name) = some body) :
    ∃ target, modules.findSome? (·.target? name) = some target ∧
      target.unit.target? name = some target ∧ target.function = body.function ∧
      modules.reverse[body.unit]? = some target.unit := by
  induction h with
  | nil => cases hfind
  | @cons unit m older modules hholds holder ih =>
      rw [bodies, List.find?_append, find?_map_body] at hfind
      rw [List.findSome?_cons, hholds.target?_eq, List.reverse_cons]
      cases hd : Definition.find? unit name with
      | some d =>
          rw [hd] at hfind
          cases hfind
          refine ⟨d.target m, rfl, ?_, rfl, ?_⟩
          · exact (hholds.target?_eq name).trans (congrArg _ hd)
          · rw [holder.length_eq, ← List.length_reverse]
            exact List.getElem?_concat_length
      | none =>
          rw [hd] at hfind
          obtain ⟨target, htarget, hown, hfunction, hunit⟩ := ih hfind
          refine ⟨target, htarget, hown, hfunction, ?_⟩
          rw [List.getElem?_append_left (List.getElem?_eq_some_iff.1 hunit).1]
          exact hunit

theorem Code.Module.target?_eq_none_of_isBodiless {m : Module} (h : m.isBodiless = true)
    (name : String) : m.target? name = none := by
  cases htarget : m.target? name with
  | none => rfl
  | some target =>
      simp only [target?, Option.pure_def, Option.bind_eq_bind, Option.bind_eq_some_iff] at htarget
      obtain ⟨f, hfind, entry, hentry, -⟩ := htarget
      have hbody := List.all_eq_true.1 h f (List.mem_of_find?_eq_some hfind)
      rw [Function.entryBlock?, List.isEmpty_iff.1 hbody] at hentry
      cases hentry

namespace Session

theorem mem_map_of_mem_resident {units : List Module} {unit : Module} (h : unit ∈ resident units) :
    unit ∈ units.map (·.without Prototype.anonymousName) :=
  List.map_subset _ (fun _ hmem => List.mem_of_mem_filter hmem) h

/-- What is left out of the sealed units has no bodies. -/
theorem findSome?_resident (units : List Module) (name : String) :
    (resident units).reverse.findSome? (·.target? name) =
      (units.map (·.without Prototype.anonymousName)).reverse.findSome? (·.target? name) := by
  induction units with
  | nil => rfl
  | cons m units ih =>
      rw [← List.singleton_append, resident_append, resident_singleton, List.map_append,
        List.reverse_append, List.reverse_append, List.findSome?_append, List.findSome?_append, ih]
      congr 1
      cases hbeside : m.definesBeside Prototype.anonymousName with
      | true => rfl
      | false =>
          have hbodiless : (m.without Prototype.anonymousName).isBodiless = true := by
            rw [Module.isBodiless_without, hbeside]
            rfl
          simp [Module.target?_eq_none_of_isBodiless hbodiless]

namespace Realizes

variable {s s' : Session} {settings : Settings} {t : TreeSession} {statement : Statement}
  {statements : List Statement}

theorem definedName?_handle (h : s.Realizes settings t) (hnamed : statement.Named) :
    (s.handle statement).1.outcome.definedName? =
      if t.accepts statement then statement.definedName? else none := by
  rw [← t.definedName?_handle, ← (h.handle hnamed).1]
  exact (Outcome.definedName?_bare _).symm

/-- No body has the reserved name. -/
theorem name_ne_of_mem_bodies (h : s.Realizes settings t)
    (hnamed : ∀ statement ∈ statements, statement.Named) :
    ∀ body ∈ s.bodies statements, body.function.name ≠ Prototype.anonymousName := by
  induction statements generalizing s t with
  | nil => nofun
  | cons statement statements ih =>
      obtain ⟨hfirst, hlater⟩ := List.forall_mem_cons.1 hnamed
      refine List.forall_mem_append.2 ⟨ih (h.handle hfirst).2 hlater, fun body hbody => ?_⟩
      simp only [Option.mem_toList, body?, Option.pure_def, Option.bind_eq_bind,
        Option.bind_eq_some_iff, Option.some.injEq] at hbody
      obtain ⟨name, hname, f, hfind, rfl⟩ := hbody
      have hf : f.name = name := by simpa using List.find?_some hfind
      rw [h.definedName?_handle hfirst] at hname
      split at hname
      · cases statement with
        | definition d =>
            cases hname
            exact hf ▸ hfirst
        | external | topLevel | malformed | endOfInput => cases hname
      · cases hname

/-- A statement adds the body that it adds to the trees. -/
theorem body?_append (h : s.Realizes settings t) (hnamed : statement.Named) :
    (s.body? statement).toList ++ Units.bodies (t.opened :: t.sealed) =
      Units.bodies ((t.handle statement).2.opened :: (t.handle statement).2.sealed) := by
  have hopened := (h.handle hnamed).2.opened
  rw [TreeSession.handle_snd] at hopened ⊢
  rw [body?, h.definedName?_handle hnamed]
  cases haccepts : t.accepts statement with
  | false => rfl
  | true =>
      rw [haccepts] at hopened
      cases statement with
      | definition d =>
          have hfind := Module.find?_eq_some_of_mem hopened.nodup
            (hopened.compiled d List.mem_cons_self)
          rw [Definition.name_compiled] at hfind
          simp only [if_true, Statement.definedName?, Option.bind_eq_bind, Option.bind_some, hfind,
            h.sealedUnits]
          rfl
      | external | topLevel | malformed | endOfInput => rfl

/-- The history of the session is that of its trees. -/
theorem bodies_append (h : s.Realizes settings t)
    (hnamed : ∀ statement ∈ statements, statement.Named) :
    s.bodies statements ++ Units.bodies (t.opened :: t.sealed) =
      Units.bodies ((t.handleAll statements).2.opened :: (t.handleAll statements).2.sealed) := by
  induction statements generalizing s t with
  | nil => rfl
  | cons statement statements ih =>
      obtain ⟨hfirst, hlater⟩ := List.forall_mem_cons.1 hnamed
      rw [bodies, List.append_assoc, h.body?_append hfirst]
      exact ih (h.handle hfirst).2 hlater

/-- Without the expression, the unit that a statement seals holds the definitions that the trees
had in the open one. -/
theorem holds_sealed? (h : s.Realizes settings t) (hnamed : statement.Named) :
    ∃ units : Units, (t.handle statement).2.sealed = units.reverse ++ t.sealed ∧
      List.Forall₂ (fun unit (m : Module) => m.Holds unit) units
        ((s.sealed? statement).toList.map (·.without Prototype.anonymousName)) := by
  rw [TreeSession.handle_snd, ← h.accepts_eq hnamed]
  cases statement with
  | topLevel d =>
      rw [accepts, sealed?]
      rcases hemit : s.emitTopLevel d with ⟨error | signature, s'⟩
      · exact ⟨[], rfl, .nil⟩
      · obtain ⟨-, hholds, -⟩ := h.emitted hemit
        have hname : d.prototype.name = Prototype.anonymousName := hnamed
        have herase := hholds.erase (hname ▸ h.sound.called)
        rw [hname, Module.erase_eq_without hholds.nodup] at herase
        exact ⟨[t.opened], rfl, .cons herase .nil⟩
  | definition | external | malformed | endOfInput =>
      refine ⟨[], ?_, .nil⟩
      split <;> rfl

theorem holds_sealedBy (h : s.Realizes settings t)
    (hnamed : ∀ statement ∈ statements, statement.Named) :
    ∃ units : Units, (t.handleAll statements).2.sealed = units.reverse ++ t.sealed ∧
      List.Forall₂ (fun unit (m : Module) => m.Holds unit) units
        ((s.sealedBy statements).map (·.without Prototype.anonymousName)) := by
  induction statements generalizing s t with
  | nil => exact ⟨[], rfl, .nil⟩
  | cons statement statements ih =>
      obtain ⟨hfirst, hlater⟩ := List.forall_mem_cons.1 hnamed
      obtain ⟨first, hsealed, hfirsts⟩ := h.holds_sealed? hfirst
      obtain ⟨units, hsealed', hholds⟩ := ih (h.handle hfirst).2 hlater
      rw [sealedBy, List.map_append]
      refine ⟨first ++ units, ?_, List.rel_append hfirsts hholds⟩
      rw [TreeSession.handleAll_cons, hsealed', hsealed, List.reverse_append, List.append_assoc]

end Realizes

section Reached

variable (settings : Settings) (limit : Nat) {before : List Statement}
  (hnamed : ∀ statement ∈ before, statement.Named)

include hnamed

/-- Without the expressions, the sealed units hold the definitions of the trees. -/
theorem holds_reached : List.Forall₂ (fun unit (m : Module) => m.Holds unit)
    ((TreeSession.new limit).handleAll before).2.sealed
    (((new settings limit).sealedBy before).map
      (·.without Prototype.anonymousName)).reverse := by
  obtain ⟨units, hsealed, hholds⟩ := (Realizes.new settings limit).holds_sealedBy hnamed
  rw [hsealed, show (TreeSession.new limit).sealed = [] from rfl, List.append_nil]
  exact List.forall₂_reverse_iff.2 hholds

theorem bodies_reached : (new settings limit).bodies before =
    Units.bodies (((TreeSession.new limit).handleAll before).2.opened ::
      ((TreeSession.new limit).handleAll before).2.sealed) := by
  rw [← (Realizes.new settings limit).bodies_append hnamed]
  exact (List.append_nil _).symm

theorem units_reached : ((new settings limit).handleAll before).2.engine.units =
    (resident ((new settings limit).sealedBy before)).reverse := by
  rw [← List.reverse_eq_iff]
  exact ((WellFormed.new settings limit).units_handleAll hnamed).1

/-- The units that are loaded for a run lead to the latest body of a name. -/
theorem exists_target?_running {d : Definition} (hd : (Statement.topLevel d).Named)
    {signature : Signature} {s' : Session}
    (hemit : ((new settings limit).handleAll before).2.emitTopLevel d = (.ok signature, s'))
    {name : String} {body : Body}
    (hfind : ((new settings limit).bodies before).find? (·.function.name == name) = some body) :
    ∃ target, s'.running.units.findSome? (·.target? name) = some target ∧
      target.unit.target? name = some target ∧ target.function = body.function ∧
      (((new settings limit).sealedBy before).map (·.without Prototype.anonymousName) ++
        [s'.openUnit.module])[body.unit]? = some target.unit := by
  have hnew := Realizes.new settings limit
  obtain ⟨-, hemitted, hengine⟩ := (hnew.handleAll hnamed).2.emitted hemit
  have hname : body.function.name = name := by simpa using List.find?_some hfind
  have hne := hnew.name_ne_of_mem_bodies hnamed body (List.mem_of_find?_eq_some hfind)
  -- The open unit has the expression as well, but nothing else goes by the reserved name.
  have hlatest : (Units.bodies ((d :: ((TreeSession.new limit).handleAll before).2.opened) ::
      ((TreeSession.new limit).handleAll before).2.sealed)).find? (·.function.name == name) =
        some body := by
    rw [bodies_reached settings limit hnamed] at hfind
    refine (List.find?_cons_of_neg ?_).trans hfind
    rw [Definition.name_compiled, beq_iff_eq, ← hname]
    exact fun heq => hne (heq.symm.trans hd)
  obtain ⟨target, htarget, hown, hfunction, hunit⟩ :=
    Units.exists_target?_of_find? (.cons hemitted (holds_reached settings limit hnamed)) hlatest
  refine ⟨target, ?_, hown, hfunction, ?_⟩
  · rw [running, Engine.units_load, hengine, units_reached settings limit hnamed,
      List.findSome?_cons, findSome?_resident]
    rwa [List.findSome?_cons] at htarget
  · rwa [List.reverse_cons, List.reverse_reverse] at hunit

/-- Every unit that is loaded for a run holds the definitions of one of the units of the trees,
which has as many older ones as were sealed before it. -/
theorem exists_holds_running {d : Definition} {signature : Signature} {s' : Session}
    (hemit : ((new settings limit).handleAll before).2.emitTopLevel d = (.ok signature, s'))
    {unit : Module} (hunit : unit ∈ s'.running.units) :
    ∃ (newer : Units) (own : List Definition) (older : Units),
      (d :: ((TreeSession.new limit).handleAll before).2.opened) ::
        ((TreeSession.new limit).handleAll before).2.sealed = newer ++ own :: older ∧
      unit.Holds own ∧
      (((new settings limit).sealedBy before).map (·.without Prototype.anonymousName) ++
        [s'.openUnit.module])[older.length]? = some unit := by
  obtain ⟨-, hemitted, hengine⟩ :=
    ((Realizes.new settings limit).handleAll hnamed).2.emitted hemit
  have hmem : unit ∈ s'.openUnit.module ::
      (((new settings limit).sealedBy before).map (·.without Prototype.anonymousName)).reverse := by
    rw [running, Engine.units_load, hengine, units_reached settings limit hnamed] at hunit
    obtain rfl | hunit := List.mem_cons.1 hunit
    · exact List.mem_cons_self
    · refine List.mem_cons_of_mem _ (List.mem_reverse.2 ?_)
      exact mem_map_of_mem_resident (List.mem_reverse.1 hunit)
  have hunits : List.Forall₂ (fun own (m : Module) => m.Holds own) _ _ :=
    .cons hemitted (holds_reached settings limit hnamed)
  obtain ⟨newer, own, older, htrees, hholds, hplace⟩ := exists_append_of_mem_forall₂ hunits hmem
  rw [List.reverse_cons, List.reverse_reverse] at hplace
  exact ⟨newer, own, older, htrees, hholds, hplace⟩

end Reached

/-- Every call in a run has values for its arguments. If the expression itself calls, the body that
was accepted last for the name is entered, in the unit that it was put in. If the unit of the
caller has a body of the name, that is entered, and takes as many arguments. -/
theorem enters_latest (settings : Settings) (limit : Nat) {before : List Statement}
    (hparsed : ∀ statement ∈ before, statement.Parsed) {d : Definition}
    (hd : (Statement.topLevel d).Parsed) {signature : Signature} {s' : Session}
    (hemit : ((Session.new settings limit).handleAll before).2.emitTopLevel d =
      (.ok signature, s')) {m : Machine} (hm : s'.running.Visits d.prototype.name m)
    {dest callee : String} {args : List Operand} {pending : List Instruction}
    (hcall : m.active.pending = .call dest callee args :: pending) :
    let units := ((Session.new settings limit).sealedBy before).map
      (·.without Prototype.anonymousName) ++ [s'.openUnit.module]
    let caller : Caller := ⟨{ m.active with pending := pending }, dest⟩
    ∃ values, args.mapM m.active.demand = .ok values ∧
      (s'.openUnit.module.target? d.prototype.name = some m.active.target →
        ∀ body ∈ ((Session.new settings limit).bodies before).find? (·.function.name == callee),
          ∃ target, target.unit.target? callee = some target ∧ target.function = body.function ∧
            units[body.unit]? = some target.unit ∧
            s'.running.Enters m caller target values (s'.running.step m)) ∧
      ∀ target, m.active.target.unit.target? callee = some target →
        target.function.params.length = values.length ∧
          s'.running.Enters m caller target values (s'.running.step m) := by
  intro units caller
  have hnamed : ∀ statement ∈ before, statement.Named :=
    fun statement hmem => (hparsed statement hmem).named
  have hnew := Session.Realizes.new settings limit
  have hreached := (hnew.handleAll hnamed).2
  obtain ⟨values, hvalues, hlength⟩ := hm.exists_values (hreached.ofProgram_running hemit) hcall
  refine ⟨values, hvalues, fun hentry body hbody => ?_, fun target htarget => ?_⟩
  · obtain ⟨target, hfind, hown, hfunction, hunit⟩ :=
      exists_target?_running settings limit hnamed hd.named hemit hbody
    refine ⟨target, hown, hfunction, hunit, Engine.enters_step hcall hvalues ?_⟩
    rw [(Module.of_target? hentry).1]
    exact Engine.resolve?_of_findSome? rfl hfind
  · have hexecutes := hm.executes (hreached.loaded_running hemit) m.active List.mem_cons_self
    rw [hcall] at hexecutes
    refine ⟨(hexecutes.length_params htarget).trans hlength.symm, ?_⟩
    exact Engine.enters_step hcall hvalues (Engine.resolve?_of_target? htarget)

/-- A function that was defined in two units. The expression calls the one in the later unit. -/
theorem enters_latest_recursion :
    let loop : Definition := ⟨⟨"f", [], ⟨4, 7⟩⟩, .call "f" [] ⟨8, 11⟩⟩
    let d : Definition := .anonymous (.call "f" [] ⟨0, 3⟩)
    let before : List Statement := [.definition loop, .topLevel d, .definition loop]
    let s := Session.new .standard 3
    (∀ statement ∈ before, statement.Parsed) ∧ (Statement.topLevel d).Parsed ∧
      s.bodies before = [⟨loop.compiled, 1⟩, ⟨loop.compiled, 0⟩] ∧
      ∃ signature s' m, (s.handleAll before).2.emitTopLevel d = (.ok signature, s') ∧
        s'.running.Visits d.prototype.name m ∧
        m.active.pending = [.call "calltmp1" "f" []] ∧
        ∃ target, target.function = loop.compiled ∧ target.unit = s'.openUnit.module ∧
          s'.running.Enters m ⟨{ m.active with pending := [] }, "calltmp1"⟩ target []
            (s'.running.step m) := by
  intro loop d before s
  have hparsed : ∀ statement ∈ before, statement.Parsed :=
    List.forall_mem_cons.2 ⟨Statement.parsed_recursion, List.forall_mem_cons.2
      ⟨Statement.parsed_call, List.forall_mem_singleton.2 Statement.parsed_recursion⟩⟩
  have hnamed : ∀ statement ∈ before, statement.Named :=
    fun statement hmem => (hparsed statement hmem).named
  have hbodies : s.bodies before = [⟨loop.compiled, 1⟩, ⟨loop.compiled, 0⟩] := by
    rw [bodies_reached .standard 3 hnamed]
    decide
  have hreached := ((Realizes.new .standard 3).handleAll hnamed).2
  have hok := hreached.isOk_emitTopLevel d
  have hcheck : (((TreeSession.new 3).handleAll before).2.check d).isOk = true := by decide
  rcases hemit : (s.handleAll before).2.emitTopLevel d with ⟨error | signature, s'⟩
  · rw [hcheck, hemit] at hok
    cases hok
  · obtain ⟨-, hemitted, hengine⟩ := hreached.emitted hemit
    have hentry := hemitted.target?_eq d.prototype.name
    have hframe : s'.running.activate 0 (d.target s'.openUnit.module) [] =
        .ok (.enter (d.target s'.openUnit.module) []) := by
      have hlimit : s'.running.limit = 3 := by
        rw [running, Engine.limit_load, hengine, hreached.limit]
        decide
      rw [Engine.activate, hlimit]
      rfl
    have hm : s'.running.Visits d.prototype.name
        ⟨.enter (d.target s'.openUnit.module) [], .empty, []⟩ := .start hentry hframe
    have hlength : ((s.sealedBy before).map (·.without Prototype.anonymousName)).length = 1 := by
      decide
    obtain ⟨values, hvalues, hlatest, -⟩ :=
      enters_latest .standard 3 hparsed Statement.parsed_call hemit hm rfl
    obtain ⟨target, -, hfunction, hunit, henters⟩ :=
      hlatest hentry ⟨loop.compiled, 1⟩ (by rw [hbodies]; decide)
    cases hvalues
    dsimp only at hunit
    rw [← hlength, List.getElem?_concat_length] at hunit
    exact ⟨hparsed, Statement.parsed_call, hbodies, signature, s', _, rfl, hm, rfl, target,
      hfunction, (Option.some.inj hunit).symm, henters⟩

end Session

end ScalarLang
