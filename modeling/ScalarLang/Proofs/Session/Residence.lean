import ScalarLang.Proofs.Grammar.Program
import ScalarLang.Proofs.Session.WellFormed

/-!
# What stays loaded

Every expression at the top level seals a unit. Behind its run, successful or not, the
engine keeps that unit without the function of the expression, and does not keep it at
all if no other function in it has a body. So the loaded units are those that were
sealed, in order, apart from this (`Session.units_handleAll`).
-/

namespace ScalarLang

open Code

namespace Code.Module

/-- Whether a function under another name has a body. -/
def definesBeside (m : Module) (name : String) : Bool :=
  m.functions.any fun f => f.name != name && !f.isDeclaration

/-- The unit without the functions of a name. -/
def without (m : Module) (name : String) : Module :=
  { m with functions := m.functions.filter (·.name != name) }

theorem isBodiless_without (m : Module) (name : String) :
    (m.without name).isBodiless = !m.definesBeside name := by
  rw [isBodiless, without, definesBeside, List.all_filter, List.not_any_eq_all_not]
  refine congrArg m.functions.all (funext fun f => ?_)
  rw [Bool.not_and, Bool.not_not]

theorem name_ne_of_mem_without {m : Module} {name : String} :
    ∀ f ∈ (m.without name).functions, f.name ≠ name := by
  intro f hf
  simpa using (List.mem_filter.1 hf).2

/-- If names are distinct the first function of a name is the only one. -/
theorem erase_eq_without {m : Module} (h : (m.functions.map Function.name).Nodup) (name : String) :
    m.erase name = m.without name := by
  refine congrArg (Module.mk m.name) ?_
  revert h
  generalize m.functions = fs
  intro h
  induction fs with
  | nil => rfl
  | cons f fs ih =>
      obtain ⟨hnew, hrest⟩ := List.nodup_cons.1 h
      by_cases hname : f.name = name
      · have hkeep : fs.filter (·.name != name) = fs := by
          refine List.filter_eq_self.2 fun g hg => bne_iff_ne.2 fun heq => hnew ?_
          rw [hname, ← heq]
          exact List.mem_map_of_mem hg
        rw [List.eraseP_cons_of_pos (by simpa using hname),
          List.filter_cons_of_neg (by simpa using hname), hkeep]
      · rw [List.eraseP_cons_of_neg (by simpa using hname),
          List.filter_cons_of_pos (by simpa using hname), ih hrest]

end Code.Module

/-- Unloading a function of the newest unit leaves the other functions loaded, if one of them has a
body. -/
theorem Engine.unloadFrom_cons {m : Module} (h : (m.functions.map Function.name).Nodup)
    {name : String} (hname : (m.find? name).isSome) (older : List Module) :
    unloadFrom name (m :: older) =
      if m.definesBeside name then m.without name :: older else older := by
  obtain ⟨f, hf⟩ := Option.isSome_iff_exists.1 hname
  simp only [unloadFrom, hf, Module.erase_eq_without h, Module.isBodiless_without]
  cases m.definesBeside name <;> rfl

namespace Session

/-- The unit that a statement seals: an expression at the top level seals the open unit once code
is emitted for it. -/
def sealed? (s : Session) : Statement → Option Module
  | .topLevel d =>
    match s.emitTopLevel d with
    | (.ok _, emitted) => some emitted.openUnit.takeModule.1
    | (.error _, _) => none
  | .definition _ | .external _ | .malformed _ | .endOfInput => none

/-- The units that statements seal, the oldest first. -/
def sealedBy (s : Session) : List Statement → List Module
  | [] => []
  | statement :: statements =>
    (s.sealed? statement).toList ++ (s.handle statement).2.sealedBy statements

/-- What stays loaded of sealed units: those that define something beside the expression that
they were sealed for, without that expression. -/
def resident (units : List Module) : List Module :=
  (units.filter (·.definesBeside Prototype.anonymousName)).map (·.without Prototype.anonymousName)

theorem resident_append (units units' : List Module) :
    resident (units ++ units') = resident units ++ resident units' := by
  rw [resident, List.filter_append, List.map_append]
  rfl

theorem resident_singleton (m : Module) :
    resident [m] = if m.definesBeside Prototype.anonymousName then
      [m.without Prototype.anonymousName] else [] := by
  rw [resident, List.filter_singleton]
  cases m.definesBeside Prototype.anonymousName <;> rfl

/-- A single unit is the same in either order. -/
theorem reverse_resident_toList (unit? : Option Module) :
    (resident unit?.toList).reverse = resident unit?.toList := by
  cases unit? with
  | none => rfl
  | some m =>
      rw [Option.toList_some, resident_singleton]
      split <;> rfl

theorem forall_mem_resident (units : List Module) : ∀ m ∈ resident units,
    m.isBodiless = false ∧ ∀ f ∈ m.functions, f.name ≠ Prototype.anonymousName := by
  intro m hm
  obtain ⟨m, hmem, rfl⟩ := List.mem_map.1 hm
  refine ⟨?_, Module.name_ne_of_mem_without⟩
  rw [Module.isBodiless_without, (List.mem_filter.1 hmem).2]
  rfl

theorem engine_emit {α : Type} (s : Session) (x : Emit α) :
    (s.emit x).2.engine = s.engine ∧ (s.emit x).2.sealedUnits = s.sealedUnits := by
  rw [emit_snd]
  exact ⟨rfl, rfl⟩

theorem engine_record (p : Prototype) (result : Except EmissionError Signature × Session) :
    (record p result).2.engine = result.2.engine ∧
      (record p result).2.sealedUnits = result.2.sealedUnits := by
  obtain ⟨_ | signature, s⟩ := result <;> exact ⟨rfl, rfl⟩

theorem engine_define {s : Session} (h : s.bindings = []) (d : Definition) :
    (s.define d).2.engine = s.engine ∧ (s.define d).2.sealedUnits = s.sealedUnits := by
  have hemit := s.engine_emit (d.emit s.prototypes)
  rw [define_eq h]
  split
  · exact hemit
  · obtain ⟨hengine, hcount⟩ := engine_record d.prototype (s.emit (d.emit s.prototypes))
    exact ⟨hengine.trans hemit.1, hcount.trans hemit.2⟩

theorem engine_declare (s : Session) (p : Prototype) :
    (s.declare p).2.engine = s.engine ∧ (s.declare p).2.sealedUnits = s.sealedUnits := by
  have hemit := s.engine_emit p.emit
  obtain ⟨hengine, hcount⟩ := engine_record p (s.emit p.emit)
  exact ⟨hengine.trans hemit.1, hcount.trans hemit.2⟩

theorem handleDefinition_snd (s : Session) (d : Definition) :
    (s.handleDefinition d).2 = (s.define d).2 := by
  rw [handleDefinition]
  generalize s.define d = result
  obtain ⟨_ | signature, s'⟩ := result <;> rfl

theorem handleExternal_snd (s : Session) (p : Prototype) :
    (s.handleExternal p).2 = (s.declare p).2 := by
  rw [handleExternal]
  generalize s.declare p = result
  obtain ⟨_ | signature, s'⟩ := result <;> rfl

theorem handleTopLevel_snd (s : Session) (d : Definition) :
    (s.handleTopLevel d).2 = (s.evaluate d).2 := by
  rw [handleTopLevel, evaluate]
  generalize s.emitTopLevel d = result
  obtain ⟨_ | signature, s'⟩ := result
  · rfl
  · dsimp only
    generalize s'.runTopLevel d.prototype.name = ran
    obtain ⟨⟨_ | value, calls⟩, s''⟩ := ran <;> rfl

/-- Handling a statement keeps a session well formed. -/
theorem WellFormed.handle {s : Session} (h : s.WellFormed) (statement : Statement) :
    (s.handle statement).2.WellFormed := by
  cases statement with
  | definition d =>
      rw [Session.handle, handleDefinition_snd]
      exact h.define d
  | external p =>
      rw [Session.handle, handleExternal_snd]
      exact h.declare p
  | topLevel d =>
      rw [Session.handle, handleTopLevel_snd]
      exact h.evaluate d
  | malformed error | endOfInput => exact h

theorem WellFormed.handleAll {s : Session} (h : s.WellFormed) (statements : List Statement) :
    (s.handleAll statements).2.WellFormed := by
  induction statements generalizing s with
  | nil => exact h
  | cons statement statements ih => exact ih (h.handle statement)

/-- An expression that code was emitted for is in the open unit. -/
theorem WellFormed.find?_emitTopLevel {s s' : Session} (h : s.WellFormed) {d : Definition}
    {signature : Signature} (hemit : s.emitTopLevel d = (.ok signature, s')) :
    s'.openUnit.module.find? d.prototype.name = some d.compiled := by
  rw [emitTopLevel_eq h.unbound] at hemit
  obtain ⟨-, hreplaces⟩ := Definition.of_run_emit h.opened.nodup h.recorded (run_of_emit hemit)
  exact Module.find?_eq_some_of_mem hreplaces.nodup (hreplaces.mem_own d.compiled rfl)

/-- Behind a run, whatever it ended with, what is resident of the unit stays loaded. -/
theorem WellFormed.units_runTopLevel {s : Session} (h : s.WellFormed)
    (hentry : (s.openUnit.module.find? Prototype.anonymousName).isSome) :
    (s.runTopLevel Prototype.anonymousName).2.engine.units =
      resident [s.openUnit.module] ++ s.engine.units := by
  refine (Engine.unloadFrom_cons h.opened.nodup hentry s.engine.units).trans ?_
  rw [resident_singleton]
  split <;> rfl

/-- The loaded units behind a statement. -/
theorem WellFormed.units_handle {s : Session} (h : s.WellFormed) {statement : Statement}
    (hnamed : statement.Named) :
    (s.handle statement).2.engine.units =
        resident (s.sealed? statement).toList ++ s.engine.units ∧
      (s.handle statement).2.sealedUnits =
        s.sealedUnits + (s.sealed? statement).toList.length := by
  cases statement with
  | definition d =>
      rw [Session.handle, handleDefinition_snd]
      obtain ⟨hengine, hcount⟩ := engine_define h.unbound d
      exact ⟨congrArg Engine.units hengine, hcount⟩
  | external p =>
      rw [Session.handle, handleExternal_snd]
      obtain ⟨hengine, hcount⟩ := s.engine_declare p
      exact ⟨congrArg Engine.units hengine, hcount⟩
  | topLevel d =>
      have hunits : (s.emitTopLevel d).2.engine = s.engine ∧
          (s.emitTopLevel d).2.sealedUnits = s.sealedUnits := by
        rw [emitTopLevel_eq h.unbound]
        exact s.engine_emit _
      have hemitted := h.emitTopLevel d
      have hname : d.prototype.name = Prototype.anonymousName := hnamed
      rw [Session.handle, handleTopLevel_snd, Session.evaluate, sealed?]
      rcases hemit : s.emitTopLevel d with ⟨error | signature, s'⟩
      · rw [hemit] at hunits
        exact ⟨congrArg Engine.units hunits.1, hunits.2⟩
      · rw [hemit] at hunits hemitted
        have hentry := h.find?_emitTopLevel hemit
        rw [hname] at hentry
        refine ⟨?_, congrArg (· + 1) hunits.2⟩
        dsimp only
        rw [hname, hemitted.units_runTopLevel (Option.isSome_of_eq_some hentry), hunits.1]
        rfl
  | malformed error | endOfInput => exact ⟨rfl, rfl⟩

theorem WellFormed.units_handleAll {s : Session} (h : s.WellFormed) {statements : List Statement}
    (hnamed : ∀ statement ∈ statements, statement.Named) :
    (s.handleAll statements).2.engine.units.reverse =
        s.engine.units.reverse ++ resident (s.sealedBy statements) ∧
      (s.handleAll statements).2.sealedUnits =
        s.sealedUnits + (s.sealedBy statements).length := by
  induction statements generalizing s with
  | nil => exact ⟨(List.append_nil _).symm, rfl⟩
  | cons statement statements ih =>
      obtain ⟨hfirst, hlater⟩ := List.forall_mem_cons.1 hnamed
      obtain ⟨hunits, hcount⟩ := h.units_handle hfirst
      obtain ⟨hunits', hcount'⟩ := ih (h.handle statement) hlater
      rw [handleAll_cons, sealedBy, resident_append]
      refine ⟨?_, ?_⟩
      · rw [hunits', hunits, List.reverse_append, reverse_resident_toList, List.append_assoc]
      · rw [hcount', hcount, List.length_append, Nat.add_assoc]

/-- The loaded units are, the oldest first, the sealed ones that define something beside their
expression, without that expression. -/
theorem units_reverse_eq_resident (settings : Settings) (limit : Nat) {statements : List Statement}
    (hparsed : ∀ statement ∈ statements, statement.Parsed) :
    let units := (Session.new settings limit).sealedBy statements
    let s := ((Session.new settings limit).handleAll statements).2
    s.engine.units.reverse = resident units ∧ s.sealedUnits = units.length ∧
      ∀ m ∈ s.engine.units, m.isBodiless = false ∧
        ∀ f ∈ m.functions, f.name ≠ Prototype.anonymousName := by
  intro units s
  obtain ⟨hunits, hcount⟩ := (WellFormed.new settings limit).units_handleAll
    fun statement hmem => (hparsed statement hmem).named
  have hresident : s.engine.units.reverse = resident units := hunits
  refine ⟨hresident, hcount.trans (Nat.zero_add _), fun m hm => forall_mem_resident units m ?_⟩
  rw [← hresident]
  exact List.mem_reverse.2 hm

/-- A unit whose run fails stays loaded without the expression. -/
theorem units_reverse_eq_resident_recursion :
    let statements : List Statement := [.definition ⟨⟨"f", [], ⟨4, 7⟩⟩, .call "f" [] ⟨8, 11⟩⟩,
      .topLevel (.anonymous (.call "f" [] ⟨0, 3⟩))]
    let units := (Session.new .standard 3).sealedBy statements
    let s := ((Session.new .standard 3).handleAll statements).2
    (∀ statement ∈ statements, statement.Parsed) ∧
      (s.engine.units.reverse = resident units ∧ s.sealedUnits = units.length ∧
        ∀ m ∈ s.engine.units, m.isBodiless = false ∧
          ∀ f ∈ m.functions, f.name ≠ Prototype.anonymousName) ∧
      (units.map fun m => m.functions.map Function.name) = [["f", Prototype.anonymousName]] ∧
      (resident units).map (fun m => m.functions.map Function.name) = [["f"]] := by
  intro statements units s
  have hparsed : ∀ statement ∈ statements, statement.Parsed :=
    List.forall_mem_cons.2 ⟨Statement.parsed_recursion, List.forall_mem_singleton.2
      Statement.parsed_call⟩
  exact ⟨hparsed, units_reverse_eq_resident .standard 3 hparsed, by decide, by decide⟩

end Session

end ScalarLang
