import ScalarLang.Proofs.Session.Admission
import ScalarLang.Proofs.Session.Arity

/-!
# The open unit and the recorded prototypes

The prototypes of the definitions and external declarations that succeed are the history of
a session (`Session.recordedBy`). The table of recorded prototypes is that history, and every
function of the open unit agrees with it. So looking up a callee never fails: it answers with
the latest prototype of the name in the history, whether the open unit had the function or
gets its declaration then (`Session.callees_eq_latest`).
-/

namespace ScalarLang

open Code

/-- The prototype that a statement with this outcome has recorded. -/
def Statement.recorded? (statement : Statement) : Outcome → Option Prototype
  | .defined .. | .declared .. => statement.prototype?
  | .evaluated .. | .failed => none

theorem Statement.recorded?_bare (statement : Statement) (o : Outcome) :
    statement.recorded? o.bare = statement.recorded? o := by
  cases o <;> rfl

/-- A session on trees records the prototype of a statement that succeeds. -/
theorem TreeSession.recorded_handle (t : TreeSession) (statement : Statement) :
    (t.handle statement).2.recorded =
      (statement.recorded? (t.handle statement).1.outcome).toList ++ t.recorded := by
  cases statement with
  | definition d =>
      rw [handle]
      cases t.check d <;> rfl
  | external q =>
      rw [handle]
      cases t.checkExternal q <;> rfl
  | topLevel d =>
      rw [handle]
      cases t.check d with
      | error error => rfl
      | ok _ =>
          dsimp only [Run.answer]
          cases (t.run d).result <;> rfl
  | malformed error | endOfInput => rfl

/-- A callee is that of the open unit, or else it is declared from its recorded prototype and is
in the open unit from then on. -/
theorem Environment.run_callee? {env : Environment} {u : OpenUnit}
    (hnodup : (u.module.functions.map Function.name).Nodup)
    (hvalid : ∀ p ∈ env.prototypes, p.repeated? = none) (name : String) :
    ∃ u', (env.callee? name).run u =
        .ok ((u.lookup? name).or ((env.prototype? name).map Prototype.signature)) u' ∧
      u'.lookup? name = (u.lookup? name).or ((env.prototype? name).map Prototype.signature) := by
  simp only [callee?, EStateM.run_bind, EStateM.run_get]
  cases hlookup : u.lookup? name with
  | some signature => exact ⟨u, rfl, hlookup⟩
  | none =>
      cases hfind : env.prototype? name with
      | none => exact ⟨u, rfl, hlookup⟩
      | some p =>
          obtain rfl : p.name = name := by simpa using List.find?_some hfind
          have hcheck : p.checkName u = .ok () := by
            rw [Prototype.checkName, hvalid p (List.mem_of_find?_eq_some hfind), hlookup]
          have hemit := p.run_emit hnodup
          rw [hcheck] at hemit
          obtain ⟨hthere, -⟩ | ⟨-, target, hrun⟩ := hemit
          · cases hlookup.symm.trans hthere
          · have hfound :
                (⟨u.module.name, u.others p.name ++ [p.declaration]⟩ : Module).find? p.name =
                  some p.declaration :=
              Module.find?_append_cons _ (fun g hg => OpenUnit.name_ne_of_mem_others hg) rfl
            simp only [EStateM.run_bind, hrun]
            exact ⟨_, rfl, congrArg (Option.map Function.signature) hfound⟩

namespace Session

/-- The prototype that handling a statement records. -/
def recorded? (s : Session) (statement : Statement) : Option Prototype :=
  statement.recorded? (s.handle statement).1.outcome

/-- The prototypes that handling statements records, the latest first. -/
def recordedBy (s : Session) : List Statement → List Prototype
  | [] => []
  | statement :: statements =>
    (s.handle statement).2.recordedBy statements ++ (s.recorded? statement).toList

namespace Realizes

variable {s : Session} {settings : Settings} {t : TreeSession} {statement : Statement}
  {statements : List Statement}

theorem prototypes_handle (h : s.Realizes settings t) (hnamed : statement.Named) :
    (s.handle statement).2.prototypes = (s.recorded? statement).toList ++ s.prototypes := by
  obtain ⟨hanswer, hrealizes⟩ := h.handle hnamed
  have hbare := statement.recorded?_bare (s.handle statement).1.outcome
  rw [hrealizes.recorded, t.recorded_handle, ← hanswer, h.recorded, recorded?, ← hbare]
  rfl

theorem prototypes_handleAll (h : s.Realizes settings t)
    (hnamed : ∀ statement ∈ statements, statement.Named) :
    (s.handleAll statements).2.prototypes = s.recordedBy statements ++ s.prototypes := by
  induction statements generalizing s t with
  | nil => rfl
  | cons statement statements ih =>
      obtain ⟨hfirst, hlater⟩ := List.forall_mem_cons.1 hnamed
      rw [handleAll_cons, ih (h.handle hfirst).2 hlater, h.prototypes_handle hfirst, recordedBy,
        List.append_assoc]

/-- Every function of the open unit has the arity that is recorded for its name. -/
theorem exists_prototype? (h : s.Realizes settings t) :
    ∀ f ∈ s.openUnit.module.functions, ∃ p, s.prototype? f.name = some p ∧
      p.params.length = f.params.length := by
  intro f hf
  have hdeclared := h.declared f hf
  rw [TreeSession.arity?, ← h.recorded] at hdeclared
  exact Option.map_eq_some_iff.1 hdeclared

/-- What the open unit has for a name is what is recorded for it. -/
theorem lookup?_or (h : s.Realizes settings t) (name : String) :
    (s.openUnit.lookup? name).or ((s.prototype? name).map Prototype.signature) =
      (s.prototype? name).map Prototype.signature := by
  cases hlookup : s.openUnit.lookup? name with
  | none => rfl
  | some signature =>
      obtain ⟨f, hf, rfl⟩ := Option.map_eq_some_iff.1 hlookup
      obtain rfl : f.name = name := by simpa using List.find?_some hf
      -- The function may be older than the latest prototype of its name, but has its arity.
      obtain ⟨p, hp, hcount⟩ := h.exists_prototype? f (List.mem_of_find?_eq_some hf)
      have hname : p.name = f.name := by simpa using List.find?_some hp
      rw [hp, Option.map_some, Prototype.signature, hname, hcount]
      rfl

/-- Looking up a callee answers with what is recorded, and puts it into the open unit. -/
theorem callee?_eq (h : s.Realizes settings t) (name : String) :
    (s.callee? name).1 = .ok ((s.prototype? name).map Prototype.signature) ∧
      (s.callee? name).2.openUnit.lookup? name =
        (s.prototype? name).map Prototype.signature := by
  have hvalid : ∀ p ∈ s.environment.prototypes, p.repeated? = none := fun p hp =>
    (h.sound.recorded p (h.recorded ▸ hp)).2
  obtain ⟨u', hrun, hlookup⟩ := Environment.run_callee? h.opened.nodup hvalid name
  have hfound := h.lookup?_or name
  rw [callee?, emit_eq, hrun]
  exact ⟨congrArg Except.ok hfound, hlookup.trans hfound⟩

end Realizes

theorem prototypes_reached (settings : Settings) (limit : Nat) {statements : List Statement}
    (hnamed : ∀ statement ∈ statements, statement.Named) :
    ((new settings limit).handleAll statements).2.prototypes =
      (new settings limit).recordedBy statements :=
  ((Realizes.new settings limit).prototypes_handleAll hnamed).trans (List.append_nil _)

/-- Behind any statements the table of prototypes, the open unit and the history agree, and a
callee is looked up with the latest prototype of its name that a definition or an external
declaration has recorded. -/
theorem callees_eq_latest (settings : Settings) (limit : Nat) {statements : List Statement}
    (hparsed : ∀ statement ∈ statements, statement.Parsed) :
    let s := ((Session.new settings limit).handleAll statements).2
    let history := (Session.new settings limit).recordedBy statements
    (∀ f ∈ s.openUnit.module.functions, ∃ p, s.prototype? f.name = some p ∧
      p.params.length = f.params.length) ∧
    (∀ p ∈ s.prototypes, p.params.Nodup ∧ p.name ≠ Prototype.anonymousName) ∧
    s.bindings = [] ∧
    ∀ name,
      let latest := history.find? (·.name == name)
      (s.callee? name).1 = .ok (latest.map Prototype.signature) ∧
      (s.callee? name).2.openUnit.lookup? name = latest.map Prototype.signature ∧
      ((s.callee? name).1 = .ok none ↔ ∀ p ∈ history, p.name ≠ name) := by
  intro s history
  have hnamed : ∀ statement ∈ statements, statement.Named :=
    fun statement hmem => (hparsed statement hmem).named
  have hrealizes := ((Realizes.new settings limit).handleAll hnamed).2
  refine ⟨hrealizes.exists_prototype?, fun p hp => ?_, hrealizes.unbound, fun name => ?_⟩
  · obtain ⟨hname, hrepeated⟩ := hrealizes.sound.recorded p (hrealizes.recorded ▸ hp)
    exact ⟨Prototype.repeated?_eq_none_iff.1 hrepeated, hname⟩
  · obtain ⟨hcallee, hlookup⟩ := hrealizes.callee?_eq name
    have hlatest : s.prototype? name = history.find? (·.name == name) := by
      rw [prototype?, prototypes_reached settings limit hnamed]
    rw [hlatest] at hcallee hlookup
    refine ⟨hcallee, hlookup, ?_⟩
    rw [hcallee, Except.ok.injEq, Option.map_eq_none_iff, List.find?_eq_none]
    simp

/-- The function `f` got a parameter when it was defined again, `g` is in a sealed unit, and `h`
was never declared. -/
theorem callees_eq_latest_redefinition :
    let s := ((new .standard 3).handleAll redefinition).2
    (∀ statement ∈ redefinition, statement.Parsed) ∧
      (new .standard 3).recordedBy redefinition =
        [⟨"f", ["x"], ⟨4, 8⟩⟩, ⟨"g", [], ⟨4, 7⟩⟩, ⟨"f", [], ⟨4, 7⟩⟩] ∧
      (s.callee? "f").1 = .ok (some ⟨"f", 1⟩) ∧ (s.callee? "g").1 = .ok (some ⟨"g", 0⟩) ∧
      (s.callee? "g").2.openUnit.lookup? "g" = some ⟨"g", 0⟩ ∧
      (s.callee? "h").1 = .ok none := by
  intro s
  obtain ⟨-, -, -, hcallee⟩ := callees_eq_latest .standard 3 parsed_redefinition
  have hhistory : (new .standard 3).recordedBy redefinition =
      [⟨"f", ["x"], ⟨4, 8⟩⟩, ⟨"g", [], ⟨4, 7⟩⟩, ⟨"f", [], ⟨4, 7⟩⟩] := by
    have hnamed : ∀ statement ∈ redefinition, statement.Named :=
      fun statement hmem => (parsed_redefinition statement hmem).named
    rw [← prototypes_reached .standard 3 hnamed,
      ((Realizes.new .standard 3).handleAll hnamed).2.recorded]
    rfl
  rw [hhistory] at hcallee
  exact ⟨parsed_redefinition, hhistory, (hcallee "f").1, (hcallee "g").1, (hcallee "g").2.1,
    (hcallee "h").1⟩

end Session

end ScalarLang
