import ScalarLang.Proofs.Evaluation.Partition
import ScalarLang.Proofs.Grammar.Program
import ScalarLang.Proofs.Session.Acceptance

/-!
# Sealing the open unit early

An expression at the top level seals the open unit. If a program defines every name at
most once and gives all prototypes of a name one number of parameters, the session
answers to it in the same way when numbers are evaluated between its statements
(`Session.handleAll_rotated`). Two sessions on trees are related then by
`TreeSession.Rotates`: they hold the same definitions in order, in different units.
-/

namespace ScalarLang

/-- The prototype that a definition or an external declaration is about. -/
def Statement.prototype? : Statement → Option Prototype
  | .definition d => some d.prototype
  | .external q => some q
  | .topLevel _ | .malformed _ | .endOfInput => none

/-- The name that a definition is about. -/
def Statement.definedName? : Statement → Option String
  | .definition d => some d.prototype.name
  | .external _ | .topLevel _ | .malformed _ | .endOfInput => none

/-- Every name is defined at most once, and its prototypes have one number of parameters. -/
structure Statement.Consistent (program : List Statement) : Prop where
  nodup : (program.filterMap definedName?).Nodup
  arity : ∀ q ∈ program.filterMap prototype?, ∀ q' ∈ program.filterMap prototype?,
    q.name = q'.name → q.params.length = q'.params.length

namespace TreeSession

/-- The definitions of all units, the latest first. -/
def definitions (t : TreeSession) : List Definition := t.opened ++ t.sealed.flatten

/-- The sessions hold the same definitions in order, whatever the units they are in. -/
structure Rotates (t t' : TreeSession) : Prop where
  limit : t.limit = t'.limit
  recorded : t.recorded = t'.recorded
  definitions : t.definitions = t'.definitions

/-- What the session accepted is consistent with the statements to come. -/
structure Precedes (t : TreeSession) (later : List Statement) : Prop where
  nodup : (later.filterMap Statement.definedName? ++
    t.definitions.map (·.prototype.name)).Nodup
  arity : ∀ q ∈ t.recorded ++ later.filterMap Statement.prototype?,
    ∀ q' ∈ t.recorded ++ later.filterMap Statement.prototype?,
      q.name = q'.name → q.params.length = q'.params.length
  recorded : ∀ q ∈ t.recorded, q.name ≠ Prototype.anonymousName
  defined : ∀ d ∈ t.definitions, d.prototype.name ≠ Prototype.anonymousName

variable {t t' : TreeSession}

theorem Precedes.new {program : List Statement} (h : Statement.Consistent program) (limit : Nat) :
    (TreeSession.new limit).Precedes program where
  nodup := by
    rw [show (TreeSession.new limit).definitions.map (·.prototype.name) = [] from rfl,
      List.append_nil]
    exact h.nodup
  arity := h.arity
  recorded := nofun
  defined := nofun

/-- Only what was accepted counts, not the units. -/
theorem Precedes.rotate {later : List Statement} (h : t.Precedes later) (hr : t.Rotates t') :
    t'.Precedes later where
  nodup := hr.definitions ▸ h.nodup
  arity := hr.recorded ▸ h.arity
  recorded := hr.recorded ▸ h.recorded
  defined := hr.definitions ▸ h.defined

theorem Precedes.tail {statement : Statement} {later : List Statement}
    (h : t.Precedes (statement :: later)) : t.Precedes later := by
  have hnames := (List.sublist_cons_self statement later).filterMap Statement.definedName?
  have hprototypes := (List.sublist_cons_self statement later).filterMap Statement.prototype?
  have hsubset := (hprototypes.append_left t.recorded).subset
  exact {
    nodup := h.nodup.sublist (hnames.append_right _)
    arity := fun q hq q' hq' => h.arity q (hsubset hq) q' (hsubset hq')
    recorded := h.recorded
    defined := h.defined }

/-- What is accepted stays consistent with the statements to come. -/
theorem Precedes.accept {statement : Statement} {later : List Statement}
    (h : t.Precedes (statement :: later)) (hnamed : statement.Named) :
    (t.accept statement).Precedes later := by
  cases statement with
  | definition d =>
      have hperm : (d.prototype :: (t.recorded ++ later.filterMap Statement.prototype?)).Perm
          (t.recorded ++ d.prototype :: later.filterMap Statement.prototype?) :=
        List.perm_middle.symm
      refine ⟨List.perm_middle.nodup_iff.2 h.nodup, fun q hq q' hq' => ?_, ?_, ?_⟩
      · exact h.arity q (hperm.subset hq) q' (hperm.subset hq')
      · exact List.forall_mem_cons.2 ⟨hnamed, h.recorded⟩
      · exact List.forall_mem_cons.2 ⟨hnamed, h.defined⟩
  | external q =>
      have hperm : (q :: (t.recorded ++ later.filterMap Statement.prototype?)).Perm
          (t.recorded ++ q :: later.filterMap Statement.prototype?) := List.perm_middle.symm
      refine { h.tail with
        arity := fun q hq q' hq' => ?_
        recorded := List.forall_mem_cons.2 ⟨hnamed, h.recorded⟩ }
      exact h.arity q (hperm.subset hq) q' (hperm.subset hq')
  | topLevel d => exact { h.tail with }
  | malformed error | endOfInput => exact h.tail

/-- The number of parameters of a recorded prototype is that of the ones to come. -/
theorem Precedes.checkArity_eq {later : List Statement} (h : t.Precedes later) {q : Prototype}
    (hq : q ∈ later.filterMap Statement.prototype?) : t.checkArity q = .ok () := by
  rw [checkArity]
  cases harity : t.arity? q.name with
  | none => rfl
  | some arity =>
      obtain ⟨q', hfind, rfl⟩ := Option.map_eq_some_iff.1 harity
      have hname : q'.name = q.name := by simpa using List.find?_some hfind
      have hmem := List.mem_append_left (later.filterMap Statement.prototype?)
        (List.mem_of_find?_eq_some hfind)
      exact if_pos (h.arity q' hmem q (List.mem_append_right _ hq) hname)

/-- A new name with the number of parameters of its prototypes is not refused. -/
theorem Precedes.checkName_eq {statement : Statement} {later : List Statement} {d : Definition}
    (h : t.Precedes (statement :: later)) (hnamed : statement.Named)
    (hd : statement = .definition d ∨ statement = .topLevel d) :
    t.checkName d.prototype = match d.prototype.repeated? with
      | some param => .error (.duplicateParameter d.prototype.name param d.prototype.span)
      | none => .ok () := by
  have hnew : t.defines d.prototype.name = false ∧ t.checkArity d.prototype = .ok () := by
    rcases hd with rfl | rfl
    · refine ⟨?_, h.checkArity_eq List.mem_cons_self⟩
      have hnodup := (List.nodup_cons.1 h.nodup).1
      rw [defines, Definition.find?_eq_none_iff.2]
      · rfl
      · intro d' hd' hname
        refine hnodup (List.mem_append_right _ (List.mem_map.2 ⟨d', ?_, hname⟩))
        exact List.mem_append_left _ hd'
    · have harity : t.arity? d.prototype.name = none := by
        rw [hnamed, arity?, List.find?_eq_none.2]
        · rfl
        · intro q hq
          simpa using h.recorded q hq
      refine ⟨?_, by rw [checkArity, harity]⟩
      rw [defines, hnamed, Definition.find?_eq_none_iff.2]
      · rfl
      · exact fun d' hd' => h.defined d' (List.mem_append_left _ hd')
  rw [checkName, hnew.1, hnew.2]
  rfl

/-- The sessions refuse the same statements. -/
theorem Rotates.check_eq (hr : t.Rotates t') {statement : Statement} {later : List Statement}
    {d : Definition} (h : t.Precedes (statement :: later)) (hnamed : statement.Named)
    (hd : statement = .definition d ∨ statement = .topLevel d) : t.check d = t'.check d := by
  have harity : t.arity? = t'.arity? := by
    funext name
    rw [arity?, hr.recorded, arity?]
  rw [check, check, h.checkName_eq hnamed hd, (h.rotate hr).checkName_eq hnamed hd, harity]

theorem flatten_units (t : TreeSession) (d : Definition) :
    ((d :: t.opened) :: t.sealed : Units).flatten = d :: t.definitions := rfl

/-- The sessions evaluate an expression at the top level to the same value. -/
theorem Rotates.run_eq (hr : t.Rotates t') {later : List Statement} {d : Definition}
    (h : t.Precedes later) (hnamed : (Statement.topLevel d).Named) : t.run d = t'.run d := by
  have hflatten : ((d :: t.opened) :: t.sealed : Units).flatten =
      ((d :: t'.opened) :: t'.sealed : Units).flatten := by
    rw [flatten_units, flatten_units, hr.definitions]
  have hnodup : (((d :: t.opened) :: t.sealed : Units).flatten.map (·.prototype.name)).Nodup := by
    rw [flatten_units, List.map_cons, List.nodup_cons]
    refine ⟨fun hmem => ?_, h.nodup.sublist (List.sublist_append_right _ _)⟩
    obtain ⟨d', hd', hname⟩ := List.mem_map.1 hmem
    exact h.defined d' hd' (hname.trans hnamed)
  rw [run, run, hr.limit, Units.evaluate_eq_of_flatten_eq hflatten hnodup _ _ List.mem_cons_self
    List.mem_cons_self]

theorem Rotates.accept (hr : t.Rotates t') (statement : Statement) :
    (t.accept statement).Rotates (t'.accept statement) := by
  cases statement with
  | definition d =>
      exact ⟨hr.limit, congrArg (d.prototype :: ·) hr.recorded, congrArg (d :: ·) hr.definitions⟩
  | external q => exact { hr with recorded := congrArg (q :: ·) hr.recorded }
  | topLevel d => exact { hr with definitions := hr.definitions }
  | malformed error | endOfInput => exact hr

theorem Rotates.checkExternal_eq (hr : t.Rotates t') {q : Prototype} {later : List Statement}
    (h : t.Precedes (.external q :: later)) : t.checkExternal q = t'.checkExternal q := by
  rw [checkExternal, checkExternal, h.checkArity_eq List.mem_cons_self,
    (h.rotate hr).checkArity_eq List.mem_cons_self]

theorem Rotates.accepts_eq (hr : t.Rotates t') {statement : Statement} {later : List Statement}
    (h : t.Precedes (statement :: later)) (hnamed : statement.Named) :
    t.accepts statement = t'.accepts statement := by
  cases statement with
  | definition d => exact congrArg Except.isOk (hr.check_eq h hnamed (.inl rfl))
  | external q => exact congrArg Except.isOk (hr.checkExternal_eq h)
  | topLevel d => exact congrArg Except.isOk (hr.check_eq h hnamed (.inr rfl))
  | malformed error | endOfInput => rfl

/-- Both sessions give the same answer. -/
theorem Rotates.answer_eq (hr : t.Rotates t') {statement : Statement} {later : List Statement}
    (h : t.Precedes (statement :: later)) (hnamed : statement.Named) :
    (t.handle statement).1 = (t'.handle statement).1 := by
  cases statement with
  | definition d =>
      rw [TreeSession.handle, TreeSession.handle, ← hr.check_eq h hnamed (.inl rfl)]
      cases t.check d <;> rfl
  | external q =>
      rw [TreeSession.handle, TreeSession.handle, ← hr.checkExternal_eq h]
      cases t.checkExternal q <;> rfl
  | topLevel d =>
      rw [TreeSession.handle, TreeSession.handle, ← hr.check_eq h hnamed (.inr rfl),
        ← hr.run_eq h hnamed]
      cases t.check d <;> rfl
  | malformed error | endOfInput => rfl

/-- Both sessions stay related, and seal as many units. -/
theorem Rotates.handle (hr : t.Rotates t') {statement : Statement} {later : List Statement}
    (h : t.Precedes (statement :: later)) (hnamed : statement.Named) :
    (t.handle statement).2.Rotates (t'.handle statement).2 ∧
      (t.handle statement).2.Precedes later ∧
      (t'.handle statement).2.sealed.length + t.sealed.length =
        (t.handle statement).2.sealed.length + t'.sealed.length := by
  rw [t.handle_snd, t'.handle_snd, ← hr.accepts_eq h hnamed]
  cases t.accepts statement with
  | false => exact ⟨hr, h.tail, Nat.add_comm _ _⟩
  | true =>
      refine ⟨hr.accept statement, h.accept hnamed, ?_⟩
      cases statement with
      | topLevel d =>
          have hlength : t'.sealed.length + 1 + t.sealed.length =
              t.sealed.length + 1 + t'.sealed.length := by omega
          exact hlength
      | definition | external | malformed | endOfInput => exact Nat.add_comm _ _

/-- A number between the statements seals the open unit, and keeps the sessions related. -/
theorem Rotates.seal (hr : t.Rotates t') {later : List Statement} (h : t.Precedes later)
    (value : Float) (span : Span) :
    t.Rotates (t'.handle (.topLevel (.anonymous (.number value span)))).2 ∧
      (t'.handle (.topLevel (.anonymous (.number value span)))).2.sealed.length =
        t'.sealed.length + 1 := by
  have hlater : t'.Precedes (.topLevel (.anonymous (.number value span)) :: later) :=
    { h.rotate hr with }
  have hcheck : t'.check (.anonymous (.number value span)) = .ok () := by
    rw [check, hlater.checkName_eq rfl (.inr rfl)]
    rfl
  rw [TreeSession.handle, hcheck]
  exact ⟨{ hr with definitions := hr.definitions }, rfl⟩

end TreeSession

/-- The statements of a script, where a span stands for the number zero read from it. -/
def Rotation.statement : Statement ⊕ Span → Statement :=
  Sum.elim id fun span => .topLevel (.anonymous (.number 0 span))

/-- The statements of a script without the numbers between them. -/
def Rotation.originals (script : List (Statement ⊕ Span)) : List Statement :=
  script.filterMap Sum.getLeft?

@[simp] theorem Rotation.originals_inl (statement : Statement) (script : List (Statement ⊕ Span)) :
    originals (.inl statement :: script) = statement :: originals script := rfl

@[simp] theorem Rotation.originals_inr (span : Span) (script : List (Statement ⊕ Span)) :
    originals (.inr span :: script) = originals script := rfl

/-- The answers to the statements of a script, those to the numbers between them left out. -/
def Rotation.answers : List (Statement ⊕ Span) → List Answer → List Answer
  | .inl _ :: script, answer :: answers => answer :: Rotation.answers script answers
  | .inr _ :: script, _ :: answers => Rotation.answers script answers
  | _, _ => []

theorem Rotation.map_answers (f : Answer → Answer) (script : List (Statement ⊕ Span))
    (as : List Answer) : (answers script as).map f = answers script (as.map f) := by
  induction script generalizing as with
  | nil => rfl
  | cons entry script ih =>
      cases as with
      | nil => cases entry <;> rfl
      | cons answer as =>
          cases entry with
          | inl statement => exact congrArg (f answer :: ·) (ih as)
          | inr span => exact ih as

theorem Rotation.named_statement {script : List (Statement ⊕ Span)}
    (h : ∀ statement ∈ originals script, statement.Named) :
    ∀ statement ∈ script.map Rotation.statement, statement.Named := by
  intro statement hmem
  obtain ⟨entry, hentry, rfl⟩ := List.mem_map.1 hmem
  cases entry with
  | inl original => exact h original (List.mem_filterMap.2 ⟨_, hentry, rfl⟩)
  | inr span => rfl

namespace TreeSession

variable {t t' : TreeSession}

/-- A script is answered to as its statements are without the numbers between them. -/
theorem Rotates.handleAll (hr : t.Rotates t') {script : List (Statement ⊕ Span)}
    (h : t.Precedes (Rotation.originals script))
    (hnamed : ∀ statement ∈ Rotation.originals script, statement.Named) :
    Rotation.answers script (t'.handleAll (script.map Rotation.statement)).1 =
        (t.handleAll (Rotation.originals script)).1 ∧
      (t'.handleAll (script.map Rotation.statement)).2.sealed.length + t.sealed.length =
        (t.handleAll (Rotation.originals script)).2.sealed.length + t'.sealed.length +
          script.countP Sum.isRight := by
  induction script generalizing t t' with
  | nil => exact ⟨rfl, Nat.add_comm _ _⟩
  | cons entry script ih =>
      cases entry with
      | inl statement =>
          have hfirst := hnamed statement List.mem_cons_self
          obtain ⟨hrotates, hprecedes, hlength⟩ := hr.handle h hfirst
          obtain ⟨hanswers, hlengths⟩ := ih hrotates hprecedes fun later hlater =>
            hnamed later (List.mem_cons_of_mem statement hlater)
          refine ⟨congrArg₂ List.cons (hr.answer_eq h hfirst).symm hanswers, ?_⟩
          rw [List.countP_cons_of_neg (by simp), Rotation.originals_inl, handleAll_cons,
            List.map_cons, handleAll_cons]
          dsimp only [Rotation.statement, Sum.elim_inl, id_eq] at hlengths hlength ⊢
          omega
      | inr span =>
          obtain ⟨hrotates, hlength⟩ := hr.seal h 0 span
          obtain ⟨hanswers, hlengths⟩ := ih hrotates h hnamed
          refine ⟨hanswers, ?_⟩
          rw [List.countP_cons_of_pos rfl, Rotation.originals_inr, List.map_cons, handleAll_cons]
          dsimp only [Rotation.statement, Sum.elim_inr] at hlengths hlength ⊢
          omega

end TreeSession

/-- Evaluating zeros between the statements of a consistent program seals a unit each, and leaves
the answers to the statements. -/
theorem Session.handleAll_rotated (settings : Settings) (limit : Nat)
    (script : List (Statement ⊕ Span))
    (hparsed : ∀ statement ∈ Rotation.originals script, statement.Parsed)
    (h : Statement.Consistent (Rotation.originals script)) :
    let rotated := (Session.new settings limit).handleAll (script.map Rotation.statement)
    let plain := (Session.new settings limit).handleAll (Rotation.originals script)
    (Rotation.answers script rotated.1).map Answer.bare = plain.1.map Answer.bare ∧
      rotated.2.sealedUnits = plain.2.sealedUnits + script.countP Sum.isRight := by
  intro rotated plain
  have hnamed : ∀ statement ∈ Rotation.originals script, statement.Named :=
    fun statement hmem => (hparsed statement hmem).named
  have hnew := Session.Realizes.new settings limit
  have hrotates : (TreeSession.new limit).Rotates (.new limit) := ⟨rfl, rfl, rfl⟩
  obtain ⟨hplain, hrealizes⟩ := hnew.handleAll hnamed
  obtain ⟨hrotated, hrealizes'⟩ := hnew.handleAll (Rotation.named_statement hnamed)
  obtain ⟨hanswers, hlength⟩ := hrotates.handleAll (.new h limit) hnamed
  rw [Rotation.map_answers, hrotated, hplain, hrealizes.sealedUnits, hrealizes'.sealedUnits]
  exact ⟨hanswers, hlength⟩

/-- A zero on either side of a definition, in front of a call of it. -/
theorem Session.handleAll_rotated_recursion :
    let loop : Statement := .definition ⟨⟨"f", [], ⟨4, 7⟩⟩, .call "f" [] ⟨8, 11⟩⟩
    let call : Statement := .topLevel (.anonymous (.call "f" [] ⟨0, 3⟩))
    let script : List (Statement ⊕ Span) := [.inr ⟨0, 1⟩, .inl loop, .inr ⟨0, 1⟩, .inl call]
    let rotated := (Session.new .standard 3).handleAll (script.map Rotation.statement)
    let plain := (Session.new .standard 3).handleAll [loop, call]
    (∀ statement ∈ [loop, call], statement.Parsed) ∧ Statement.Consistent [loop, call] ∧
      (Rotation.answers script rotated.1).map Answer.bare = plain.1.map Answer.bare ∧
      rotated.2.sealedUnits = plain.2.sealedUnits + 2 := by
  intro loop call script rotated plain
  have hparsed : ∀ statement ∈ [loop, call], statement.Parsed :=
    List.forall_mem_cons.2 ⟨Statement.parsed_recursion, List.forall_mem_singleton.2
      Statement.parsed_call⟩
  have h : Statement.Consistent [loop, call] := ⟨by decide, by decide⟩
  exact ⟨hparsed, h, handleAll_rotated .standard 3 script hparsed h⟩

end ScalarLang
