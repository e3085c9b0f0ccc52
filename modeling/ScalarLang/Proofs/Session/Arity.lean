import ScalarLang.Proofs.Grammar.Operators
import ScalarLang.Proofs.Session.Binding

/-!
# Calls with a wrong number of arguments

A call is checked against the newest definition of its name, and runs against what is the
newest definition then. Without external declarations every call of a unit agrees with the
definitions up to that unit (`Units.Linked`). So a call that fails for the number of its
arguments comes from a sealed unit, and a newer unit has defined its name again with another
number of parameters (`Session.superseded_of_callArity`).
-/

namespace ScalarLang

open Code

namespace Definition

theorem find?_append (unit older : List Definition) (name : String) :
    find? (unit ++ older) name = (find? unit name).or (find? older name) := List.find?_append

end Definition

/-- The place of the body when `sealed` more units were sealed before. -/
def Session.Body.behind (sealed : Nat) (body : Session.Body) : Session.Body :=
  { body with unit := body.unit + sealed }

theorem Session.Body.find?_map_behind (sealed : Nat) (history : List Session.Body) (name : String) :
    (history.map (behind sealed)).find? (·.function.name == name) =
      (history.find? (·.function.name == name)).map (behind sealed) := List.find?_map ..

namespace Units

/-- Every call agrees with the newest definition of its name, up to the unit that calls. -/
def Linked : Units → Prop
  | [] => True
  | own :: older =>
    (∀ d ∈ own, ∀ signature ∈ d.body.calls,
      (Definition.find? (own ++ older.flatten) signature.name).map (·.prototype.params.length) =
        some signature.arity) ∧ Linked older

theorem Linked.of_append {newer older : Units} (h : Linked (newer ++ older)) : Linked older := by
  induction newer with
  | nil => exact h
  | cons unit newer ih => exact ih h.2

/-- A call runs the definition of its own unit, or else the newest of all units. -/
theorem resolve?_of_find? {units : Units} {own : List Definition} {name : String} {d : Definition}
    (h : Definition.find? (own ++ units.flatten) name = some d) :
    ∃ unit, units.resolve? own name = some (.definition unit d) := by
  have hfound : ((own :: units).findSome? fun unit =>
      (Definition.find? unit name).map (unit, ·)).map Prod.snd = some d := by
    rw [← h, ← List.flatten_cons, Definition.find?, List.find?_flatten]
    induction own :: units with
    | nil => rfl
    | cons unit units ih =>
        rw [List.findSome?_cons, List.findSome?_cons, ← ih, Definition.find?]
        cases unit.find? (·.prototype.name == name) <;> rfl
  obtain ⟨⟨unit, d⟩, hfind, rfl⟩ := Option.map_eq_some_iff.1 hfound
  exact ⟨unit, by rw [resolve?, hfind]⟩

/-- A call in linked units runs a definition. If that takes another number of arguments, it is one
of a newer unit, and the one that the call was checked against is in an older unit. -/
theorem Linked.exists_resolve? {newer older : Units} {own : List Definition}
    (h : Linked (newer ++ own :: older)) {g : Definition} (hg : g ∈ own) {signature : Signature}
    (hcall : signature ∈ g.body.calls) :
    ∃ unit d, (newer ++ own :: older).resolve? own signature.name = some (.definition unit d) ∧
      (d.prototype.params.length ≠ signature.arity →
        Definition.find? own signature.name = none ∧
        Definition.find? newer.flatten signature.name = some d ∧
        ∃ old, Definition.find? older.flatten signature.name = some old ∧
          old.prototype.params.length = signature.arity) := by
  obtain ⟨checked, hchecked, harity⟩ := Option.map_eq_some_iff.1 (h.of_append.1 g hg _ hcall)
  have hflatten : (newer ++ own :: older).flatten = newer.flatten ++ (own ++ older.flatten) := by
    rw [List.flatten_append, List.flatten_cons]
  cases hown : Definition.find? own signature.name with
  | some d =>
      rw [Definition.find?_append, hown] at hchecked
      cases hchecked
      have hfind : Definition.find? (own ++ (newer ++ own :: older).flatten) signature.name =
          some checked := by
        rw [Definition.find?_append, hown]
        rfl
      obtain ⟨unit, hresolve⟩ := resolve?_of_find? hfind
      exact ⟨unit, checked, hresolve, fun hne => absurd harity hne⟩
  | none =>
      have hfind : Definition.find? (own ++ (newer ++ own :: older).flatten) signature.name =
          (Definition.find? newer.flatten signature.name).or (some checked) := by
        rw [Definition.find?_append, hown, hflatten, Option.none_or, Definition.find?_append,
          hchecked]
      cases hnewer : Definition.find? newer.flatten signature.name with
      | some d =>
          rw [hnewer] at hfind
          obtain ⟨unit, hresolve⟩ := resolve?_of_find? hfind
          rw [Definition.find?_append, hown, Option.none_or] at hchecked
          exact ⟨unit, d, hresolve, fun _ => ⟨rfl, rfl, checked, hchecked, harity⟩⟩
      | none =>
          rw [hnewer] at hfind
          obtain ⟨unit, hresolve⟩ := resolve?_of_find? hfind
          exact ⟨unit, checked, hresolve, fun hne => absurd harity hne⟩

/-- The history of two runs of units is that of the later ones, in front of the other. -/
theorem bodies_append (newer older : Units) :
    Units.bodies (newer ++ older) =
      (Units.bodies newer).map (Session.Body.behind older.length) ++ Units.bodies older := by
  induction newer with
  | nil => rfl
  | cons unit newer ih =>
      rw [List.cons_append, bodies, bodies, ih, List.map_append, List.map_map, List.append_assoc,
        List.length_append]
      rfl

/-- The latest definition of a name is the latest body of the name. -/
theorem find?_bodies {units : Units} {name : String} {d : Definition}
    (h : Definition.find? units.flatten name = some d) :
    ∃ unit < units.length,
      (Units.bodies units).find? (·.function.name == name) = some ⟨d.compiled, unit⟩ := by
  induction units with
  | nil => cases h
  | cons own older ih =>
      rw [List.flatten_cons, Definition.find?_append] at h
      rw [bodies, List.find?_append, find?_map_body]
      cases hd : Definition.find? own name with
      | some d' =>
          rw [hd] at h
          cases h
          exact ⟨older.length, Nat.lt_succ_self _, rfl⟩
      | none =>
          rw [hd] at h
          obtain ⟨unit, hunit, hfind⟩ := ih h
          exact ⟨unit, Nat.lt_succ_of_lt hunit, hfind⟩

theorem unit_lt_of_mem_bodies {units : Units} :
    ∀ body ∈ Units.bodies units, body.unit < units.length := by
  induction units with
  | nil => nofun
  | cons own older ih =>
      refine List.forall_mem_append.2 ⟨fun body hbody => ?_, fun body hbody => ?_⟩
      · obtain ⟨d, -, rfl⟩ := List.mem_map.1 hbody
        exact Nat.lt_succ_self _
      · exact Nat.lt_succ_of_lt (ih body hbody)

/-- What comes from a unit that does not define a name has other names. -/
theorem name_ne_of_unit_eq (newer older : Units) {own : List Definition} {name : String}
    (hown : Definition.find? own name = none) : ∀ body ∈ Units.bodies (newer ++ own :: older),
      body.unit = older.length → body.function.name ≠ name := by
  rw [bodies_append, bodies]
  intro body hbody hunit
  rcases List.mem_append.1 hbody with hbody | hbody
  · obtain ⟨body, -, rfl⟩ := List.mem_map.1 hbody
    dsimp only [Session.Body.behind, List.length_cons] at hunit
    omega
  · rcases List.mem_append.1 hbody with hbody | hbody
    · obtain ⟨d, hd, rfl⟩ := List.mem_map.1 hbody
      exact Definition.find?_eq_none_iff.1 hown d hd
    · exact absurd hunit (Nat.ne_of_lt (unit_lt_of_mem_bodies body hbody))

end Units

/-- In the history of a session, a caller of the unit at the place `own` was accepted when the
latest definition of a name, in an older unit, had `found` parameters. The latest definition of the
name came later, in a newer unit, and has `expected` parameters. The unit of the caller does not
define the name. -/
def Session.Superseded (history : List Session.Body) (own : Nat) (caller : Function)
    (name : String) (expected found : Nat) : Prop :=
  ∃ later earlier new old, history = later ++ ⟨caller, own⟩ :: earlier ∧
    (∀ body ∈ history, body.unit = own → body.function.name ≠ name) ∧
    (later.find? (·.function.name == name) = some new ∧ own < new.unit ∧
      new.function.params.length = expected) ∧
    earlier.find? (·.function.name == name) = some old ∧ old.unit < own ∧
      old.function.params.length = found

/-- A definition of a newer unit supersedes one of an older unit. -/
theorem Units.superseded {newer older : Units} {own : List Definition} {g new old : Definition}
    (hg : g ∈ own) {name : String} (hown : Definition.find? own name = none)
    (hnew : Definition.find? newer.flatten name = some new)
    (hold : Definition.find? older.flatten name = some old) :
    Session.Superseded (Units.bodies (newer ++ own :: older)) older.length g.compiled name
      new.prototype.params.length old.prototype.params.length := by
  obtain ⟨unit, -, hnewest⟩ := find?_bodies hnew
  obtain ⟨unit', hunit', hchecked⟩ := find?_bodies hold
  have hnames := name_ne_of_unit_eq newer older hown
  obtain ⟨own₁, own₂, rfl⟩ := List.append_of_mem hg
  have hne := Definition.find?_eq_none_iff.1 hown
  have hbehind : Definition.find? own₂ name = none :=
    Definition.find?_eq_none_iff.2 fun d hd => hne d (by simp [hd])
  refine ⟨(Units.bodies newer).map (.behind (older.length + 1)) ++
      own₁.map fun d => ⟨d.compiled, older.length⟩,
    (own₂.map fun d => ⟨d.compiled, older.length⟩) ++ Units.bodies older,
    .behind (older.length + 1) ⟨new.compiled, unit⟩, ⟨old.compiled, unit'⟩, ?_, hnames,
    ⟨?_, ?_, rfl⟩, ?_, hunit', rfl⟩
  · rw [bodies_append, bodies, List.map_append, List.map_cons]
    simp only [List.append_assoc, List.cons_append]
    rfl
  · rw [List.find?_append, Session.Body.find?_map_behind, hnewest]
    rfl
  · exact Nat.lt_of_lt_of_le (Nat.lt_succ_self _) (Nat.le_add_left _ _)
  · rw [List.find?_append, find?_map_body, hbehind]
    exact hchecked

namespace TreeSession

/-- Every prototype recorded is that of a definition, and every call agrees with the definitions. -/
structure Linked (t : TreeSession) : Prop where
  recorded : t.recorded = t.definitions.map (·.prototype)
  linked : Units.Linked (t.opened :: t.sealed)

namespace Linked

variable {t : TreeSession} {d : Definition}

/-- What is recorded for a name is the number of parameters of its newest definition. -/
theorem arity?_eq (h : t.Linked) (name : String) :
    t.arity? name = (Definition.find? t.definitions name).map (·.prototype.params.length) := by
  rw [arity?, h.recorded, List.find?_map, Option.map_map]
  rfl

/-- With a definition that was checked, every call still agrees with the definitions. -/
theorem cons (h : t.Linked) (hcheck : t.check d = .ok ()) :
    Units.Linked ((d :: t.opened) :: t.sealed) := by
  obtain ⟨hname, hbody⟩ := check_eq_ok hcheck
  obtain ⟨-, -, hcount⟩ := checkName_eq_ok_iff.1 hname
  refine ⟨List.forall_mem_cons.2 ⟨fun signature hcall => ?_, fun g hg signature hcall => ?_⟩,
    h.linked.2⟩
  · have harity := d.body.arity?_of_check hbody signature hcall
    by_cases hself : signature.name = d.prototype.name
    · rw [if_pos hself] at harity
      rw [Definition.find?, List.cons_append, List.find?_cons_of_pos (by simp [hself])]
      exact harity
    · rw [if_neg hself, h.arity?_eq] at harity
      rw [Definition.find?, List.cons_append, List.find?_cons_of_neg (by simpa using Ne.symm hself)]
      exact harity
  · have harity := h.linked.1 g hg signature hcall
    by_cases hself : signature.name = d.prototype.name
    · have hcalls : t.calls d.prototype.name = true := by
        refine List.any_eq_true.2 ⟨g, hg, List.any_eq_true.2 ⟨signature, hcall, ?_⟩⟩
        rw [hself, beq_self_eq_true]
      have hrecorded : t.arity? d.prototype.name = some signature.arity := by
        rw [h.arity?_eq, ← hself]
        exact harity
      rw [Definition.find?, List.cons_append, List.find?_cons_of_pos (by simp [hself])]
      exact congrArg some (eq_of_checkArity hcount (.inr hcalls) hrecorded).symm
    · rw [Definition.find?, List.cons_append, List.find?_cons_of_neg (by simpa using Ne.symm hself)]
      exact harity

theorem accept (h : t.Linked) {statement : Statement} (haccepts : t.accepts statement = true)
    (hexternal : ∀ q, statement ≠ .external q) : (t.accept statement).Linked := by
  cases statement with
  | definition d =>
      have hcheck : t.check d = .ok () := by
        rw [accepts] at haccepts
        rcases hresult : t.check d with error | _
        · rw [hresult] at haccepts
          cases haccepts
        · rfl
      exact ⟨congrArg (d.prototype :: ·) h.recorded, h.cons hcheck⟩
  | external q => exact absurd rfl (hexternal q)
  | topLevel d => exact ⟨h.recorded, fun _ hg => absurd hg List.not_mem_nil, h.linked⟩
  | malformed error | endOfInput => exact h

theorem handleAll (h : t.Linked) {statements : List Statement}
    (hexternal : ∀ q, .external q ∉ statements) : (t.handleAll statements).2.Linked := by
  induction statements generalizing t with
  | nil => exact h
  | cons statement statements ih =>
      refine ih ?_ fun q hq => hexternal q (List.mem_cons_of_mem statement hq)
      rw [handle_snd]
      split
      next haccepts =>
        refine h.accept haccepts fun q heq => hexternal q ?_
        rw [heq]
        exact List.mem_cons_self
      · exact h

theorem new (limit : Nat) : (TreeSession.new limit).Linked := ⟨rfl, nofun, trivial⟩

end Linked

end TreeSession

/-- A call in linked units runs a body. If that takes another number of arguments, the call was
superseded. -/
theorem Engine.Executes.exists_resolve? {e : Engine} {newer older : Units} {own : List Definition}
    (hloaded : Loaded (newer ++ own :: older) e.units)
    (hlinked : Units.Linked (newer ++ own :: older)) {target : Target}
    (hholds : target.unit.Holds own) {dest name : String} {args : List Operand}
    {pending : List Instruction}
    (h : e.Executes (newer ++ own :: older) target (.call dest name args :: pending)) :
    ∃ called, e.resolve? target.unit name = some (.body called) ∧
      (called.function.params.length ≠ args.length →
        Session.Superseded (Units.bodies (newer ++ own :: older)) older.length target.function name
          called.function.params.length args.length) := by
  obtain ⟨g, hg, hfunction, hcall⟩ := h.exists_call hholds
  obtain ⟨unit, d, hresolve, hsuperseded⟩ := hlinked.exists_resolve? hg hcall
  have hcallee := resolve?_eq hloaded hholds name
  rw [hresolve] at hcallee
  obtain ⟨-, m, -, -, hcallee⟩ := hcallee
  refine ⟨d.target m, hcallee, fun hne => ?_⟩
  obtain ⟨hnone, hnew, old, hold, harity⟩ := hsuperseded hne
  dsimp only at harity
  rw [hfunction, ← harity]
  exact Units.superseded hg hnone hnew hold

/-- A body without parameters can only run out of room when it is entered without arguments. -/
theorem Engine.stackOverflow_of_activate {e : Engine} {depth : Nat} {target : Target}
    (hparams : target.function.params = []) {error : ExecutionError}
    (h : e.activate depth target [] = .error error) : error = .stackOverflow e.limit := by
  rw [activate, hparams] at h
  split at h
  · cases h
    rfl
  · cases h

/-- An expression at the top level has no parameters. -/
theorem Statement.Parsed.params_eq_nil {d : Definition} (h : (Statement.topLevel d).Parsed) :
    d.prototype.params = [] := by
  rcases h with hend | ⟨source, hmem⟩
  · cases hend
  · obtain ⟨s, hs⟩ := TokenStream.exists_of_mem_program hmem
    have hphrase : s.statement.1.phrase? =
        some (.topLevel d.prototype.name d.prototype.params d.body.term) := by
      rw [hs]
      rfl
    obtain ⟨w, c, hwritten⟩ := TokenStream.exists_written hphrase
    generalize hparams : d.prototype.params = params at hwritten
    generalize d.prototype.name = name at hwritten
    cases hwritten
    rfl

namespace Session

/-- The latest body of a history supersedes nothing if it is the only one of its name. -/
theorem Superseded.of_cons {history : List Body} {body : Body} {own : Nat} {caller : Function}
    {name : String} {expected found : Nat}
    (h : Superseded (body :: history) own caller name expected found)
    (hne : ∀ other ∈ history, other.function.name ≠ body.function.name) :
    Superseded history own caller name expected found := by
  obtain ⟨later, earlier, new, old, hhistory, hown, ⟨hnew, hunit, hcount⟩, hold⟩ := h
  cases later with
  | nil => cases hnew
  | cons latest later =>
      obtain ⟨rfl, rfl⟩ := List.cons.inj hhistory
      have hmem : old ∈ later ++ ⟨caller, own⟩ :: earlier := List.mem_append_right _
        (List.mem_cons_of_mem _ (List.mem_of_find?_eq_some hold.1))
      have hname : old.function.name = name := by simpa using List.find?_some hold.1
      rw [List.find?_cons_of_neg (by simpa [← hname] using Ne.symm (hne old hmem))] at hnew
      exact ⟨later, earlier, new, old, rfl,
        fun body hbody => hown body (List.mem_cons_of_mem _ hbody), ⟨hnew, hunit, hcount⟩, hold⟩

section Run

variable (settings : Settings) (limit : Nat) {before : List Statement}
  (hnamed : ∀ statement ∈ before, statement.Named)
  (hexternal : ∀ q, Statement.external q ∉ before) {d : Definition}
  (hd : (Statement.topLevel d).Named) {signature : Signature} {s' : Session}
  (hemit : ((new settings limit).handleAll before).2.emitTopLevel d = (.ok signature, s'))
  {m : Machine} (hm : s'.running.Visits d.prototype.name m) {dest name : String}
  {args : List Operand} {pending : List Instruction}
  (hcall : m.active.pending = .call dest name args :: pending)

include hnamed hexternal hd hemit hm hcall

/-- A call of a run leads to a body. If that takes another number of arguments, the call was
superseded in the unit that makes it. -/
theorem exists_resolve?_running :
    ∃ called, s'.running.resolve? m.active.target.unit name = some (.body called) ∧
      (called.function.params.length ≠ args.length → ∃ own : Nat,
        (((new settings limit).sealedBy before).map (·.without Prototype.anonymousName) ++
          [s'.openUnit.module])[own]? = some m.active.target.unit ∧
        Superseded ((new settings limit).bodies before) own m.active.target.function name
          called.function.params.length args.length) := by
  have hnew := Session.Realizes.new settings limit
  have hreached := (hnew.handleAll hnamed).2
  have hloaded := hreached.loaded_running hemit
  have hlinked := ((TreeSession.Linked.new limit).handleAll hexternal).cons
    (hreached.emitted hemit).1
  have hexecutes := hm.executes hloaded m.active List.mem_cons_self
  rw [hcall] at hexecutes
  obtain ⟨newer, own, older, htrees, hholds, hplace⟩ :=
    exists_holds_running settings limit hnamed hemit hexecutes.unit_mem
  rw [htrees] at hloaded hlinked hexecutes
  obtain ⟨called, hcallee, hsuperseded⟩ := hexecutes.exists_resolve? hloaded hlinked hholds
  refine ⟨called, hcallee, fun hne => ⟨older.length, hplace, ?_⟩⟩
  have hhistory := hsuperseded hne
  rw [← htrees] at hhistory
  rw [bodies_reached settings limit hnamed]
  refine Superseded.of_cons hhistory ?_
  rw [← bodies_reached settings limit hnamed]
  intro other hmem heq
  exact hnew.name_ne_of_mem_bodies hnamed other hmem (heq.trans hd)

end Run

/-- Without external declarations, an evaluation fails for a number of arguments only if the call
was superseded: its name was defined again in a newer unit than that of the caller, with another
number of parameters. Every other call enters a body with as many parameters, if there is room. -/
theorem superseded_of_callArity (settings : Settings) (limit : Nat) {before : List Statement}
    (hparsed : ∀ statement ∈ before, statement.Parsed)
    (hexternal : ∀ q, Statement.external q ∉ before) {d : Definition}
    (hd : (Statement.topLevel d).Parsed) {signature : Signature} {s' : Session}
    (hemit : ((Session.new settings limit).handleAll before).2.emitTopLevel d =
      (.ok signature, s')) :
    let units := ((Session.new settings limit).sealedBy before).map
      (·.without Prototype.anonymousName) ++ [s'.openUnit.module]
    let history := (Session.new settings limit).bodies before
    (∀ name expected found,
      (s'.runTopLevel d.prototype.name).1.result = .error (.callArity name expected found) →
        expected ≠ found ∧ ∃ m dest args pending, s'.running.Visits d.prototype.name m ∧
          s'.running.step m = .halted (.error (.callArity name expected found)) ∧
          m.active.pending = .call dest name args :: pending ∧ args.length = found ∧
          ∃ own : Nat, units[own]? = some m.active.target.unit ∧
            Superseded history own m.active.target.function name expected found) ∧
    ∀ m, s'.running.Visits d.prototype.name m → ∀ dest name args pending,
      m.active.pending = .call dest name args :: pending → ∃ called values,
        args.mapM m.active.demand = .ok values ∧
        s'.running.resolve? m.active.target.unit name = some (.body called) ∧
        s'.running.Enters m ⟨{ m.active with pending := pending }, dest⟩ called values
          (s'.running.step m) ∧
        (called.function.params.length = args.length ∨
          ∃ own : Nat, units[own]? = some m.active.target.unit ∧
            Superseded history own m.active.target.function name called.function.params.length
              args.length) := by
  intro units history
  have hnamed : ∀ statement ∈ before, statement.Named :=
    fun statement hmem => (hparsed statement hmem).named
  have hreached := ((Session.Realizes.new settings limit).handleAll hnamed).2
  refine ⟨fun name expected found hresult => ?_, fun m hm dest name args pending hcall => ?_⟩
  · rw [runTopLevel_fst] at hresult
    obtain herror | ⟨target, htarget, herror⟩ | ⟨m, hm, hstep⟩ := Engine.exists_halted hresult
    · cases herror
    · -- The expression itself has no parameters, so it is entered with as many arguments.
      have hholds := (hreached.emitted hemit).2.1
      have hentry := (hholds.target?_eq d.prototype.name).symm.trans htarget
      rw [(Definition.find?_eq_some_iff hholds.distinct).2 ⟨List.mem_cons_self, rfl⟩] at hentry
      cases hentry
      cases Engine.stackOverflow_of_activate hd.params_eq_nil herror
    · obtain ⟨fault, hfault⟩ | ⟨dest, callee, args, pending, values, hcall, -, hlength, hfails⟩ :=
        Engine.step_error hstep
      · cases hfault
      obtain ⟨called, hcallee, hsuperseded⟩ :=
        exists_resolve?_running settings limit hnamed hexternal hd.named hemit hm hcall
      obtain ⟨hname, rfl, hfound, hne⟩ := Engine.callArity_of_call hcallee hfails
      obtain rfl : args.length = found := hlength.symm.trans hfound
      obtain ⟨unit, -, htarget⟩ := Engine.exists_target?_of_resolve? hcallee
      obtain rfl : callee = name := (Module.of_target? htarget).2.2.1.symm.trans hname
      exact ⟨hne, m, dest, args, pending, hm, hstep, hcall, rfl, hsuperseded hne⟩
  · obtain ⟨called, hcallee, hsuperseded⟩ :=
      exists_resolve?_running settings limit hnamed hexternal hd.named hemit hm hcall
    obtain ⟨values, hvalues, -⟩ := hm.exists_values (hreached.ofProgram_running hemit) hcall
    refine ⟨called, values, hvalues, hcallee, Engine.enters_step hcall hvalues hcallee, ?_⟩
    exact (Decidable.em _).imp_right hsuperseded

/-- The texts `def f() f()`, `f()`, `def g() f()`, `f()` and `def f(x) x`. -/
def redefinition : List Statement :=
  let call : Statement := .topLevel (.anonymous (.call "f" [] ⟨0, 3⟩))
  [.definition ⟨⟨"f", [], ⟨4, 7⟩⟩, .call "f" [] ⟨8, 11⟩⟩, call,
    .definition ⟨⟨"g", [], ⟨4, 7⟩⟩, .call "f" [] ⟨8, 11⟩⟩, call,
    .definition ⟨⟨"f", ["x"], ⟨4, 8⟩⟩, .var "x" ⟨9, 10⟩⟩]

theorem parsed_caller :
    (Statement.definition ⟨⟨"g", [], ⟨4, 7⟩⟩, .call "f" [] ⟨8, 11⟩⟩).Parsed := by
  have hlexemes : Scanner.lexemes "def g() f()".toList =
      [⟨.keyword .definition, ⟨0, 3⟩⟩, ⟨.identifier "g", ⟨4, 5⟩⟩,
        ⟨.punctuator .openParen, ⟨5, 6⟩⟩, ⟨.punctuator .closeParen, ⟨6, 7⟩⟩,
        ⟨.identifier "f", ⟨8, 9⟩⟩, ⟨.punctuator .openParen, ⟨9, 10⟩⟩,
        ⟨.punctuator .closeParen, ⟨10, 11⟩⟩] := by decide +kernel
  have hparsed := Statement.parsed_first "def g() f()"
  rw [TokenStream.ofSource, hlexemes] at hparsed
  simpa [TokenStream.statement, Parse.isSeparator, Parse.statementHere, Parse.definition,
    Parse.prototype, Parse.parameters, Parse.expression, Parse.primary, Parse.climb,
    Parse.arguments, TokenStream.outcome, Reading.map, Reading.weaken, Span.cover] using hparsed

theorem parsed_identity :
    (Statement.definition ⟨⟨"f", ["x"], ⟨4, 8⟩⟩, .var "x" ⟨9, 10⟩⟩).Parsed := by
  have hlexemes : Scanner.lexemes "def f(x) x".toList =
      [⟨.keyword .definition, ⟨0, 3⟩⟩, ⟨.identifier "f", ⟨4, 5⟩⟩,
        ⟨.punctuator .openParen, ⟨5, 6⟩⟩, ⟨.identifier "x", ⟨6, 7⟩⟩,
        ⟨.punctuator .closeParen, ⟨7, 8⟩⟩, ⟨.identifier "x", ⟨9, 10⟩⟩] := by decide +kernel
  have hparsed := Statement.parsed_first "def f(x) x"
  rw [TokenStream.ofSource, hlexemes] at hparsed
  simpa [TokenStream.statement, Parse.isSeparator, Parse.statementHere, Parse.definition,
    Parse.prototype, Parse.parameters, Parse.parameterList, Parse.expression, Parse.primary,
    Parse.climb, TokenStream.outcome, Reading.map, Reading.weaken, Span.cover] using hparsed

theorem parsed_callerCall :
    (Statement.topLevel (.anonymous (.call "g" [] ⟨0, 3⟩))).Parsed := by
  have hlexemes : Scanner.lexemes "g()".toList =
      [⟨.identifier "g", ⟨0, 1⟩⟩, ⟨.punctuator .openParen, ⟨1, 2⟩⟩,
        ⟨.punctuator .closeParen, ⟨2, 3⟩⟩] := by decide +kernel
  have hparsed := Statement.parsed_first "g()"
  rw [TokenStream.ofSource, hlexemes] at hparsed
  simpa [TokenStream.statement, Parse.isSeparator, Parse.statementHere, Parse.topLevel,
    Parse.expression, Parse.primary, Parse.climb, Parse.arguments, TokenStream.outcome,
    Reading.map, Reading.weaken, Span.cover] using hparsed

theorem parsed_redefinition : ∀ statement ∈ redefinition, statement.Parsed := by
  simp only [redefinition, List.forall_mem_cons]
  exact ⟨Statement.parsed_recursion, Statement.parsed_call, parsed_caller, Statement.parsed_call,
    parsed_identity, List.forall_mem_nil _⟩

theorem not_mem_redefinition (q : Prototype) : Statement.external q ∉ redefinition := by
  simp [redefinition]

/-- A caller in a sealed unit meets the new definition, which has a parameter. -/
theorem exists_result_redefinition :
    let d : Definition := .anonymous (.call "g" [] ⟨0, 3⟩)
    ∃ signature s', ((new .standard 3).handleAll redefinition).2.emitTopLevel d =
        (.ok signature, s') ∧
      (s'.runTopLevel d.prototype.name).1.result = .error (.callArity "f" 1 0) := by
  intro d
  have hreached := ((Realizes.new .standard 3).handleAll fun statement hmem =>
    (parsed_redefinition statement hmem).named).2
  obtain ⟨signature, s', hemit⟩ := hreached.exists_emitted (d := d) (by decide)
  refine ⟨signature, s', hemit, ?_⟩
  rw [hreached.run_emitted hemit]
  rfl

/-- The function `g` was accepted when `f` had no parameter. -/
theorem superseded_redefinition :
    let s := new .standard 3
    let d : Definition := .anonymous (.call "g" [] ⟨0, 3⟩)
    (∀ statement ∈ redefinition, statement.Parsed) ∧
      (∀ q, Statement.external q ∉ redefinition) ∧ (Statement.topLevel d).Parsed ∧
      ∃ signature s', (s.handleAll redefinition).2.emitTopLevel d = (.ok signature, s') ∧
        (s'.runTopLevel d.prototype.name).1.result = .error (.callArity "f" 1 0) ∧
        ∃ m own, s'.running.Visits d.prototype.name m ∧
          ((s.sealedBy redefinition).map (·.without Prototype.anonymousName) ++
            [s'.openUnit.module])[own]? = some m.active.target.unit ∧
          Superseded (s.bodies redefinition) own m.active.target.function "f" 1 0 := by
  intro s d
  obtain ⟨signature, s', hemit, hresult⟩ := exists_result_redefinition
  obtain ⟨-, m, -, -, -, hm, -, -, -, own, hunit, hsuperseded⟩ :=
    (superseded_of_callArity .standard 3 parsed_redefinition not_mem_redefinition
      parsed_callerCall hemit).1 _ _ _ hresult
  exact ⟨parsed_redefinition, not_mem_redefinition, parsed_callerCall, signature, s', hemit,
    hresult, m, own, hm, hunit, hsuperseded⟩

theorem runErrors_append (s : Session) (first later : List Statement) :
    s.runErrors (first ++ later) = s.runErrors first ++ (s.handleAll first).2.runErrors later := by
  induction first generalizing s with
  | nil => rfl
  | cons statement first ih =>
      rw [List.cons_append, runErrors, ih, runErrors, List.append_assoc]
      rfl

/-- A source program without external declarations, whose last evaluation fails for the number of
arguments of a call that was accepted. -/
theorem callArity_mem_runErrors_redefinition :
    let statements := redefinition ++ [.topLevel (.anonymous (.call "g" [] ⟨0, 3⟩))]
    (∀ statement ∈ statements, statement.Parsed) ∧
      (∀ q, Statement.external q ∉ statements) ∧
      .callArity "f" 1 0 ∈ (new .standard 3).runErrors statements := by
  intro statements
  refine ⟨?_, fun q => ?_, ?_⟩
  · exact List.forall_mem_append.2
      ⟨parsed_redefinition, List.forall_mem_singleton.2 parsed_callerCall⟩
  · simp [statements, not_mem_redefinition]
  · obtain ⟨signature, s', hemit, hresult⟩ := exists_result_redefinition
    have herror : ((new .standard 3).handleAll redefinition).2.runError?
        (.topLevel (.anonymous (.call "g" [] ⟨0, 3⟩))) = some (.callArity "f" 1 0) := by
      rw [runError?, hemit]
      dsimp only
      rw [hresult]
    rw [runErrors_append, runErrors, herror]
    exact List.mem_append_right _ List.mem_cons_self

end Session

end ScalarLang
