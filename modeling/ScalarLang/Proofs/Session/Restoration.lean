import ScalarLang.Proofs.Grammar.Program
import ScalarLang.Proofs.Session.Filling
import ScalarLang.Proofs.Session.Keeping

/-!
# What a failed definition leaves of called functions

A definition that is refused before its body is opened leaves the functions of the open unit as
they are. If it fails later, its body is dropped again and every function that another one calls is
there as before, but a called declaration of the definition's own name keeps the parameter names
that it was given for the body (`OpenUnit.Renames`). So called functions are restored if and only
if those names are the same (`Session.define_restores_iff`).
-/

namespace ScalarLang

open Code

namespace OpenUnit

/-- Every function that another one calls in the first unit is the same function in the second. -/
def Restores (u u' : OpenUnit) : Prop :=
  ∀ f ∈ u.module.functions, u.isReferenced f.name = true → u'.module.find? f.name = some f

/-- The second unit has the functions of the first one under other names. A called function of the
prototype's name is a declaration in both, with the prototype's parameters in the second. -/
structure Renames (u : OpenUnit) (p : Prototype) (u' : OpenUnit) : Prop where
  others : ∀ f ∈ u.module.functions, f.name ≠ p.name → u'.module.find? f.name = some f
  own : ∀ f ∈ u.module.functions, f.name = p.name → u.isReferenced f.name = true →
    f.blocks = [] ∧ f.params.length = p.params.length ∧
      u'.module.find? f.name = some { f with params := p.params }

variable {u u' : OpenUnit} {p : Prototype}

theorem Restores.of_module_eq (hnodup : (u.module.functions.map Function.name).Nodup)
    (heq : u'.module = u.module) : u.Restores u' := by
  intro f hf _
  rw [heq]
  exact Module.find?_eq_some_of_mem hnodup hf

/-- Renaming restores the called functions if it renames nothing. -/
theorem Renames.restores_iff (h : u.Renames p u') : u.Restores u' ↔
    ∀ f ∈ u.module.functions, f.name = p.name → u.isReferenced f.name = true →
      f.params = p.params := by
  constructor
  · intro hrestores f hf hname hreferenced
    have hfound := (hrestores f hf hreferenced).symm.trans (h.own f hf hname hreferenced).2.2
    exact congrArg Function.params (Option.some.inj hfound)
  · intro hsame f hf hreferenced
    by_cases hname : f.name = p.name
    · rw [(h.own f hf hname hreferenced).2.2, ← hsame f hf hname hreferenced]
    · exact h.others f hf hname

end OpenUnit

namespace Definition

variable {d : Definition} {u u' : OpenUnit} {recorded : List Prototype} {error : EmissionError}

/-- A definition that fails leaves the open unit as it is if its body is not looked at, and
otherwise puts its own declaration in the place of one that others call. -/
theorem cases_of_run_emit (hnodup : (u.module.functions.map Function.name).Nodup)
    (hrecorded : ∀ p ∈ recorded, p.repeated? = none)
    (hrun : (d.emit recorded).run u = .error error u') :
    d.checkName u = .error error ∧ u'.module = u.module ∨ d.checkName u = .ok () ∧
      u.Replaces d.prototype.name recorded
        (if u.isReferenced d.prototype.name then some d.prototype.declaration else none)
        u'.module.functions := by
  have hemit := d.run_emit hnodup hrecorded
  cases hcheck : d.check u recorded with
  | ok _ =>
      rw [hcheck] at hemit
      obtain ⟨functions, registers, hok, -⟩ := hemit
      cases hrun.symm.trans hok
  | error error' =>
      rw [hcheck] at hemit
      obtain ⟨functions, target, registers, herror, hleft⟩ := hemit
      cases hrun.symm.trans herror
      exact hleft.imp_left fun ⟨hrefused, hfunctions⟩ => ⟨hrefused, by rw [hfunctions]⟩

/-- A definition that fails in its body renames the declaration that it completes. -/
theorem renames_of_run_emit (hnodup : (u.module.functions.map Function.name).Nodup)
    (hrecorded : ∀ p ∈ recorded, p.repeated? = none) (hname : d.checkName u = .ok ())
    (hrun : (d.emit recorded).run u = .error error u') : u.Renames d.prototype u' := by
  obtain ⟨hrefused, -⟩ | ⟨-, hreplaces⟩ := cases_of_run_emit hnodup hrecorded hrun
  · cases hname.symm.trans hrefused
  have hfound {f : Function} (hf : f ∈ u'.module.functions) : u'.module.find? f.name = some f :=
    Module.find?_eq_some_of_mem hreplaces.nodup hf
  refine ⟨fun f hf hne => hfound (hreplaces.mem_others f ?_), fun f hf hname' hreferenced => ?_⟩
  · exact List.mem_filter.2 ⟨hf, by simpa using hne⟩
  · rw [hname'] at hreferenced ⊢
    rw [if_pos hreferenced] at hreplaces
    have hsignature := signature_of_checkName hname hnodup hreferenced hf hname'
    have hbody := hasBody_of_checkName hname
    rw [← hname', OpenUnit.hasBody, Module.find?_eq_some_of_mem hnodup hf] at hbody
    have hblocks : f.blocks = [] := by simpa [Function.isDeclaration] using hbody
    refine ⟨hblocks, congrArg Signature.arity hsignature.symm, ?_⟩
    -- The declaration of the prototype is the function with the names of its parameters.
    rw [hblocks]
    exact hfound (hreplaces.mem_own _ rfl)

end Definition

namespace Session

variable {s : Session} {d : Definition} {error : EmissionError}

/-- A body is opened if the definition is not refused for its name. -/
theorem WellFormed.exists_opens_iff (h : s.WellFormed) :
    (∃ opened, s.Opens d opened) ↔ d.checkName s.openUnit = .ok () := by
  refine ⟨fun ⟨_, hopens⟩ => (h.drafts_of_opens hopens).1, fun hname => ?_⟩
  have hdeclare := d.run_declare h.opened.nodup
  rw [hname] at hdeclare
  obtain ⟨before, after, params, target, hothers, hrun⟩ := hdeclare
  have hne : ∀ g ∈ before ++ after, g.name ≠ d.prototype.name :=
    (Draft.names_nodup_iff.1 (Definition.nodup_draft hothers h.opened.nodup)).2
  exact ⟨_, .intro (by rw [emit_eq, hrun])
    (by rw [emit_eq, Definition.run_openBody params target s.openUnit.registers hne])⟩

/-- A definition that fails leaves the open unit that its emission leaves. -/
theorem WellFormed.run_emit_of_define (h : s.WellFormed) (hfails : (s.define d).1 = .error error) :
    (d.emit s.prototypes).run s.openUnit = .error error (s.define d).2.openUnit := by
  have hunit : (s.define d).2.openUnit = (d.emit s.prototypes).after s.openUnit := by
    rw [define_eq h.unbound]
    split
    · rw [openUnit_emit]
    · rw [openUnit_record, openUnit_emit]
  rw [define_fst h.unbound, emit_eq] at hfails
  rw [hunit]
  cases hrun : (d.emit s.prototypes).run s.openUnit with
  | ok signature u =>
      rw [hrun] at hfails
      cases hfails
  | error error' u =>
      rw [hrun] at hfails
      cases hfails
      rw [Emit.after_eq_of_error hrun]

/-- Behind any requests, a definition that fails changes nothing if its body was not opened, and
otherwise gives its parameter names to a called declaration of its name. So the functions that are
called are all restored if and only if such a declaration had these names before. -/
theorem define_restores_iff (settings : Settings) (u : OpenUnit) (engine : Engine)
    (requests : List Request)
    (hfails : (((attach settings u engine).performAll requests).define d).1 = .error error) :
    let s := (attach settings u engine).performAll requests
    let s' := (s.define d).2
    ((∀ opened, ¬ s.Opens d opened) → s'.openUnit.module = s.openUnit.module) ∧
      (∀ opened, s.Opens d opened → s.openUnit.Renames d.prototype s'.openUnit) ∧
      (s.openUnit.Restores s'.openUnit ↔ ∀ opened, s.Opens d opened →
        ∀ f ∈ s.openUnit.module.functions, f.name = d.prototype.name →
          s.openUnit.isReferenced f.name = true → f.params = d.prototype.params) := by
  intro s s'
  have h : s.WellFormed := (WellFormed.attach settings u engine).performAll requests
  have hrun : (d.emit s.prototypes).run s.openUnit = .error error s'.openUnit :=
    h.run_emit_of_define hfails
  by_cases hopens : ∃ opened, s.Opens d opened
  · have hrenames : s.openUnit.Renames d.prototype s'.openUnit :=
      Definition.renames_of_run_emit h.opened.nodup h.recorded (h.exists_opens_iff.1 hopens) hrun
    obtain ⟨opened, hopened⟩ := hopens
    refine ⟨fun hnone => absurd hopened (hnone opened), fun _ _ => hrenames, ?_⟩
    exact hrenames.restores_iff.trans ⟨fun hsame _ _ => hsame, fun hsame => hsame opened hopened⟩
  · have hkept : s'.openUnit.module = s.openUnit.module :=
      ((Definition.cases_of_run_emit h.opened.nodup h.recorded hrun).resolve_right
        fun hopened => hopens (h.exists_opens_iff.2 hopened.1)).2
    have hnone := not_exists.1 hopens
    refine ⟨fun _ => hkept, fun opened hopened => absurd hopened (hnone opened), ?_⟩
    exact iff_of_true (.of_module_eq h.opened.nodup hkept)
      fun opened hopened => absurd hopened (hnone opened)

/-- Behind `extern g(x)` and `def h(a) g(a)`, a `def g(x) y` fails and leaves `g` as it was. -/
theorem define_restores_iff_same :
    let h : Definition := ⟨⟨"h", ["a"], ⟨4, 8⟩⟩, .call "g" [.var "a" ⟨11, 12⟩] ⟨9, 13⟩⟩
    let failing : Definition := ⟨⟨"g", ["x"], ⟨4, 8⟩⟩, .var "y" ⟨9, 10⟩⟩
    let s := (attach .standard (.new "") (.new 3)).performAll
      [.declare ⟨"g", ["x"], ⟨7, 11⟩⟩, .define h]
    (s.define failing).1 = .error (.unknownVariable "y" ⟨9, 10⟩) ∧
      s.openUnit.Restores (s.define failing).2.openUnit ∧
      s.openUnit.isReferenced "g" = true := by
  intro h failing
  have hfails : (((attach .standard (.new "") (.new 3)).performAll
      [.declare ⟨"g", ["x"], ⟨7, 11⟩⟩, .define h]).define failing).1 =
        .error (.unknownVariable "y" ⟨9, 10⟩) := by decide
  obtain ⟨-, -, hiff⟩ := define_restores_iff .standard (.new "") (.new 3) _ hfails
  refine ⟨hfails, hiff.2 fun _ _ f hf hname _ => ?_, by decide⟩
  revert f
  decide

theorem parsed_external : (Statement.external ⟨"g", ["x"], ⟨7, 11⟩⟩).Parsed := by
  have hlexemes : Scanner.lexemes "extern g(x)".toList =
      [⟨.keyword .external, ⟨0, 6⟩⟩, ⟨.identifier "g", ⟨7, 8⟩⟩,
        ⟨.punctuator .openParen, ⟨8, 9⟩⟩, ⟨.identifier "x", ⟨9, 10⟩⟩,
        ⟨.punctuator .closeParen, ⟨10, 11⟩⟩] := by decide +kernel
  have hparsed := Statement.parsed_first "extern g(x)"
  rw [TokenStream.ofSource, hlexemes] at hparsed
  simpa [TokenStream.statement, Parse.isSeparator, Parse.statementHere, Parse.external,
    Parse.prototype, Parse.parameters, Parse.parameterList, TokenStream.outcome, Reading.map,
    Reading.weaken, Span.cover] using hparsed

theorem parsed_forwarding :
    (Statement.definition
      ⟨⟨"h", ["a"], ⟨4, 8⟩⟩, .call "g" [.var "a" ⟨11, 12⟩] ⟨9, 13⟩⟩).Parsed := by
  have hlexemes : Scanner.lexemes "def h(a) g(a)".toList =
      [⟨.keyword .definition, ⟨0, 3⟩⟩, ⟨.identifier "h", ⟨4, 5⟩⟩,
        ⟨.punctuator .openParen, ⟨5, 6⟩⟩, ⟨.identifier "a", ⟨6, 7⟩⟩,
        ⟨.punctuator .closeParen, ⟨7, 8⟩⟩, ⟨.identifier "g", ⟨9, 10⟩⟩,
        ⟨.punctuator .openParen, ⟨10, 11⟩⟩, ⟨.identifier "a", ⟨11, 12⟩⟩,
        ⟨.punctuator .closeParen, ⟨12, 13⟩⟩] := by decide +kernel
  have hclose : Operator.ofMark? .closeParen = none := by decide
  have hparsed := Statement.parsed_first "def h(a) g(a)"
  rw [TokenStream.ofSource, hlexemes] at hparsed
  simpa [TokenStream.statement, Parse.isSeparator, Parse.statementHere, Parse.definition,
    Parse.prototype, Parse.parameters, Parse.parameterList, Parse.expression, Parse.primary,
    Parse.climb, Parse.arguments, Parse.argumentList, Parse.argumentSeparator, hclose,
    TokenStream.outcome, Reading.map, Reading.weaken, Span.cover] using hparsed

theorem parsed_unbound :
    (Statement.definition ⟨⟨"g", ["z"], ⟨4, 8⟩⟩, .var "y" ⟨9, 10⟩⟩).Parsed := by
  have hlexemes : Scanner.lexemes "def g(z) y".toList =
      [⟨.keyword .definition, ⟨0, 3⟩⟩, ⟨.identifier "g", ⟨4, 5⟩⟩,
        ⟨.punctuator .openParen, ⟨5, 6⟩⟩, ⟨.identifier "z", ⟨6, 7⟩⟩,
        ⟨.punctuator .closeParen, ⟨7, 8⟩⟩, ⟨.identifier "y", ⟨9, 10⟩⟩] := by decide +kernel
  have hparsed := Statement.parsed_first "def g(z) y"
  rw [TokenStream.ofSource, hlexemes] at hparsed
  simpa [TokenStream.statement, Parse.isSeparator, Parse.statementHere, Parse.definition,
    Parse.prototype, Parse.parameters, Parse.parameterList, Parse.expression, Parse.primary,
    Parse.climb, TokenStream.outcome, Reading.map, Reading.weaken, Span.cover] using hparsed

/-- Behind `extern g(x)` and `def h(a) g(a)`, a `def g(z) y` fails and leaves `g(z)`. -/
theorem not_restores_renamed :
    let g : Prototype := ⟨"g", ["x"], ⟨7, 11⟩⟩
    let h : Definition := ⟨⟨"h", ["a"], ⟨4, 8⟩⟩, .call "g" [.var "a" ⟨11, 12⟩] ⟨9, 13⟩⟩
    let failing : Definition := ⟨⟨"g", ["z"], ⟨4, 8⟩⟩, .var "y" ⟨9, 10⟩⟩
    let s := ((Session.new .standard 3).handleAll [.external g, .definition h]).2
    (Statement.external g).Parsed ∧ (Statement.definition h).Parsed ∧
      (Statement.definition failing).Parsed ∧
      (s.define failing).1 = .error (.unknownVariable "y" ⟨9, 10⟩) ∧
      s.openUnit.isReferenced "g" = true ∧
      s.openUnit.module.find? "g" = some ⟨"g", ["x"], []⟩ ∧
      (s.define failing).2.openUnit.module.find? "g" = some ⟨"g", ["z"], []⟩ ∧
      ¬ s.openUnit.Restores (s.define failing).2.openUnit := by
  intro g h failing s
  have hbefore : s.openUnit.module.find? "g" = some ⟨"g", ["x"], []⟩ := by decide
  have hreferenced : s.openUnit.isReferenced "g" = true := by decide
  have hafter : (s.define failing).2.openUnit.module.find? "g" = some ⟨"g", ["z"], []⟩ := by decide
  refine ⟨parsed_external, parsed_forwarding, parsed_unbound, by decide, hreferenced, hbefore,
    hafter, fun hrestores => ?_⟩
  have hmem := List.mem_of_find?_eq_some hbefore
  have hfound := hrestores _ hmem hreferenced
  rw [hafter] at hfound
  exact absurd hfound (by decide)

end Session

end ScalarLang
