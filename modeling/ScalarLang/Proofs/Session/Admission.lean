import ScalarLang.Proofs.Grammar.Operators
import ScalarLang.Proofs.Session.Simulation
import ScalarLang.Proofs.Validity.Registers

/-!
# Which definitions are accepted

A session admits a definition if its names are in order: the parameters are distinct,
the variables are parameters, what is called is known, and the open unit does not
stand against it. Such a definition is accepted unless one of the registers that its
code assigns has the name of a parameter (`Session.define_of_admits`). Nothing renames
the register then, and the definition fails as invalid code.
-/

namespace ScalarLang

open Code

namespace Session

/-- The open unit or the latest recorded prototype of the name has the signature. -/
def Knows (s : Session) (signature : Signature) : Prop :=
  s.openUnit.lookup? signature.name = some signature ∨
    (s.prototype? signature.name).map Prototype.signature = some signature

instance (s : Session) (signature : Signature) : Decidable (s.Knows signature) :=
  inferInstanceAs (Decidable (_ ∨ _))

/-- The names of the definition are in order, and nothing in the open unit stands against it. -/
structure Admits (s : Session) (d : Definition) : Prop where
  nodup : d.prototype.params.Nodup
  bound : ∀ name ∈ d.body.variables, name ∈ d.prototype.params
  linked : ∀ signature ∈ d.body.calls, signature = d.prototype.signature ∨
    signature.name ≠ d.prototype.name ∧ s.Knows signature
  undefined : s.openUnit.hasBody d.prototype.name = false
  replaceable : ∀ existing ∈ s.openUnit.lookup? d.prototype.name,
    existing.arity ≠ d.prototype.params.length → s.openUnit.isReferenced d.prototype.name = false

/-- A definition with names in order is not refused before its body is looked at. -/
theorem Admits.checkName {s : Session} {d : Definition} (h : s.Admits d) :
    d.checkName s.openUnit = .ok () := by
  rw [Definition.checkName, Prototype.repeated?_eq_none_iff.2 h.nodup, h.undefined]
  cases hlookup : s.openUnit.lookup? d.prototype.name with
  | none => rfl
  | some existing =>
      by_cases harity : existing.arity = d.prototype.params.length
      · simp [harity]
      · simp [harity, h.replaceable existing hlookup harity]

namespace Realizes

variable {s : Session} {settings : Settings} {t : TreeSession}

theorem arity?_of_knows (h : s.Realizes settings t) {signature : Signature}
    (hknows : s.Knows signature) : t.arity? signature.name = some signature.arity := by
  rcases hknows with hlookup | hrecorded
  · exact h.lookup?_eq_some hlookup
  · obtain ⟨p, hp, rfl⟩ := Option.map_eq_some_iff.1 hrecorded
    rw [prototype?, h.recorded] at hp
    rw [TreeSession.arity?, hp]
    rfl

/-- A definition with names in order passes the check if no register has the name of a
parameter. -/
theorem check_of_admits (h : s.Realizes settings t) {d : Definition} (hadmits : s.Admits d)
    (hoperators : ∀ op ∈ d.body.operators, (Operator.ofChar? op).isSome) :
    t.check d = if ∀ r ∈ d.registers, r ∉ d.prototype.params then .ok ()
      else .error (.failure (.invalid d.prototype.name d.clashes)) := by
  have hname : t.checkName d.prototype = .ok () := h.checkName_eq d ▸ hadmits.checkName
  have hbody : d.body.check (fun name =>
      if name = d.prototype.name then some d.prototype.params.length else t.arity? name)
      d.prototype.params = .ok () := by
    refine d.body.check_eq_ok_iff.2 ⟨hadmits.bound, hoperators, fun signature hsignature => ?_⟩
    rcases hadmits.linked signature hsignature with rfl | ⟨hne, hknows⟩
    · exact if_pos rfl
    · rw [if_neg hne]
      exact h.arity?_of_knows hknows
  rw [TreeSession.check, hname, Definition.checkBody, hbody]
  exact if_congr (Definition.clashes_eq_nil_iff hbody) rfl rfl

/-- Defining does what the check says. -/
theorem define_fst_eq (h : s.Realizes settings t) (d : Definition) :
    (s.define d).1 = (t.check d).map fun _ => d.prototype.signature := by
  have hemit := h.emit_definition d
  rw [define_fst h.unbound]
  cases hcheck : t.check d with
  | ok _ =>
      rw [hcheck] at hemit
      obtain ⟨functions, registers, hs', -⟩ := hemit
      rw [hs']
      rfl
  | error error =>
      rw [hcheck] at hemit
      obtain ⟨s', hs', -⟩ := hemit
      rw [hs']
      rfl

end Realizes

/-- A parsed definition with names in order is accepted, unless a register of its code has the name
of a parameter. -/
theorem define_of_admits (settings : Settings) (limit : Nat) {before : List Statement}
    (hbefore : ∀ statement ∈ before, statement.Parsed) {d : Definition}
    (hd : (Statement.definition d).Parsed)
    (hadmits : ((Session.new settings limit).handleAll before).2.Admits d) :
    (((Session.new settings limit).handleAll before).2.define d).1 =
      if ∀ r ∈ d.registers, r ∉ d.prototype.params then .ok d.prototype.signature
      else .error (.failure (.invalid d.prototype.name d.clashes)) := by
  have hreached := ((Realizes.new settings limit).handleAll fun statement hmem =>
    (hbefore statement hmem).named).2
  rw [hreached.define_fst_eq, hreached.check_of_admits hadmits hd.isSome_ofChar?]
  split <;> rfl

end Session

/-- A definition `def g(x) f()+x` is parsed. -/
theorem Statement.parsed_sum (source : String) {x : String}
    (hlexemes : Scanner.lexemes source.toList =
      [⟨.keyword .definition, ⟨0, 3⟩⟩, ⟨.identifier "g", ⟨4, 5⟩⟩,
        ⟨.punctuator .openParen, ⟨5, 6⟩⟩, ⟨.identifier x, ⟨6, 14⟩⟩,
        ⟨.punctuator .closeParen, ⟨14, 15⟩⟩, ⟨.identifier "f", ⟨16, 17⟩⟩,
        ⟨.punctuator .openParen, ⟨17, 18⟩⟩, ⟨.punctuator .closeParen, ⟨18, 19⟩⟩,
        ⟨.punctuator .plus, ⟨19, 20⟩⟩, ⟨.identifier x, ⟨20, 28⟩⟩]) :
    (Statement.definition ⟨⟨"g", [x], ⟨4, 15⟩⟩,
      .binary '+' (.call "f" [] ⟨16, 19⟩) (.var x ⟨20, 28⟩) ⟨16, 28⟩⟩).Parsed := by
  have hparsed := parsed_first source
  have hplus : Operator.ofMark? .plus = some (.arithmetic .add) :=
    Operator.ofMark?_mark (.arithmetic .add)
  rw [TokenStream.ofSource, hlexemes] at hparsed
  simpa [TokenStream.statement, Parse.isSeparator, Parse.statementHere, Parse.definition,
    Parse.prototype, Parse.parameters, Parse.parameterList, Parse.expression, Parse.primary,
    Parse.climb, Parse.operand, Parse.operatorAhead?, Parse.arguments, hplus, TokenStream.outcome,
    Reading.map, Reading.weaken, Expr.operation, Operator.char, Operator.mark, Punctuator.char,
    Expr.span, Span.cover] using hparsed

namespace Session

/-- A parameter whose name is that of a register of another body does not matter. -/
theorem define_of_admits_sum :
    let before : List Statement := [.definition ⟨⟨"f", [], ⟨4, 7⟩⟩, .call "f" [] ⟨8, 11⟩⟩]
    let d : Definition := ⟨⟨"g", ["calltmp2"], ⟨4, 15⟩⟩,
      .binary '+' (.call "f" [] ⟨16, 19⟩) (.var "calltmp2" ⟨20, 28⟩) ⟨16, 28⟩⟩
    let s := ((Session.new .standard 3).handleAll before).2
    (∀ statement ∈ before, statement.Parsed) ∧ (Statement.definition d).Parsed ∧ s.Admits d ∧
      (s.define d).1 = .ok ⟨"g", 1⟩ := by
  intro before d s
  have hbefore : ∀ statement ∈ before, statement.Parsed :=
    List.forall_mem_singleton.2 Statement.parsed_recursion
  have hd : (Statement.definition d).Parsed :=
    Statement.parsed_sum "def g(calltmp2) f()+calltmp2" (by decide +kernel)
  have hadmits : s.Admits d := ⟨by decide, by decide, by decide, by decide, by decide⟩
  refine ⟨hbefore, hd, hadmits, (define_of_admits .standard 3 hbefore hd hadmits).trans ?_⟩
  exact if_pos (by decide)

/-- A definition with names in order is refused if a parameter has the name of the register that
its call is given. -/
theorem define_register_parameter :
    let before : List Statement := [.definition ⟨⟨"f", [], ⟨4, 7⟩⟩, .call "f" [] ⟨8, 11⟩⟩]
    let d : Definition := ⟨⟨"g", ["calltmp1"], ⟨4, 15⟩⟩,
      .binary '+' (.call "f" [] ⟨16, 19⟩) (.var "calltmp1" ⟨20, 28⟩) ⟨16, 28⟩⟩
    let s := ((Session.new .standard 3).handleAll before).2
    (∀ statement ∈ before, statement.Parsed) ∧ (Statement.definition d).Parsed ∧ s.Admits d ∧
      (s.define d).1 = .error (.failure (.invalid "g"
        [.reassigned "calltmp1", .undefinedRegister "calltmp1"])) := by
  intro before d s
  have hbefore : ∀ statement ∈ before, statement.Parsed :=
    List.forall_mem_singleton.2 Statement.parsed_recursion
  have hd : (Statement.definition d).Parsed :=
    Statement.parsed_sum "def g(calltmp1) f()+calltmp1" (by decide +kernel)
  have hadmits : s.Admits d := ⟨by decide, by decide, by decide, by decide, by decide⟩
  exact ⟨hbefore, hd, hadmits, by decide⟩

end Session

end ScalarLang
