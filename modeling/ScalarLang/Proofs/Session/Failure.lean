import ScalarLang.Proofs.Grammar.Program
import ScalarLang.Proofs.Session.Acceptance

/-!
# Failed statements

A statement that code is not emitted for leaves a session that answers to the
statements behind it as if it had not been there (`Session.handleAll_failed`). What the
failure leaves in the open unit are declarations that nothing calls, so the units come
out `Alike`.
-/

namespace ScalarLang

open Code

namespace Code.Module

/-- The signatures of the declarations without a body that a function of the unit calls. -/
def called (m : Module) : List Signature :=
  (m.functions.filter fun f => f.isDeclaration && m.references f.name).map Function.signature

/-- The units have the same functions and call the same declarations, in any order. -/
structure Alike (m m' : Module) : Prop where
  name : m.name = m'.name
  bodies : (m.functions.filter fun f => !f.isDeclaration).Perm
    (m'.functions.filter fun f => !f.isDeclaration)
  called : m.called.Perm m'.called

namespace Holds

variable {m m' : Module} {unit : List Definition}

theorem perm_bodies (h : m.Holds unit) :
    (m.functions.filter fun f => !f.isDeclaration).Perm (unit.map Definition.compiled) := by
  have hnodup : (unit.map Definition.compiled).Nodup := by
    refine List.Nodup.of_map Function.name ?_
    rw [List.map_map]
    exact h.distinct
  refine (List.perm_ext_iff_of_nodup (h.nodup.of_map.filter _) hnodup).2 fun f => ?_
  rw [List.mem_filter, List.mem_map]
  constructor
  · rintro ⟨hf, hbody⟩
    obtain ⟨d, hd, rfl⟩ := h.bodies f hf (by simpa using hbody)
    exact ⟨d, hd, rfl⟩
  · rintro ⟨d, hd, rfl⟩
    exact ⟨h.compiled d hd, by simp⟩

/-- A function has no body exactly if no definition has its name. -/
theorem isDeclaration_iff (h : m.Holds unit) {f : Function} (hf : f ∈ m.functions) :
    f.isDeclaration = true ↔ ∀ d ∈ unit, d.prototype.name ≠ f.name := by
  constructor
  · rintro hbody d hd hname
    obtain rfl := List.inj_on_of_nodup_map h.nodup (h.compiled d hd) hf hname
    rw [d.isDeclaration_compiled] at hbody
    cases hbody
  · intro hne
    by_contra hbody
    obtain ⟨d, hd, rfl⟩ := h.bodies f hf (by simpa using hbody)
    exact hne d hd rfl

/-- The declarations that are called are the callees without a definition. -/
theorem mem_called_iff (h : m.Holds unit) (signature : Signature) :
    signature ∈ m.called ↔ (∃ d ∈ unit, signature ∈ d.body.calls) ∧
      ∀ d ∈ unit, d.prototype.name ≠ signature.name := by
  rw [called, List.mem_map]
  constructor
  · rintro ⟨f, hf, rfl⟩
    obtain ⟨hmem, hcalled⟩ := List.mem_filter.1 hf
    obtain ⟨hbody, hreferenced⟩ := Bool.and_eq_true_iff.1 hcalled
    have hne := (h.isDeclaration_iff hmem).1 hbody
    have heq := isReferenced_eq (u := ⟨m, none, 0⟩) h hne
    obtain ⟨d, hd, hcalls⟩ := List.any_eq_true.1 (heq.symm.trans hreferenced)
    obtain ⟨signature, hsignature, hname⟩ := List.any_eq_true.1 hcalls
    obtain ⟨g, hg, rfl⟩ := List.mem_map.1 (h.linked d hd signature hsignature)
    have hname : g.name = f.name := eq_of_beq hname
    obtain rfl := List.inj_on_of_nodup_map h.nodup hg hmem hname
    exact ⟨⟨d, hd, hsignature⟩, hne⟩
  · rintro ⟨⟨d, hd, hsignature⟩, hne⟩
    obtain ⟨f, hf, rfl⟩ := List.mem_map.1 (h.linked d hd signature hsignature)
    have heq := isReferenced_eq (u := ⟨m, none, 0⟩) h hne
    refine ⟨f, List.mem_filter.2 ⟨hf, Bool.and_eq_true_iff.2 ⟨?_, ?_⟩⟩, rfl⟩
    · exact (h.isDeclaration_iff hf).2 hne
    · refine heq.trans (List.any_eq_true.2 ⟨d, hd, List.any_eq_true.2 ⟨_, hsignature, ?_⟩⟩)
      exact beq_self_eq_true _

theorem nodup_called (h : m.Holds unit) : m.called.Nodup := by
  refine List.Nodup.of_map Signature.name ?_
  rw [called, List.map_map]
  exact h.nodup.sublist (List.filter_sublist.map Function.name)

/-- Units that hold the same definitions are alike. -/
theorem alike (h : m.Holds unit) (h' : m'.Holds unit) (hname : m.name = m'.name) : m.Alike m' where
  name := hname
  bodies := h.perm_bodies.trans h'.perm_bodies.symm
  called := (List.perm_ext_iff_of_nodup h.nodup_called h'.nodup_called).2 fun signature =>
    (h.mem_called_iff signature).trans (h'.mem_called_iff signature).symm

end Holds

end Code.Module

/-- Modules loaded for the same units are alike. -/
theorem Loaded.alike {units : Units} {modules modules' : List Module} {name : String}
    (h : Loaded units modules) (h' : Loaded units modules') (hname : ∀ m ∈ modules, m.name = name)
    (hname' : ∀ m ∈ modules', m.name = name) : List.Forall₂ Module.Alike modules modules' := by
  induction h generalizing modules' with
  | nil =>
      cases h'
      exact .nil
  | bodiless _ ih =>
      cases h' with
      | bodiless h' => exact ih h' hname hname'
      | cons hne => exact absurd rfl hne
  | cons hne hholds _ ih =>
      cases h' with
      | bodiless => exact absurd rfl hne
      | cons _ hholds' h' =>
          obtain ⟨hm, hmodules⟩ := List.forall_mem_cons.1 hname
          obtain ⟨hm', hmodules'⟩ := List.forall_mem_cons.1 hname'
          exact .cons (hholds.alike hholds' (hm.trans hm'.symm)) (ih h' hmodules hmodules')

namespace Session.Realizes

variable {s s' : Session} {settings : Settings} {t : TreeSession}

/-- A statement that is not accepted leaves a session that realizes the same trees. -/
theorem handle_of_not_accepts (h : s.Realizes settings t) {statement : Statement}
    (hnamed : statement.Named) (hfails : s.accepts statement = false) :
    (s.handle statement).2.Realizes settings t := by
  have hrealizes := (h.handle hnamed).2
  rw [TreeSession.handle_snd, ← h.accepts_eq hnamed, hfails] at hrealizes
  exact hrealizes

end Session.Realizes

/-- What the statements came to is the same, but for listings and declarations that nothing
calls. -/
structure Session.Coincide (r r' : List Answer × Session) : Prop where
  answers : r.1.map Answer.bare = r'.1.map Answer.bare
  sealedUnits : r.2.sealedUnits = r'.2.sealedUnits
  prototypes : r.2.prototypes = r'.2.prototypes
  units : List.Forall₂ Module.Alike r.2.engine.units r'.2.engine.units

/-- Sessions that realize the same trees come to the same. -/
theorem Session.Realizes.coincide {s s' : Session} {settings : Settings} {t : TreeSession}
    (h : s.Realizes settings t) (h' : s'.Realizes settings t) {statements : List Statement}
    (hnamed : ∀ statement ∈ statements, statement.Named) :
    Session.Coincide (s.handleAll statements) (s'.handleAll statements) := by
  obtain ⟨hanswers, hrealizes⟩ := h.handleAll hnamed
  obtain ⟨hanswers', hrealizes'⟩ := h'.handleAll hnamed
  exact {
    answers := hanswers.trans hanswers'.symm
    sealedUnits := hrealizes.sealedUnits.trans hrealizes'.sealedUnits.symm
    prototypes := hrealizes.recorded.trans hrealizes'.recorded.symm
    units := hrealizes.loaded.alike hrealizes'.loaded hrealizes.loadedName hrealizes'.loadedName }

/-- A statement that fails before it runs does not change what comes of the statements behind. -/
theorem Session.handleAll_failed (settings : Settings) (limit : Nat)
    {before after : List Statement} {statement : Statement}
    (hparsed : ∀ other ∈ before ++ statement :: after, other.Parsed)
    (hfails : ((Session.new settings limit).handleAll before).2.accepts statement = false) :
    Session.Coincide
      ((((Session.new settings limit).handleAll before).2.handle statement).2.handleAll after)
      (((Session.new settings limit).handleAll before).2.handleAll after) := by
  have hnamed : ∀ other ∈ before ++ statement :: after, other.Named :=
    fun other hmem => (hparsed other hmem).named
  obtain ⟨hbefore, hlater⟩ := List.forall_mem_append.1 hnamed
  obtain ⟨hstatement, hafter⟩ := List.forall_mem_cons.1 hlater
  have hreached := ((Session.Realizes.new settings limit).handleAll hbefore).2
  exact (hreached.handle_of_not_accepts hstatement hfails).coincide hreached hafter

/-- A second definition of a function, in front of a call of it. -/
theorem Session.handleAll_failed_recursion :
    let loop : Statement := .definition ⟨⟨"f", [], ⟨4, 7⟩⟩, .call "f" [] ⟨8, 11⟩⟩
    let call : Statement := .topLevel (.anonymous (.call "f" [] ⟨0, 3⟩))
    let reached := ((Session.new .standard 3).handleAll [loop]).2
    (∀ other ∈ [loop] ++ loop :: [call], other.Parsed) ∧ reached.accepts loop = false ∧
      Session.Coincide ((reached.handle loop).2.handleAll [call]) (reached.handleAll [call]) := by
  intro loop call reached
  have hlater : ∀ other ∈ [loop, call], other.Parsed :=
    List.forall_mem_cons.2 ⟨Statement.parsed_recursion, List.forall_mem_singleton.2
      Statement.parsed_call⟩
  have hparsed : ∀ other ∈ [loop] ++ loop :: [call], other.Parsed :=
    List.forall_mem_cons.2 ⟨Statement.parsed_recursion, hlater⟩
  have hfails : reached.accepts loop = false := by decide
  exact ⟨hparsed, hfails, handleAll_failed .standard 3 hparsed hfails⟩

end ScalarLang
