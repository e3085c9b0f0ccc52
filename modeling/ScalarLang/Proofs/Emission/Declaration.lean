import ScalarLang.Proofs.Emission.Draft

/-!
# Emission of declarations

An external declaration stays as it is if the open unit has it already, and otherwise
takes the place of a declaration that nothing calls (`Prototype.run_emit`). The other
functions of the unit stay, which `OpenUnit.Replaces` says for definitions as well.
-/

namespace ScalarLang

open Code

namespace Code

theorem repeats_eq_nil_iff {seen names : List String} :
    repeats seen names = [] ↔ names.Nodup ∧ ∀ name ∈ names, name ∉ seen := by
  induction names generalizing seen with
  | nil => simp [repeats]
  | cons name names ih =>
      rw [repeats]
      split
      next hseen =>
        refine iff_of_false (List.cons_ne_nil _ _) fun h => ?_
        exact h.2 name List.mem_cons_self (List.contains_iff_mem.1 hseen)
      next hseen =>
        rw [ih, List.nodup_cons, List.forall_mem_cons]
        constructor
        · rintro ⟨hnodup, hnew⟩
          refine ⟨⟨fun hmem => hnew name hmem List.mem_cons_self, hnodup⟩, ?_, ?_⟩
          · exact fun hmem => hseen (List.contains_iff_mem.2 hmem)
          · exact fun other hother hmem => hnew other hother (List.mem_cons_of_mem name hmem)
        · rintro ⟨⟨hname, hnodup⟩, -, hnew⟩
          refine ⟨hnodup, fun other hother hmem => ?_⟩
          rcases List.mem_cons.1 hmem with rfl | hmem
          · exact hname hother
          · exact hnew other hother hmem

/-- In front of the first repetition no name stands twice. -/
theorem exists_split_of_head?_repeats {seen names : List String} {name : String}
    (h : (repeats seen names).head? = some name) :
    ∃ before after, names = before ++ name :: after ∧ repeats seen before = [] ∧
      (name ∈ seen ∨ name ∈ before) := by
  induction names generalizing seen with
  | nil => cases h
  | cons first names ih =>
      rw [repeats] at h
      split at h
      next hseen =>
        obtain rfl := Option.some.inj h
        exact ⟨[], names, rfl, rfl, .inl (List.contains_iff_mem.1 hseen)⟩
      next hseen =>
        obtain ⟨before, after, rfl, hbefore, hname⟩ := ih h
        refine ⟨first :: before, after, rfl, ?_, ?_⟩
        · rw [repeats, if_neg hseen, hbefore]
        · rcases hname with hname | hname
          · rcases List.mem_cons.1 hname with rfl | hname
            · exact .inr List.mem_cons_self
            · exact .inl hname
          · exact .inr (List.mem_cons_of_mem first hname)

end Code

theorem Prototype.repeated?_eq_none_iff {p : Prototype} :
    p.repeated? = none ↔ p.params.Nodup := by
  rw [repeated?, List.head?_eq_none_iff, repeats_eq_nil_iff]
  simp

/-- The parameter that a prototype is refused for is the first that stands earlier too. -/
theorem Prototype.exists_split_of_repeated? {p : Prototype} {param : String}
    (h : p.repeated? = some param) :
    ∃ before after, p.params = before ++ param :: after ∧ before.Nodup ∧ param ∈ before := by
  obtain ⟨before, after, hparams, hbefore, hmem⟩ := exists_split_of_head?_repeats h
  exact ⟨before, after, hparams, (repeats_eq_nil_iff.1 hbefore).1, by simpa using hmem⟩

/-- The functions of the open unit under other names. -/
def OpenUnit.others (u : OpenUnit) (name : String) : List Function :=
  u.module.functions.filter (·.name != name)

namespace OpenUnit

variable {u : OpenUnit} {name : String}

/-- A unit with a function of the name is split at it. -/
theorem exists_split (hnodup : (u.module.functions.map Function.name).Nodup) {f : Function}
    (hf : u.module.find? name = some f) :
    ∃ before after, u.module.functions = before ++ f :: after ∧ f.name = name ∧
      before ++ after = u.others name ∧ (∀ g ∈ before ++ after, g.name ≠ name) := by
  obtain ⟨hname, before, after, hsplit, -⟩ := List.find?_eq_some_iff_append.1 hf
  have hname : f.name = name := by simpa using hname
  have hothers : ∀ g ∈ before ++ after, g.name ≠ name := by
    intro g hg heq
    rw [hsplit, List.map_append, List.map_cons, List.nodup_middle, ← List.map_append, hname,
      ← heq] at hnodup
    exact (List.nodup_cons.1 hnodup).1 (List.mem_map_of_mem hg)
  refine ⟨before, after, hsplit, hname, ?_, hothers⟩
  have hkeep : (before ++ after).filter (·.name != name) = before ++ after :=
    List.filter_eq_self.2 fun g hg => by simpa using hothers g hg
  rw [others, hsplit, ← hkeep, List.filter_append, List.filter_append,
    List.filter_cons_of_neg (by simp [hname])]

theorem others_eq_self (hnone : u.lookup? name = none) : u.others name = u.module.functions := by
  refine List.filter_eq_self.2 fun g hg => ?_
  have hfind : u.module.find? name = none := by simpa [lookup?] using hnone
  simpa using List.find?_eq_none.1 hfind g hg

theorem name_ne_of_mem_others {f : Function} (hf : f ∈ u.others name) : f.name ≠ name := by
  simpa using (List.mem_filter.1 hf).2

theorem nodup_others {n : String} (hnodup : (u.module.functions.map Function.name).Nodup) :
    ((u.others n).map Function.name).Nodup :=
  (List.filter_sublist.map Function.name).nodup hnodup

theorem isReferenced_eq (u : OpenUnit) (name : String) :
    u.isReferenced name = (u.others name).any (·.calls name) := by
  rw [isReferenced, Module.references, others, List.any_filter]

/-- Discarding a function keeps it as a declaration if another function calls it. -/
theorem discard_eq {before after : List Function} {f : Function}
    (hsplit : u.module.functions = before ++ f :: after) (hf : f.name = name)
    (hne : ∀ g ∈ before ++ after, g.name ≠ name) :
    ∃ target, u.discard name = ⟨⟨u.module.name, if (before ++ after).any (·.calls name) then
      before ++ f.withoutBody :: after else before ++ after⟩, target, u.registers⟩ := by
  obtain ⟨⟨unitName, functions⟩, target, registers⟩ := u
  obtain rfl : functions = before ++ f :: after := hsplit
  refine ⟨if target = some name then none else target, ?_⟩
  have hbefore : ∀ g ∈ before, g.name ≠ name := fun g hg => hne g (List.mem_append_left _ hg)
  have hkeep : (before ++ after).filter (·.name != name) = before ++ after :=
    List.filter_eq_self.2 fun g hg => by simpa using hne g hg
  have hreferenced : isReferenced ⟨⟨unitName, before ++ f :: after⟩,
      if target = some name then none else target, registers⟩ name =
        (before ++ after).any (·.calls name) := by
    rw [isReferenced_eq, others, List.filter_append, List.filter_cons_of_neg (by simp [hf]),
      ← List.filter_append, hkeep]
  have herase : (before ++ f :: after).eraseP (·.name == name) = before ++ after := by
    rw [List.eraseP_append_right _ (by simpa using hbefore), List.eraseP_cons_of_pos (by simp [hf])]
  have hmodify : Module.modifyFirst name Function.withoutBody (before ++ f :: after) =
      before ++ f.withoutBody :: after :=
    Module.modifyFirst_append_cons _ hbefore hf
  simp only [discard, hreferenced, change, Module.modify, Module.erase, hmodify, herase]
  split <;> rfl

/-- Leaving out the functions of one name does not change the signature of another one. -/
theorem find?_signature_others (u : OpenUnit) {other : String} (hne : other ≠ name) :
    ((u.others name).map Function.signature).find? (·.name == other) =
      u.signatures.find? (·.name == other) := by
  rw [signatures, others, List.find?_map, List.find?_filter, List.find?_map]
  refine congrArg (fun p => (u.module.functions.find? p).map Function.signature)
    (funext fun g => ?_)
  by_cases hg : g.name = other
  · simp [Function.signature, hg, hne]
  · simp [Function.signature, hg]

theorem find?_others (u : OpenUnit) (name : String) :
    (⟨u.module.name, u.others name⟩ : Module).find? name = none := by
  refine List.find?_eq_none.2 fun g hg => ?_
  simpa using name_ne_of_mem_others hg

end OpenUnit

/-- A declaration that is replaced moves behind the other functions. -/
theorem Prototype.run_redeclare {p : Prototype} {u : OpenUnit} (existing : Signature)
    (hnodup : (u.module.functions.map Function.name).Nodup) {f : Function}
    (hf : u.module.find? p.name = some f) :
    if u.isReferenced p.name then
      (p.redeclare existing).run u = .error (.declarationInUse p.name existing.arity p.span) u
    else ∃ target, (p.redeclare existing).run u = .ok p.signature
      ⟨⟨u.module.name, u.others p.name ++ [p.declaration]⟩, target, u.registers⟩ := by
  obtain ⟨before, after, hsplit, hname, hothers, hne⟩ := OpenUnit.exists_split hnodup hf
  obtain ⟨target, hdiscard⟩ := OpenUnit.discard_eq hsplit hname hne
  rw [hothers, ← OpenUnit.isReferenced_eq] at hdiscard
  cases hreferenced : u.isReferenced p.name with
  | true => simp [redeclare, hreferenced]
  | false =>
      rw [hreferenced, if_neg Bool.false_ne_true] at hdiscard
      refine ⟨target, ?_⟩
      simp only [redeclare, EStateM.run_bind, EStateM.run_get, hreferenced, Bool.false_eq_true,
        if_false, EStateM.run_set, hdiscard]
      exact Emit.run_declare (u.find?_others p.name) p.params

/-- The functions are those of the open unit under other names, at most one function that takes the
place of those under the name, and declarations of recorded prototypes. -/
structure OpenUnit.Replaces (u : OpenUnit) (name : String) (recorded : List Prototype)
    (own : Option Function) (functions : List Function) : Prop where
  nodup : (functions.map Function.name).Nodup
  mem_own : ∀ f ∈ own, f ∈ functions
  mem_others : ∀ f ∈ u.others name, f ∈ functions
  cases_mem : ∀ f ∈ functions, f ∈ u.others name ∨ f ∈ own ∨
    ∃ p, recorded.find? (·.name == p.name) = some p ∧ f = p.declaration

namespace Prototype

/-- What a declaration is refused for. -/
def checkName (p : Prototype) (u : OpenUnit) : Except EmissionError Unit :=
  match p.repeated? with
  | some param => .error (.duplicateParameter p.name param p.span)
  | none =>
    match u.lookup? p.name with
    | none => .ok ()
    | some existing =>
      if existing.arity = p.params.length then .ok ()
      else if u.hasBody p.name then .error (.redefinition p.name p.span)
      else if u.isReferenced p.name then .error (.declarationInUse p.name existing.arity p.span)
      else .ok ()

theorem replaces_declaration {u : OpenUnit}
    (hnodup : (u.module.functions.map Function.name).Nodup) (p : Prototype)
    (recorded : List Prototype) :
    u.Replaces p.name recorded (some p.declaration) (u.others p.name ++ [p.declaration]) := by
  refine ⟨?_, by simp, fun f hf => List.mem_append_left _ hf, fun f hf => ?_⟩
  · rw [List.map_append, List.nodup_append]
    refine ⟨OpenUnit.nodup_others hnodup, List.nodup_singleton _, ?_⟩
    intro name hname other hother heq
    obtain ⟨f, hf, rfl⟩ := List.mem_map.1 hname
    exact OpenUnit.name_ne_of_mem_others hf (heq.trans (List.mem_singleton.1 hother))
  · refine (List.mem_append.1 hf).imp_right fun hf => .inl ?_
    exact congrArg some (List.mem_singleton.1 hf).symm

/-- A declaration that is not refused is there already, or is put behind the other functions. -/
theorem run_emit {p : Prototype} {u : OpenUnit}
    (hnodup : (u.module.functions.map Function.name).Nodup) :
    match p.checkName u with
    | .error error => p.emit.run u = .error error u
    | .ok () => (u.lookup? p.name = some p.signature ∧ p.emit.run u = .ok p.signature u) ∨
        ((u.lookup? p.name = none ∨ u.hasBody p.name = false ∧ u.isReferenced p.name = false) ∧
          ∃ target, p.emit.run u = .ok p.signature
            ⟨⟨u.module.name, u.others p.name ++ [p.declaration]⟩, target, u.registers⟩) := by
  rw [checkName, emit]
  cases hrepeated : p.repeated? with
  | some param => simp [check, hrepeated]
  | none =>
  simp only [check, hrepeated, pure_bind, EStateM.run_bind, EStateM.run_get]
  cases hl : u.lookup? p.name with
  | none =>
      have hfind : u.module.find? p.name = none := by
        simpa [OpenUnit.lookup?] using hl
      refine .inr ⟨.inl rfl, u.target, ?_⟩
      rw [OpenUnit.others_eq_self hl]
      exact Emit.run_declare hfind _
  | some existing =>
      obtain ⟨f, hfind, rfl⟩ := Option.map_eq_some_iff.1 hl
      have hname : f.name = p.name := by simpa using List.find?_some hfind
      by_cases harity : f.signature.arity = p.params.length
      · have hsignature : f.signature = p.signature := by
          rw [signature, ← harity, ← hname]
          rfl
        have hcount : p.signature.arity = p.params.length := rfl
        simp [hsignature, hcount]
      · simp only [harity, if_false]
        cases hbody : u.hasBody p.name with
        | true => simp
        | false =>
            have hredeclare := run_redeclare f.signature hnodup hfind
            cases hreferenced : u.isReferenced p.name with
            | true => simpa [hreferenced] using hredeclare
            | false =>
                rw [hreferenced, if_neg Bool.false_ne_true] at hredeclare
                exact .inr ⟨.inr ⟨rfl, rfl⟩, hredeclare⟩

/-- A declaration that succeeds was not refused. -/
theorem checkName_of_run_emit {p : Prototype} {u u' : OpenUnit}
    (hnodup : (u.module.functions.map Function.name).Nodup) {signature : Signature}
    (hrun : p.emit.run u = .ok signature u') : p.checkName u = .ok () := by
  have hemit := p.run_emit hnodup
  cases hcheck : p.checkName u with
  | ok _ => rfl
  | error error =>
      rw [hcheck] at hemit
      cases hrun.symm.trans hemit

end Prototype

end ScalarLang
