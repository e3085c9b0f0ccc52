import ScalarLang.Proofs.Session.Tree
import ScalarLang.Proofs.Session.Unit

/-!
# What sessions on trees accept

What the checks of a session on trees pass, and what its definitions and prototypes
have in common because they were passed (`TreeSession.Sound`): accepting another
statement keeps this.
-/

namespace ScalarLang

/-- What the definitions and prototypes of a session on trees have in common. -/
structure TreeSession.Sound (t : TreeSession) : Prop where
  recorded : ∀ q ∈ t.recorded, q.name ≠ Prototype.anonymousName ∧ q.repeated? = none
  checked : ∀ unit ∈ t.opened :: t.sealed, ∀ d ∈ unit, Definition.Checked d
  called : ∀ d ∈ t.opened, ∀ signature ∈ d.body.calls,
    signature.name ≠ Prototype.anonymousName

namespace TreeSession

variable {t : TreeSession}

theorem checkName_eq_ok_iff {q : Prototype} : t.checkName q = .ok () ↔
    q.repeated? = none ∧ t.defines q.name = false ∧ t.checkArity q = .ok () := by
  rw [checkName]
  cases q.repeated? with
  | some param => simp
  | none => cases t.defines q.name <;> simp

theorem checkExternal_eq_ok_iff {q : Prototype} : t.checkExternal q = .ok () ↔
    q.repeated? = none ∧ t.checkArity q = .ok () := by
  rw [checkExternal]
  cases q.repeated? <;> simp

/-- A name that is defined or called keeps its number of parameters. -/
theorem eq_of_checkArity {q : Prototype} (h : t.checkArity q = .ok ())
    (hused : t.defines q.name = true ∨ t.calls q.name = true) {arity : Nat}
    (harity : t.arity? q.name = some arity) : arity = q.params.length := by
  rw [checkArity, harity] at h
  by_contra hne
  rcases hused with hused | hused
  · simp [hne, hused] at h
  · cases hdefines : t.defines q.name <;> simp [hne, hused, hdefines] at h

theorem check_eq_ok {d : Definition} (h : t.check d = .ok ()) :
    t.checkName d.prototype = .ok () ∧ d.body.check (fun name =>
      if name = d.prototype.name then some d.prototype.params.length else t.arity? name)
        d.prototype.params = .ok () := by
  rw [check] at h
  cases hname : t.checkName d.prototype with
  | error error =>
      rw [hname] at h
      cases h
  | ok _ =>
      refine ⟨rfl, ?_⟩
      rw [hname] at h
      cases hbody : d.body.check (fun name =>
          if name = d.prototype.name then some d.prototype.params.length else t.arity? name)
          d.prototype.params with
      | ok _ => rfl
      | error error =>
          have hrefused : t.check d = .error error := by
            rw [check, hname, Definition.checkBody, hbody]
            rfl
          rw [check, hname] at hrefused
          rw [hrefused] at h
          cases h

namespace Sound

theorem arity?_ne_anonymous (h : t.Sound) {name : String} {arity : Nat}
    (harity : t.arity? name = some arity) : name ≠ Prototype.anonymousName := by
  obtain ⟨q, hq, -⟩ := Option.map_eq_some_iff.1 harity
  have hname : q.name = name := by simpa using List.find?_some hq
  rw [← hname]
  exact (h.recorded q (List.mem_of_find?_eq_some hq)).1

theorem accept_definition (h : t.Sound) {d : Definition}
    (hnamed : d.prototype.name ≠ Prototype.anonymousName) (hcheck : t.check d = .ok ()) :
    (t.accept (.definition d)).Sound := by
  obtain ⟨hname, hbody⟩ := check_eq_ok hcheck
  refine ⟨fun q hq => ?_, fun unit hunit d' hd => ?_, fun d' hd signature hsignature => ?_⟩
  · rcases List.mem_cons.1 hq with rfl | hq
    · exact ⟨hnamed, (checkName_eq_ok_iff.1 hname).1⟩
    · exact h.recorded q hq
  · rcases List.mem_cons.1 hunit with rfl | hunit
    · rcases List.mem_cons.1 hd with rfl | hd
      · exact ⟨_, hbody⟩
      · exact h.checked _ List.mem_cons_self d' hd
    · exact h.checked unit (List.mem_cons_of_mem _ hunit) d' hd
  · rcases List.mem_cons.1 hd with rfl | hd
    · have harity := d'.body.arity?_of_check hbody signature hsignature
      by_cases hself : signature.name = d'.prototype.name
      · rwa [hself]
      · rw [if_neg hself] at harity
        exact h.arity?_ne_anonymous harity
    · exact h.called d' hd signature hsignature

theorem accept_external (h : t.Sound) {q : Prototype} (hnamed : q.name ≠ Prototype.anonymousName)
    (hcheck : t.checkExternal q = .ok ()) : (t.accept (.external q)).Sound := by
  refine ⟨fun q' hq => ?_, h.checked, h.called⟩
  rcases List.mem_cons.1 hq with rfl | hq
  · exact ⟨hnamed, (checkExternal_eq_ok_iff.1 hcheck).1⟩
  · exact h.recorded q' hq

theorem accept_topLevel (h : t.Sound) (d : Definition) : (t.accept (.topLevel d)).Sound := by
  refine ⟨h.recorded, fun unit hunit => ?_, fun d' hd => ?_⟩
  · rcases List.mem_cons.1 hunit with rfl | hunit
    · intro d' hd
      cases hd
    · exact h.checked unit hunit
  · cases hd

end Sound

theorem arity?_cons_of_ne {q : Prototype} {name : String} (hne : name ≠ q.name) :
    TreeSession.arity? { t with recorded := q :: t.recorded } name = t.arity? name := by
  rw [arity?, arity?, List.find?_cons_of_neg (by simpa using Ne.symm hne)]

theorem arity?_cons_self (q : Prototype) :
    TreeSession.arity? { t with recorded := q :: t.recorded } q.name = some q.params.length := by
  simp [arity?]

end TreeSession

end ScalarLang
