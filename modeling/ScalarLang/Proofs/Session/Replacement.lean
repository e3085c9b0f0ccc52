import ScalarLang.Proofs.Emission.Definition
import ScalarLang.Proofs.Session.Unit

/-!
# Units that change

A unit still holds its definitions when a declaration in it is replaced or a definition
is put in its place (`Code.Module.Holds.replace`), and without its latest definition it
holds the others (`Code.Module.Holds.erase`).
-/

namespace ScalarLang

open Code

namespace Code.Module.Holds

variable {u : OpenUnit} {unit : List Definition} {name : String} {recorded : List Prototype}
  {own : Option Function} {functions : List Function}

/-- A unit still holds its definitions when something under another name is replaced, and one more
definition if that is what takes the place. -/
theorem replace (h : u.module.Holds unit) (hr : u.Replaces name recorded own functions)
    (hne : ∀ d ∈ unit, d.prototype.name ≠ name)
    (hlink : ∀ f ∈ u.module.functions, f.name = name →
      (∃ d ∈ unit, f.signature ∈ d.body.calls) → ∃ g ∈ own, g.signature = f.signature)
    (added : Option Definition)
    (hown : ∀ g ∈ own, g.isDeclaration = false → ∃ d ∈ added, g = d.compiled)
    (hadded : ∀ d ∈ added, d.prototype.name = name ∧ own = some d.compiled ∧
      ∀ signature ∈ d.body.calls, signature ∈ functions.map Function.signature)
    (unitName : String) : (⟨unitName, functions⟩ : Module).Holds (added.toList ++ unit) where
  nodup := hr.nodup
  distinct := by
    cases added with
    | none => exact h.distinct
    | some d =>
        refine List.nodup_cons.2 ⟨fun hmem => ?_, h.distinct⟩
        obtain ⟨d', hd', heq⟩ := List.mem_map.1 hmem
        exact hne d' hd' (heq.trans (hadded d rfl).1)
  compiled d hd := by
    rcases List.mem_append.1 hd with hd | hd
    · exact hr.mem_own d.compiled (hadded d (Option.mem_toList.1 hd)).2.1
    · refine hr.mem_others d.compiled (List.mem_filter.2 ⟨h.compiled d hd, ?_⟩)
      simpa using hne d hd
  bodies f hf hbody := by
    rcases hr.cases_mem f hf with hf | hf | ⟨p, -, rfl⟩
    · obtain ⟨d, hd, rfl⟩ := h.bodies f (List.mem_filter.1 hf).1 hbody
      exact ⟨d, List.mem_append_right _ hd, rfl⟩
    · obtain ⟨d, hd, rfl⟩ := hown f hf hbody
      exact ⟨d, List.mem_append_left _ (Option.mem_toList.2 hd), rfl⟩
    · cases hbody
  linked d hd signature hsignature := by
    rcases List.mem_append.1 hd with hd | hd
    · exact (hadded d (Option.mem_toList.1 hd)).2.2 signature hsignature
    · obtain ⟨f, hf, rfl⟩ := List.mem_map.1 (h.linked d hd signature hsignature)
      by_cases hname : f.name = name
      · obtain ⟨g, hg, heq⟩ := hlink f hf hname ⟨d, hd, hsignature⟩
        exact List.mem_map.2 ⟨g, hr.mem_own g hg, heq⟩
      · refine List.mem_map_of_mem (hr.mem_others f (List.mem_filter.2 ⟨hf, ?_⟩))
        simpa using hname

/-- Without its latest definition a unit holds the others, if they do not call that one. -/
theorem erase {m : Module} {d : Definition} (h : m.Holds (d :: unit))
    (hcalled : ∀ d' ∈ unit, ∀ signature ∈ d'.body.calls, signature.name ≠ d.prototype.name) :
    (m.erase d.prototype.name).Holds unit := by
  have hmem : ∀ f, f ∈ (m.erase d.prototype.name).functions ↔
      f ∈ m.functions ∧ f.name ≠ d.prototype.name := by
    intro f
    by_cases hname : f.name = d.prototype.name
    · have hnames : (m.erase d.prototype.name).functions.map Function.name =
          (m.functions.map Function.name).erase d.prototype.name := by
        rw [List.erase_eq_eraseP', List.eraseP_map]
        rfl
      refine iff_of_false (fun hf => ?_) fun hf => hf.2 hname
      have hmem := List.mem_map_of_mem (f := Function.name) hf
      rw [hnames, hname] at hmem
      exact h.nodup.not_mem_erase hmem
    · refine (List.mem_eraseP_of_neg (by simpa using hname)).trans ?_
      exact (and_iff_left hname).symm
  obtain ⟨hnew, hdistinct⟩ := List.nodup_cons.1 h.distinct
  refine ⟨?_, hdistinct, fun d' hd => ?_, fun f hf hbody => ?_,
    fun d' hd signature hsignature => ?_⟩
  · exact (List.eraseP_sublist.map Function.name).nodup h.nodup
  · refine (hmem _).2 ⟨h.compiled d' (List.mem_cons_of_mem d hd), fun heq => hnew ?_⟩
    exact List.mem_map.2 ⟨d', hd, heq⟩
  · obtain ⟨d', hd, rfl⟩ := h.bodies f ((hmem f).1 hf).1 hbody
    rcases List.mem_cons.1 hd with rfl | hd
    · exact absurd rfl ((hmem _).1 hf).2
    · exact ⟨d', hd, rfl⟩
  · obtain ⟨f, hf, rfl⟩ := List.mem_map.1
      (h.linked d' (List.mem_cons_of_mem d hd) signature hsignature)
    exact List.mem_map_of_mem ((hmem f).2 ⟨hf, hcalled d' hd _ hsignature⟩)

theorem isBodiless_iff {m : Module} (h : m.Holds unit) : m.isBodiless = true ↔ unit = [] := by
  rw [isBodiless, List.all_eq_true]
  refine ⟨fun hall => ?_, fun hunit f hf => ?_⟩
  · refine List.eq_nil_iff_forall_not_mem.2 fun d hd => ?_
    have hbody := hall _ (h.compiled d hd)
    rw [d.isDeclaration_compiled] at hbody
    cases hbody
  · cases hbody : f.isDeclaration with
    | true => rfl
    | false =>
        obtain ⟨d, hd, -⟩ := h.bodies f hf hbody
        rw [hunit] at hd
        cases hd

/-- Unloading the latest definition drops the unit if it was the only one. -/
theorem unloadFrom_eq {m : Module} {d : Definition} (h : m.Holds (d :: unit))
    (hcalled : ∀ d' ∈ unit, ∀ signature ∈ d'.body.calls, signature.name ≠ d.prototype.name)
    (older : List Module) :
    Engine.unloadFrom d.prototype.name (m :: older) =
      if unit.isEmpty then older else m.erase d.prototype.name :: older := by
  have hfind : m.find? d.prototype.name = some d.compiled :=
    find?_eq_some_of_mem h.nodup (h.compiled d List.mem_cons_self)
  have hbodiless : (m.erase d.prototype.name).isBodiless = unit.isEmpty := by
    rw [Bool.eq_iff_iff, (h.erase hcalled).isBodiless_iff, List.isEmpty_iff]
  simp only [Engine.unloadFrom, hfind, hbodiless]

end Code.Module.Holds

end ScalarLang
