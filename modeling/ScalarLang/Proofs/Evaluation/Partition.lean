import ScalarLang.Proofs.Session.Unit

/-!
# Evaluation under another partition into units

If every name has one definition in all units together, a call of the name leads to
that definition from every unit. So the value of a definition depends on the
definitions in order, and not on how they are parted into units
(`Units.evaluate_eq_of_flatten_eq`).
-/

namespace ScalarLang

namespace Units

variable {units units' : Units} {own own' : List Definition}

/-- A call leads to the one definition of its name, from whichever unit it is made. -/
theorem resolve?_of_nodup (hnodup : (units.flatten.map (·.prototype.name)).Nodup)
    (hown : own ∈ units) (name : String) :
    match Definition.find? units.flatten name with
    | some d => ∃ unit ∈ units, units.resolve? own name = some (.definition unit d)
    | none => units.resolve? own name = (Native.ofName? name).map .native := by
  rw [resolve?]
  cases hsome : (own :: units).findSome? fun unit => (Definition.find? unit name).map (unit, ·) with
  | some found =>
      obtain ⟨unit, d⟩ := found
      obtain ⟨unit', hunit, hfound⟩ := List.exists_of_findSome?_eq_some hsome
      obtain ⟨d', hd, heq⟩ := Option.map_eq_some_iff.1 hfound
      cases heq
      have hmem : unit ∈ units := by
        rcases List.mem_cons.1 hunit with rfl | hunit
        · exact hown
        · exact hunit
      have hname : d.prototype.name = name := by simpa using List.find?_some hd
      have hfind : Definition.find? units.flatten name = some d :=
        (Definition.find?_eq_some_iff hnodup).2
          ⟨List.mem_flatten_of_mem hmem (List.mem_of_find?_eq_some hd), hname⟩
      rw [hfind]
      exact ⟨unit, hmem, rfl⟩
  | none =>
      have hfind : Definition.find? units.flatten name = none := by
        rw [Definition.find?_eq_none_iff]
        intro d hd
        obtain ⟨unit, hunit, hmem⟩ := List.mem_flatten.1 hd
        have hunit := List.findSome?_eq_none_iff.1 hsome unit (List.mem_cons_of_mem own hunit)
        exact Definition.find?_eq_none_iff.1 (Option.map_eq_none_iff.1 hunit) d hmem
      rw [hfind]

/-- Parting the definitions into other units leaves the value of a definition. -/
theorem evaluate_eq_of_flatten_eq (heq : units.flatten = units'.flatten)
    (hnodup : (units.flatten.map (·.prototype.name)).Nodup) (limit room : Nat)
    (hown : own ∈ units) (hown' : own' ∈ units') (d : Definition) (args : List Float) :
    units.evaluate limit room own d args = units'.evaluate limit room own' d args := by
  induction room generalizing own own' d args with
  | zero => rfl
  | succ room ih =>
      have hdispatch : units.dispatch (units.evaluate limit room) own =
          units'.dispatch (units'.evaluate limit room) own' := by
        funext callee args
        have hresolve := resolve?_of_nodup hnodup hown callee
        have hresolve' := resolve?_of_nodup (heq ▸ hnodup) hown' callee
        rw [← heq] at hresolve'
        rw [dispatch, dispatch]
        cases hfind : Definition.find? units.flatten callee with
        | some d =>
            rw [hfind] at hresolve hresolve'
            obtain ⟨unit, hunit, hresolve⟩ := hresolve
            obtain ⟨unit', hunit', hresolve'⟩ := hresolve'
            rw [hresolve, hresolve']
            exact ih hunit hunit' d args
        | none =>
            rw [hfind] at hresolve hresolve'
            dsimp only at hresolve hresolve'
            rw [hresolve, hresolve']
            cases Native.ofName? callee <;> rfl
      rw [evaluate, evaluate, hdispatch]

end Units

end ScalarLang
