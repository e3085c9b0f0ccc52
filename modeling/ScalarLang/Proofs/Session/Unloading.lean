import ScalarLang.Proofs.Session.Residence

/-!
# What a run unloads

A function is unloaded by its name, from the newest unit that has a function of it, be it only
declared there (`Engine.removesNewest_unloadFrom`). So the newest body of a name is removed if and
only if no unit in front of it declares the name (`Engine.unload_removesNewest_iff`). And a run
leaves the units from before it as they are if and only if its own unit has a function of the name
that is run, or none of them has one (`Engine.execute_frames_iff`).
-/

namespace ScalarLang

open Code

namespace Code.Module

/-- Whether there is a function of the name, with a body or without. -/
def mentions (m : Module) (name : String) : Bool := m.functions.any (·.name == name)

/-- Whether there is a body of the name. -/
def defines (m : Module) (name : String) : Bool :=
  m.functions.any fun f => f.name == name && !f.isDeclaration

theorem isSome_find? (m : Module) (name : String) : (m.find? name).isSome = m.mentions name :=
  List.isSome_find?

theorem find?_eq_none_of_not_mentions {m : Module} {name : String} (h : m.mentions name = false) :
    m.find? name = none := by
  rwa [← isSome_find?, Option.isSome_eq_false_iff, Option.isNone_iff_eq_none] at h

theorem not_defines_of_not_mentions {m : Module} {name : String} (h : m.mentions name = false) :
    m.defines name = false := by
  refine List.any_eq_false.2 fun f hf hbody => List.any_eq_false.1 h f hf ?_
  exact (Bool.and_eq_true_iff.1 hbody).1

theorem mentions_without (m : Module) (name : String) : (m.without name).mentions name = false := by
  refine List.any_eq_false.2 fun f hf => ?_
  simpa using name_ne_of_mem_without f hf

theorem defines_without (m : Module) (name : String) : (m.without name).defines name = false :=
  not_defines_of_not_mentions (m.mentions_without name)

theorem erase_eq_self_of_not_mentions {m : Module} {name : String} (h : m.mentions name = false) :
    m.erase name = m :=
  congrArg (Module.mk m.name) (List.eraseP_of_forall_not (List.any_eq_false.1 h))

theorem erase_ne_of_mentions {m : Module} {name : String} (h : m.mentions name = true) :
    m.erase name ≠ m := by
  obtain ⟨f, hf, hname⟩ := List.any_eq_true.1 h
  have hlength : (m.erase name).functions.length = m.functions.length - 1 :=
    List.length_eraseP_of_mem hf hname
  have hpos := List.length_pos_of_mem hf
  intro heq
  rw [heq] at hlength
  omega

end Code.Module

namespace Engine

variable {name : String} {units after newer older : List Module} {unit : Module}

/-- Of the units that `holds` picks out, the newest one loses the function of the name, and is
dropped if no body is left in it. All else stays as it is. -/
def RemovesNewest (holds : Module → Bool) (name : String) (units after : List Module) : Prop :=
  (∀ unit ∈ units, holds unit = false) ∧ after = units ∨
  ∃ newer unit older, units = newer ++ unit :: older ∧
    (∀ m ∈ newer, holds m = false) ∧ holds unit = true ∧
    after = newer ++ if (unit.without name).isBodiless then older else unit.without name :: older

theorem unloadFrom_cons_of_not_mentions (h : unit.mentions name = false) (older : List Module) :
    unloadFrom name (unit :: older) = unit :: unloadFrom name older := by
  simp only [unloadFrom, Module.find?_eq_none_of_not_mentions h]

theorem unloadFrom_cons_of_mentions (h : unit.mentions name = true) (older : List Module) :
    unloadFrom name (unit :: older) =
      if (unit.erase name).isBodiless then older else unit.erase name :: older := by
  rw [← Module.isSome_find?] at h
  obtain ⟨f, hf⟩ := Option.isSome_iff_exists.1 h
  simp only [unloadFrom, hf]

/-- A function is removed from the newest unit that has one of its name. -/
theorem removesNewest_unloadFrom (h : ∀ unit ∈ units, (unit.functions.map Function.name).Nodup) :
    RemovesNewest (·.mentions name) name units (unloadFrom name units) := by
  induction units with
  | nil => exact .inl ⟨nofun, rfl⟩
  | cons unit units ih =>
      obtain ⟨hunit, hunits⟩ := List.forall_mem_cons.1 h
      cases hmentions : unit.mentions name with
      | true =>
          refine .inr ⟨[], unit, units, rfl, nofun, hmentions, ?_⟩
          rw [unloadFrom_cons_of_mentions hmentions, Module.erase_eq_without hunit]
          rfl
      | false =>
          rw [unloadFrom_cons_of_not_mentions hmentions]
          obtain ⟨hnone, hafter⟩ | ⟨newer, m, older, rfl, hnewer, hm, hafter⟩ := ih hunits
          · rw [hafter]
            exact .inl ⟨List.forall_mem_cons.2 ⟨hmentions, hnone⟩, rfl⟩
          · rw [hafter]
            exact .inr ⟨unit :: newer, m, older, rfl, List.forall_mem_cons.2 ⟨hmentions, hnewer⟩,
              hm, rfl⟩

/-- Of the units with a property that needs a function of the name, one is lost if the unit that
loses the function had it. -/
theorem countP_removed (holds : Module → Bool) (hwithout : holds (unit.without name) = false)
    (newer older : List Module) :
    (newer ++ unit :: older).countP holds =
      (newer ++ if (unit.without name).isBodiless then older
        else unit.without name :: older).countP holds + if holds unit then 1 else 0 := by
  have hcount : (if (unit.without name).isBodiless then older
      else unit.without name :: older).countP holds = older.countP holds := by
    split
    · rfl
    · exact List.countP_cons_of_neg (by rw [hwithout]; exact Bool.false_ne_true)
  rw [List.countP_append, List.countP_append, hcount, List.countP_cons, Nat.add_assoc]

/-- With different names in each unit, a body is removed from the newest unit that has one if and
only if the newest unit with a function of the name has one. -/
theorem unload_removesNewest_iff (e : Engine)
    (h : ∀ unit ∈ e.units, (unit.functions.map Function.name).Nodup) (name : String) :
    RemovesNewest (·.mentions name) name e.units (e.unload name).units ∧
      (RemovesNewest (·.defines name) name e.units (e.unload name).units ↔
        ∀ unit, e.units.find? (·.mentions name) = some unit → unit.defines name = true) := by
  have hremoves : RemovesNewest (·.mentions name) name e.units (e.unload name).units :=
    removesNewest_unloadFrom h
  refine ⟨hremoves, ?_⟩
  generalize (e.unload name).units = after at hremoves ⊢
  obtain ⟨hnone, rfl⟩ | ⟨newer, unit, older, hunits, hnewer, hunit, hafter⟩ := hremoves
  · refine iff_of_true ?_ fun unit hfind => ?_
    · exact .inl ⟨fun m hm => Module.not_defines_of_not_mentions (hnone m hm), rfl⟩
    · have hmentions := hnone unit (List.mem_of_find?_eq_some hfind)
      exact absurd (List.find?_some hfind) (Bool.eq_false_iff.1 hmentions)
  have hfind : e.units.find? (·.mentions name) = some unit :=
    List.find?_eq_some_iff_append.2 ⟨hunit, newer, older, hunits, fun m hm => by simp [hnewer m hm]⟩
  constructor
  · intro hclaimed unit' hfind'
    obtain rfl := Option.some.inj (hfind.symm.trans hfind')
    by_contra hunit'
    -- A unit is lost, but none of those with a body of the name.
    have hlost := countP_removed (·.mentions name) (unit.mentions_without name) newer older
    have hkept := countP_removed (·.defines name) (unit.defines_without name) newer older
    rw [← hunits, ← hafter, if_pos hunit] at hlost
    rw [← hunits, ← hafter, if_neg hunit'] at hkept
    obtain ⟨-, rfl⟩ | ⟨newer', m, older', hunits', -, hm, hafter'⟩ := hclaimed
    · exact absurd hlost (Nat.ne_of_lt (Nat.lt_succ_self _))
    · have hlost' := countP_removed (·.defines name) (m.defines_without name) newer' older'
      rw [← hunits', ← hafter', if_pos hm] at hlost'
      omega
  · intro hnewest
    exact .inr ⟨newer, unit, older, hunits,
      fun m hm => Module.not_defines_of_not_mentions (hnewer m hm), hnewest unit hfind, hafter⟩

/-- Both units define `f`, and the newer one loses it. -/
theorem unload_removesNewest_iff_redefined :
    let body : Block := ⟨"entry", [], some (.constant 1)⟩
    let e : Engine := ⟨[⟨"new", [⟨"f", [], [body]⟩, ⟨"g", [], [body]⟩]⟩,
      ⟨"old", [⟨"f", [], [body]⟩]⟩], 64⟩
    (∀ unit ∈ e.units, (unit.functions.map Function.name).Nodup) ∧
      RemovesNewest (·.defines "f") "f" e.units (e.unload "f").units ∧
      (e.unload "f").units.map (·.functions.map Function.name) = [["g"], ["f"]] := by
  intro body e
  have hnames : ∀ unit ∈ e.units, (unit.functions.map Function.name).Nodup := by decide
  refine ⟨hnames, (e.unload_removesNewest_iff hnames "f").2.2 ?_, by decide⟩
  rintro unit hfind
  obtain rfl := Option.some.inj hfind
  decide

/-- A unit that declares `f` loses the declaration, and the body stays in the unit behind it. -/
theorem not_removesNewest_declared :
    let body : Block := ⟨"entry", [], some (.constant 1)⟩
    let e : Engine := ⟨[⟨"new", [⟨"f", [], []⟩, ⟨"g", [], [body]⟩]⟩,
      ⟨"old", [⟨"f", [], [body]⟩]⟩], 64⟩
    (∀ unit ∈ e.units, (unit.functions.map Function.name).Nodup) ∧
      (e.unload "f").units.map (·.functions.map Function.name) = [["g"], ["f"]] ∧
      ¬ RemovesNewest (·.defines "f") "f" e.units (e.unload "f").units := by
  intro body e
  refine ⟨by decide, by decide, ?_⟩
  rintro (⟨hnone, -⟩ | ⟨newer, unit, older, hunits, hnewer, hunit, hafter⟩)
  · exact absurd hnone (by decide)
  · have hlost := countP_removed (·.defines "f") (unit.defines_without "f") newer older
    rw [← hunits, ← hafter, if_pos hunit] at hlost
    exact absurd hlost (by decide)

/-! ### The units beside the one that is run -/

/-- Of the units that are loaded, those from before the run of the unit are as they were, and
with them what is kept of the unit, with the function that is run or without, if it has a body. -/
def Frames (e : Engine) (unit : Module) (symbol : String) (after : Engine) : Prop :=
  ∃ kept, (kept = unit ∨ kept = unit.erase symbol) ∧
    after.units = if kept.isBodiless then e.units else kept :: e.units

theorem unloadFrom_eq_self_iff :
    unloadFrom name units = units ↔ ∀ unit ∈ units, unit.mentions name = false := by
  induction units with
  | nil => exact iff_of_true rfl nofun
  | cons unit units ih =>
      rw [List.forall_mem_cons]
      cases hmentions : unit.mentions name with
      | true =>
          rw [unloadFrom_cons_of_mentions hmentions]
          refine iff_of_false ?_ fun h => Bool.noConfusion h.1
          split
          · exact (List.cons_ne_self _ _).symm
          · exact fun h => Module.erase_ne_of_mentions hmentions (List.cons.inj h).1
      | false =>
          rw [unloadFrom_cons_of_not_mentions hmentions, List.cons.injEq, ih]
          exact and_congr_left' (iff_of_true rfl rfl)

/-- Loading a unit without a function is not undone by unloading the function. -/
theorem cons_unloadFrom_ne (h : unit.mentions name = false) (units : List Module) :
    unit :: unloadFrom name units ≠ units := by
  induction units with
  | nil => exact List.cons_ne_nil _ _
  | cons m units ih =>
      intro heq
      -- The units would start with the loaded one already, and so would those behind it.
      obtain ⟨rfl, heq⟩ := List.cons.inj heq
      rw [unloadFrom_cons_of_not_mentions h] at heq
      exact ih heq

/-- The units that were loaded before a run are left as they are, and the unit that is run is kept
if it has a body, if and only if it has a function of the name, or a body while no unit from before
has a function of the name. Only runs that find no entry do otherwise: they keep their unit, and
unload the function from the units before. -/
theorem execute_frames_iff (e : Engine) (unit : Module) (symbol : String) :
    (e.Frames unit symbol (e.execute unit symbol).2 ↔
      unit.mentions symbol = true ∨
        unit.isBodiless = false ∧ ∀ older ∈ e.units, older.mentions symbol = false) ∧
    (unit.mentions symbol = false →
      (e.execute unit symbol).1.result = .error (.missingEntry symbol) ∧
        (e.execute unit symbol).2.units = unit :: (e.unload symbol).units) ∧
    ∀ s : Session, (s.runTopLevel symbol).2.engine =
      (s.engine.execute s.openUnit.module symbol).2 := by
  have hunits : (e.execute unit symbol).2.units = unloadFrom symbol (unit :: e.units) := rfl
  refine ⟨?_, fun hmentions => ⟨?_, ?_⟩, fun s => rfl⟩
  · cases hmentions : unit.mentions symbol with
    | true =>
        refine iff_of_true ⟨_, .inr rfl, ?_⟩ (.inl rfl)
        rw [hunits, unloadFrom_cons_of_mentions hmentions]
    | false =>
        rw [Frames, hunits, unloadFrom_cons_of_not_mentions hmentions,
          Module.erase_eq_self_of_not_mentions hmentions, or_iff_right Bool.false_ne_true,
          ← unloadFrom_eq_self_iff]
        constructor
        · rintro ⟨kept, hkept, heq⟩
          obtain rfl : kept = unit := hkept.elim id id
          cases hbodiless : kept.isBodiless with
          | true =>
              rw [hbodiless, if_pos rfl] at heq
              exact absurd heq (cons_unloadFrom_ne hmentions e.units)
          | false =>
              rw [hbodiless, if_neg Bool.false_ne_true] at heq
              exact ⟨rfl, (List.cons.inj heq).2⟩
        · rintro ⟨hbodiless, heq⟩
          exact ⟨unit, .inl rfl, by rw [hbodiless, heq, if_neg Bool.false_ne_true]⟩
  · have hnone := Module.find?_eq_none_of_not_mentions hmentions
    have htarget : unit.target? symbol = none := by rw [Module.target?, hnone]; rfl
    have hentry : (e.load unit).units.head?.bind (·.target? symbol) = none := htarget
    rw [execute, run]
    simp only [hentry]
  · rw [hunits, unloadFrom_cons_of_not_mentions hmentions, unload]

/-- A run that finds no `f` unloads that of an older unit, and keeps its own unit, in which there is
nothing. -/
theorem not_frames_missing_entry :
    let e : Engine := ⟨[⟨"old", [⟨"f", [], [⟨"entry", [], some (.constant 1)⟩]⟩]⟩], 64⟩
    let unit : Module := ⟨"new", []⟩
    (e.execute unit "f").1.result = .error (.missingEntry "f") ∧
      (e.execute unit "f").2.units = [unit] ∧ ¬ e.Frames unit "f" (e.execute unit "f").2 := by
  intro e unit
  refine ⟨rfl, rfl, ?_⟩
  rintro ⟨kept, rfl | rfl, hunits⟩
  · have hnames := congrArg (List.map Module.name) hunits
    exact absurd hnames (by decide)
  · have hnames := congrArg (List.map Module.name) hunits
    exact absurd hnames (by decide)

end Engine

end ScalarLang
