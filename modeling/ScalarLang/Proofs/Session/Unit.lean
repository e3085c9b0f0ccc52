import ScalarLang.Proofs.Emission.Compiled
import ScalarLang.Proofs.Evaluation.Tree
import ScalarLang.Proofs.Lowering.Execution

/-!
# Units of code and of definitions

A unit of code holds a list of definitions if its bodies are the compiled ones of
these definitions (`Code.Module.Holds`). Evaluating a definition is then the same
in code and on trees, whichever unit its calls lead to
(`Engine.evaluate_eq_evaluate`).
-/

namespace ScalarLang

open Code

/-- The bodies of the unit are those of the definitions, and their callees are in the unit. -/
structure Code.Module.Holds (m : Module) (unit : List Definition) : Prop where
  nodup : (m.functions.map Function.name).Nodup
  distinct : (unit.map (·.prototype.name)).Nodup
  compiled : ∀ d ∈ unit, d.compiled ∈ m.functions
  bodies : ∀ f ∈ m.functions, f.isDeclaration = false → ∃ d ∈ unit, f = d.compiled
  linked : ∀ d ∈ unit, ∀ signature ∈ d.body.calls, signature ∈ m.functions.map Function.signature

namespace Definition

/-- The block of a definition before its constants are folded. -/
def block (d : Definition) : Block := ⟨"entry", (d.body.lower 0).code, some (d.body.lower 0).value⟩

/-- The body of a definition in a unit. -/
def target (d : Definition) (m : Module) : Target := ⟨m, d.compiled, d.block.foldFirst⟩

theorem entryBlock?_compiled (d : Definition) :
    d.compiled.entryBlock? = some d.block.foldFirst := by
  rw [compiled, Function.entryBlock?_fold]
  rfl

/-- Some check accepts the body. -/
def Checked (d : Definition) : Prop :=
  ∃ arity?, d.body.check arity? d.prototype.params = .ok ()

theorem find?_eq_none_iff {unit : List Definition} {name : String} :
    find? unit name = none ↔ ∀ d ∈ unit, d.prototype.name ≠ name := by
  simp [find?]

theorem find?_eq_some_iff {unit : List Definition} (h : (unit.map (·.prototype.name)).Nodup)
    {name : String} {d : Definition} :
    find? unit name = some d ↔ d ∈ unit ∧ d.prototype.name = name := by
  refine ⟨fun hd => ⟨List.mem_of_find?_eq_some hd, by simpa using List.find?_some hd⟩, ?_⟩
  rintro ⟨hmem, rfl⟩
  cases hfind : find? unit d.prototype.name with
  | none => exact absurd rfl (find?_eq_none_iff.1 hfind d hmem)
  | some d' =>
      have hname : d'.prototype.name = d.prototype.name := by simpa using List.find?_some hfind
      rw [List.inj_on_of_nodup_map h (List.mem_of_find?_eq_some hfind) hmem hname]

end Definition

namespace Code.Module

namespace Holds

variable {m : Module} {unit : List Definition}

/-- The body of a name is that of the definition of the name. -/
theorem target?_eq (h : m.Holds unit) (name : String) :
    m.target? name = (Definition.find? unit name).map (·.target m) := by
  cases hd : Definition.find? unit name with
  | some d =>
      obtain ⟨hmem, rfl⟩ := (Definition.find?_eq_some_iff h.distinct).1 hd
      have hfind : m.find? d.prototype.name = some d.compiled :=
        Module.find?_eq_some_of_mem h.nodup (h.compiled d hmem)
      simp [target?, hfind, d.entryBlock?_compiled, Definition.target]
  | none =>
      cases hf : m.find? name with
      | none => simp [target?, hf]
      | some f =>
          have hname : f.name = name := by simpa using List.find?_some hf
          cases hbody : f.isDeclaration with
          | false =>
              obtain ⟨d, hmem, rfl⟩ := h.bodies f (List.mem_of_find?_eq_some hf) hbody
              exact absurd hname (Definition.find?_eq_none_iff.1 hd d hmem)
          | true =>
              have hblocks : f.blocks = [] := List.isEmpty_iff.1 hbody
              simp [target?, hf, Function.entryBlock?, hblocks]

end Holds

end Code.Module

/-- The loaded units hold the definitions of the units. Units without definitions are not loaded. -/
inductive Loaded : Units → List Module → Prop
  | nil : Loaded [] []
  | bodiless {units : Units} {modules : List Module} : Loaded units modules →
      Loaded ([] :: units) modules
  | cons {unit : List Definition} {units : Units} {m : Module} {modules : List Module} :
      unit ≠ [] → m.Holds unit → Loaded units modules → Loaded (unit :: units) (m :: modules)

namespace Loaded

variable {units : Units} {modules : List Module}

/-- The newest body of a name is that of the newest definition of the name. -/
theorem findSome?_target? (h : Loaded units modules) (name : String) :
    match units.findSome? fun unit => (Definition.find? unit name).map (unit, ·) with
    | none => modules.findSome? (·.target? name) = none
    | some (unit, d) => unit ∈ units ∧ ∃ m : Module, m.Holds unit ∧ d ∈ unit ∧
        modules.findSome? (·.target? name) = some (d.target m) := by
  induction h with
  | nil => rfl
  | @bodiless units modules h ih =>
      change match units.findSome? fun unit => (Definition.find? unit name).map (unit, ·) with
        | none => _
        | some (unit, d) => _
      cases hfound : units.findSome? fun unit => (Definition.find? unit name).map (unit, ·) with
      | none =>
          rw [hfound] at ih
          exact ih
      | some found =>
          rw [hfound] at ih
          exact ⟨List.mem_cons_of_mem _ ih.1, ih.2⟩
  | @cons unit units m modules hne hholds h ih =>
      rw [List.findSome?_cons, List.findSome?_cons, hholds.target?_eq]
      cases hd : Definition.find? unit name with
      | some d =>
          exact ⟨List.mem_cons_self, m, hholds, List.mem_of_find?_eq_some hd, rfl⟩
      | none =>
          simp only [Option.map_none]
          cases hfound : units.findSome? fun unit => (Definition.find? unit name).map (unit, ·) with
          | none =>
              rw [hfound] at ih
              exact ih
          | some found =>
              rw [hfound] at ih
              exact ⟨List.mem_cons_of_mem _ ih.1, ih.2⟩

end Loaded

/-- A call in code leads to the body of what the call leads to in the program. -/
theorem Engine.resolve?_eq {e : Engine} {units : Units} {m : Module} {own : List Definition}
    (hloaded : Loaded units e.units) (hown : m.Holds own) (name : String) :
    match units.resolve? own name with
    | none => e.resolve? m name = none
    | some (.native native) => e.resolve? m name = some (.native native)
    | some (.definition unit d) => unit ∈ own :: units ∧ ∃ m' : Module, m'.Holds unit ∧ d ∈ unit ∧
        e.resolve? m name = some (.body (d.target m')) := by
  have hunits := hloaded.findSome?_target? name
  rw [Units.resolve?, List.findSome?_cons, Engine.resolve?, hown.target?_eq]
  cases hd : Definition.find? own name with
  | some d => exact ⟨List.mem_cons_self, m, hown, List.mem_of_find?_eq_some hd, rfl⟩
  | none =>
      simp only [Option.map_none, Option.none_or]
      cases hfound : units.findSome? fun unit => (Definition.find? unit name).map (unit, ·) with
      | none =>
          rw [hfound] at hunits
          rw [hunits]
          cases Native.ofName? name <;> rfl
      | some found =>
          rw [hfound] at hunits
          obtain ⟨hmem, m', hholds, hd', htarget⟩ := hunits
          refine ⟨List.mem_cons_of_mem _ hmem, m', hholds, hd', ?_⟩
          rw [htarget]

/-- Every parameter of an activation has a value. -/
theorem Definition.exists_lookup_zip {params : List String} {args : List Float}
    (hlength : params.length = args.length) {name : String} (hname : name ∈ params) :
    ∃ value, (params.zip args).reverse.lookup name = some value := by
  rw [← List.map_fst_zip (Nat.le_of_eq hlength)] at hname
  obtain ⟨pair, hpair, rfl⟩ := List.mem_map.1 hname
  refine Option.isSome_iff_exists.1 (List.lookup_isSome_iff.2 ⟨pair, ?_, beq_self_eq_true _⟩)
  exact List.mem_reverse.2 hpair

/-- The body of a definition returns what its text comes to. -/
theorem Definition.returnValue_target (call : String → List Float → Eval Float) {d : Definition}
    (hchecked : d.Checked) {args : List Float} (hlength : d.prototype.params.length = args.length)
    (m : Module) :
    (Frame.enter (d.target m) args).returnValue call (d.target m).entry.instructions =
      d.body.eval call (d.prototype.params.zip args).reverse := by
  have hnodup : (d.block.instructions.map Instruction.dest).Nodup :=
    (d.body.numbers_lower 0).code.nodup
  have hfold : (Frame.enter (d.target m) args).returnValue call (d.target m).entry.instructions =
      (Frame.enter ⟨m, d.written, d.block⟩ args).returnValue call d.block.instructions :=
    Frame.returnValue_foldFirst call args rfl rfl rfl hnodup
  obtain ⟨arity?, hcheck⟩ := hchecked
  have hbody := d.body.related_lower call hcheck 0 (Frame.enter ⟨m, d.written, d.block⟩ args)
    fun name hname => exists_lookup_zip hlength hname
  rw [hfold]
  refine (Eval.Related.eq (hbody.bind_right ?_)).symm
  rintro value g ⟨hvalue, hkeeps⟩
  have hresult : g.result = .ok value := by
    rw [Frame.result, hkeeps.target]
    exact Frame.demand_of_read hvalue
  rw [hresult]
  exact .pure rfl

/-- Evaluating a definition is the same in code and on trees. -/
theorem Engine.evaluate_eq_evaluate {e : Engine} {units : Units} (hloaded : Loaded units e.units)
    (hchecked : ∀ unit ∈ units, ∀ d ∈ unit, Definition.Checked d) (room : Nat) {m : Module}
    {own : List Definition} (hown : m.Holds own) (hownChecked : ∀ d ∈ own, Definition.Checked d)
    {d : Definition} (hd : d ∈ own) (args : List Float) :
    e.evaluate room (d.target m) args = units.evaluate e.limit room own d args := by
  induction room generalizing m own d args with
  | zero => rfl
  | succ room ih =>
      have hcall : e.dispatch (e.evaluate room) m =
          units.dispatch (units.evaluate e.limit room) own := by
        funext callee args
        have hresolve := Engine.resolve?_eq hloaded hown callee
        rw [Engine.dispatch, Units.dispatch]
        cases hcallee : units.resolve? own callee with
        | none =>
            rw [hcallee] at hresolve
            rw [hresolve]
        | some found =>
            rw [hcallee] at hresolve
            cases found with
            | native native => rw [hresolve]
            | definition unit d' =>
                obtain ⟨hmem, m', hholds, hd', heq⟩ := hresolve
                rw [heq]
                refine ih hholds ?_ hd' args
                rcases List.mem_cons.1 hmem with rfl | hmem
                · exact hownChecked
                · exact hchecked unit hmem
      have hunit : (d.target m).unit = m := rfl
      have hname : (d.target m).function.name = d.prototype.name := rfl
      have hparams : (d.target m).function.params = d.prototype.params := rfl
      rw [Engine.evaluate, Units.evaluate, hunit, hname, hparams, hcall]
      split
      next hlength => exact Definition.returnValue_target _ (hownChecked d hd) hlength m
      · rfl

end ScalarLang
