import Mathlib.Data.List.Forall2
import ScalarLang.Proofs.Evaluation.Folding
import ScalarLang.Proofs.Validity.Folding

/-!
# Equivalent functions

Two functions are equivalent if their bodies return the same, whatever the calls in them come
to. A run sees no more of a function than that: where the functions of all loaded units are
equivalent, every run comes to the same (`Engine.run_eq_of_equivalent`). A valid function is
equivalent to what folding makes of it, so loaded functions can be folded (`Engine.run_fold`).
-/

namespace ScalarLang

open Code

namespace Frame

/-- The same activation, said to be one of another body. -/
def retarget (target : Target) (f : Frame) : Frame := { f with target := target }

variable {target : Target} {f : Frame}

theorem read_retarget : (f.retarget target).read = f.read := by
  funext o
  cases o <;> rfl

theorem demand_retarget (hname : target.function.name = f.target.function.name) :
    (f.retarget target).demand = f.demand := by
  funext o
  rw [demand, demand, read_retarget]
  simp only [retarget, hname]

/-- Carrying out instructions does not look at the body that they are from, but for its name. -/
theorem carryOut_retarget (call : String → List Float → Eval Float)
    (hname : target.function.name = f.target.function.name) (is : List Instruction) :
    (f.retarget target).carryOut call is = retarget target <$> f.carryOut call is := by
  induction is generalizing f with
  | nil => simp [carryOut]
  | cons i is ih =>
      cases hcall : i.callee? with
      | none =>
          rw [carryOut_cons_of_not_call call _ is hcall, carryOut_cons_of_not_call call f is hcall,
            read_retarget]
          cases i.evaluate f.read with
          | none =>
              simp only [retarget, hname]
              rfl
          | some value => exact ih (f := f.assign i.dest value) hname
      | some name =>
          cases i with
          | arithmetic | compare | widen => cases hcall
          | call dest callee args =>
              simp only [carryOut, demand_retarget hname, map_bind]
              congr 1
              funext values
              congr 1
              funext value
              exact ih (f := f.assign dest value) hname

end Frame

/-- What a body returns for the given arguments, given what its calls come to. -/
def Target.value (call : String → List Float → Eval Float) (t : Target) (args : List Float) :
    Eval Float :=
  (Frame.enter t args).returnValue call t.entry.instructions

/-- A body returns the same in every unit. -/
theorem Target.value_congr_unit (call : String → List Float → Eval Float) (unit unit' : Module)
    (f : Function) (entry : Block) (args : List Float) :
    value call ⟨unit', f, entry⟩ args = value call ⟨unit, f, entry⟩ args := by
  have hcarry (unit' : Module) :
      ((Frame.enter ⟨unit, f, entry⟩ args).retarget ⟨unit', f, entry⟩).carryOut call
          entry.instructions = Frame.retarget ⟨unit', f, entry⟩ <$>
        (Frame.enter ⟨unit, f, entry⟩ args).carryOut call entry.instructions := by
    apply Frame.carryOut_retarget
    rfl
  calc value call ⟨unit', f, entry⟩ args
      = (Frame.retarget ⟨unit', f, entry⟩ <$>
          (Frame.enter ⟨unit, f, entry⟩ args).carryOut call entry.instructions) >>= fun g =>
            Eval.ofExcept g.result := by rw [← hcarry unit']; rfl
    _ = (Frame.retarget ⟨unit, f, entry⟩ <$>
          (Frame.enter ⟨unit, f, entry⟩ args).carryOut call entry.instructions) >>= fun g =>
            Eval.ofExcept g.result := by
          simp only [bind_map_left]
          congr 1
    _ = value call ⟨unit, f, entry⟩ args := by rw [← hcarry unit]; rfl

/-- Related elements lead to related first values. -/
theorem findSome?_rel {α β γ δ : Type} {R : α → β → Prop} {S : γ → δ → Prop} {xs : List α}
    {ys : List β} (h : List.Forall₂ R xs ys) {f : α → Option γ} {g : β → Option δ}
    (hfg : ∀ x y, R x y → Option.Rel S (f x) (g y)) :
    Option.Rel S (xs.findSome? f) (ys.findSome? g) := by
  induction h with
  | nil => exact .none
  | cons hxy _ ih =>
      have hhead := hfg _ _ hxy
      rw [List.findSome?_cons, List.findSome?_cons]
      generalize f _ = a, g _ = b at hhead
      cases hhead with
      | none => exact ih
      | some hvalue => exact .some hvalue

/-- The functions have the same name and parameters, and what their bodies return is the same. -/
structure Code.Function.Equivalent (f g : Function) : Prop where
  name : g.name = f.name
  params : g.params = f.params
  entry : Option.Rel (fun b c => ∀ call unit args,
    Target.value call ⟨unit, g, c⟩ args = Target.value call ⟨unit, f, b⟩ args)
      f.entryBlock? g.entryBlock?

/-- The units have equivalent functions, in the same order. -/
def Code.Module.Equivalent (m m' : Module) : Prop :=
  List.Forall₂ Function.Equivalent m.functions m'.functions

/-- The bodies are of equivalent units and return the same. -/
structure Target.Equivalent (t t' : Target) : Prop where
  unit : t.unit.Equivalent t'.unit
  name : t'.function.name = t.function.name
  params : t'.function.params = t.function.params
  value : ∀ call args, t'.value call args = t.value call args

namespace Code

theorem Function.Equivalent.refl (f : Function) : f.Equivalent f := by
  refine ⟨rfl, rfl, ?_⟩
  cases f.entryBlock? with
  | none => exact .none
  | some b => exact .some fun _ _ _ => rfl

/-- Code in order assigns every register once, and none that was defined before. -/
theorem nodup_dest_of_scopeViolations {s : Scope} {is : List Instruction}
    (h : scopeViolations s is = []) :
    (∀ i ∈ is, i.dest ∉ s.defined) ∧ (is.map Instruction.dest).Nodup := by
  induction is generalizing s with
  | nil => simp
  | cons i is ih =>
      obtain ⟨-, hfree, hrest⟩ := scopeViolations_cons_eq_nil_iff.1 h
      rw [Scope.assign_of_isFree hfree] at hrest
      obtain ⟨hnew, hnodup⟩ := ih hrest
      have hother : ∀ j ∈ is, j.dest ≠ i.dest ∧ j.dest ∉ s.defined := by
        simpa only [List.mem_cons, not_or] using hnew
      rw [List.map_cons, List.nodup_cons, List.mem_map]
      refine ⟨List.forall_mem_cons.2 ⟨(Scope.isFree_iff.1 hfree).2, fun j hj => (hother j hj).2⟩,
        ?_, hnodup⟩
      rintro ⟨j, hj, heq⟩
      exact (hother j hj).1 heq

/-- Folding a valid function gives an equivalent one. -/
theorem Function.Valid.equivalent_fold {m : Module} {f : Function} (h : f.Valid m) :
    f.Equivalent f.fold := by
  have hblocks := (Function.valid_iff.1 h).1.blocks
  refine ⟨rfl, rfl, ?_⟩
  rw [f.entryBlock?_fold, Function.entryBlock?]
  cases hf : f.blocks with
  | nil => exact .none
  | cons b bs =>
      rw [hf] at hblocks
      obtain ⟨hbody, -⟩ := blockScopeViolations_cons_eq_nil_iff.1 hblocks
      refine .some fun call unit args => ?_
      exact Frame.returnValue_foldFirst call args rfl rfl rfl
        (nodup_dest_of_scopeViolations hbody).2

namespace Module.Equivalent

variable {m m' : Module}

theorem refl (m : Module) : m.Equivalent m :=
  List.forall₂_same.2 fun f _ => .refl f

/-- Under every name there are equivalent bodies, or none. -/
theorem target? (h : m.Equivalent m') (name : String) :
    Option.Rel Target.Equivalent (m.target? name) (m'.target? name) := by
  have hfind : Option.Rel Function.Equivalent (m.find? name) (m'.find? name) := by
    rw [find?, find?, ← List.findSome?_guard, ← List.findSome?_guard]
    refine findSome?_rel h fun f g hfg => ?_
    rw [Option.guard, Option.guard, hfg.name]
    cases f.name == name with
    | true => exact .some hfg
    | false => exact .none
  rw [Module.target?, Module.target?]
  generalize m.find? name = a, m'.find? name = b at hfind
  cases hfind with
  | none => exact .none
  | @some f g hfg =>
      have hentry := hfg.entry
      simp only [Option.bind_eq_bind, Option.bind_some]
      generalize f.entryBlock? = a, g.entryBlock? = b at hentry
      cases hentry with
      | none => exact .none
      | some hvalue =>
          refine .some ⟨h, hfg.name, hfg.params, fun call args => ?_⟩
          exact (hvalue call m' args).trans (Target.value_congr_unit call m m' f _ args)

end Module.Equivalent

end Code

namespace Engine

variable {e e' : Engine}

/-- A call comes to the same if equivalent bodies do. -/
theorem dispatch_eq_of_equivalent (hunits : List.Forall₂ Module.Equivalent e.units e'.units)
    {evaluate evaluate' : Target → List Float → Eval Float}
    (hevaluate : ∀ t t', t.Equivalent t' → evaluate' t' = evaluate t) {m m' : Module}
    (hm : m.Equivalent m') : e'.dispatch evaluate' m' = e.dispatch evaluate m := by
  funext callee args
  have hown := hm.target? callee
  have hnewest := findSome?_rel hunits fun _ _ hunit => hunit.target? callee
  rw [dispatch, dispatch, resolve?, resolve?]
  generalize m.target? callee = a, m'.target? callee = a' at hown
  generalize e.units.findSome? _ = b, e'.units.findSome? _ = b' at hnewest
  cases hown with
  | some ht => exact congrFun (hevaluate _ _ ht) args
  | none =>
      cases hnewest with
      | some ht => exact congrFun (hevaluate _ _ ht) args
      | none => cases Native.ofName? callee <;> rfl

/-- Equivalent bodies have the same values, whatever room is left. -/
theorem evaluate_eq_of_equivalent (hunits : List.Forall₂ Module.Equivalent e.units e'.units)
    (hlimit : e'.limit = e.limit) (room : Nat) {t t' : Target} (h : t.Equivalent t') :
    e'.evaluate room t' = e.evaluate room t := by
  funext args
  induction room generalizing t t' args with
  | zero => rw [evaluate, evaluate, hlimit]
  | succ room ih =>
      have hdispatch := dispatch_eq_of_equivalent hunits
        (fun t t' ht => funext fun args => ih ht args) h.unit
      rw [evaluate, evaluate, h.name, h.params, hdispatch]
      split
      · exact h.value _ args
      · rfl

/-- Where all functions are equivalent, a run comes to the same. -/
theorem run_eq_of_equivalent (hunits : List.Forall₂ Module.Equivalent e.units e'.units)
    (hlimit : e'.limit = e.limit) (symbol : String) : e'.run symbol = e.run symbol := by
  have hentry : Option.Rel Target.Equivalent (e.units.head?.bind (·.target? symbol))
      (e'.units.head?.bind (·.target? symbol)) := by
    obtain ⟨units, limit⟩ := e
    obtain ⟨units', limit'⟩ := e'
    cases hunits with
    | nil => exact .none
    | cons hunit _ => exact hunit.target? symbol
  rw [run_eq_toRun, run_eq_toRun, hlimit]
  generalize e.units.head?.bind _ = a, e'.units.head?.bind _ = a' at hentry
  cases hentry with
  | none => rfl
  | some ht =>
      dsimp only
      rw [evaluate_eq_of_equivalent hunits hlimit _ ht]

/-- Folding a valid function of a loaded unit changes no run: not its result, and not the calls of
natives. -/
theorem run_fold (limit : Nat) (newer older : List Module) {unit : String}
    {before after : List Function} {f : Function} (h : f.Valid ⟨unit, before ++ f :: after⟩)
    (symbol : String) :
    Engine.run ⟨newer ++ ⟨unit, before ++ f.fold :: after⟩ :: older, limit⟩ symbol =
      Engine.run ⟨newer ++ ⟨unit, before ++ f :: after⟩ :: older, limit⟩ symbol := by
  have hfunctions : Module.Equivalent ⟨unit, before ++ f :: after⟩
      ⟨unit, before ++ f.fold :: after⟩ :=
    List.rel_append (List.forall₂_same.2 fun g _ => .refl g)
      (.cons h.equivalent_fold (List.forall₂_same.2 fun g _ => .refl g))
  have hunits : List.Forall₂ Module.Equivalent
      (newer ++ ⟨unit, before ++ f :: after⟩ :: older)
      (newer ++ ⟨unit, before ++ f.fold :: after⟩ :: older) :=
    List.rel_append (List.forall₂_same.2 fun m _ => .refl m)
      (.cons hfunctions (List.forall₂_same.2 fun m _ => .refl m))
  exact @run_eq_of_equivalent ⟨_, limit⟩ ⟨_, limit⟩ hunits rfl symbol

/-- A function that prints and calls itself without end is folded, and called from a later unit. -/
theorem run_fold_recursion :
    let body (is : List Instruction) : Function :=
      ⟨"f", ["x"], [⟨"entry", is, some (.register "calltmp3")⟩]⟩
    let f := body [.widen "booltmp1" (.constant 1),
      .call "calltmp2" "printd" [.register "booltmp1"],
      .call "calltmp3" "f" [.register "booltmp1"]]
    let folded := body [.call "calltmp2" "printd" [.constant 1],
      .call "calltmp3" "f" [.constant 1]]
    let printd : Function := ⟨"printd", ["x"], []⟩
    let later : Module := ⟨"later", [⟨"g", [],
      [⟨"entry", [.call "calltmp1" "f" [.constant 0]], some (.register "calltmp1")⟩]⟩]⟩
    f.Valid ⟨"first", [f, printd]⟩ ∧ f.fold = folded ∧
      Engine.run ⟨[later, ⟨"first", [folded, printd]⟩], 3⟩ "g" =
        Engine.run ⟨[later, ⟨"first", [f, printd]⟩], 3⟩ "g" := by
  intro body f folded printd later
  have hvalid : f.Valid ⟨"first", [] ++ f :: [printd]⟩ := by decide
  have hfold : f.fold = folded := rfl
  have hrun := run_fold 3 [later] [] hvalid "g"
  rw [hfold] at hrun
  exact ⟨hvalid, hfold, hrun⟩

end Engine

end ScalarLang
