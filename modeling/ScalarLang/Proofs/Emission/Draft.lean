import Mathlib.Data.List.Nodup
import ScalarLang.Emission.Definition
import ScalarLang.Proofs.Emission.Check
import ScalarLang.Proofs.Lowering.Basic

/-!
# Emission into an open body

While a body is open, emission only ever adds instructions to it and declarations
behind the functions of its unit. A `Draft` is such a unit, split at the open
body, and `Draft.grow` is what emission makes of it. `Draft.Emits` is the common
form of the statements here: an action that a check accepts leaves the lowered
code, and one that it refuses fails with the answer of the check.
-/

namespace ScalarLang

open Code

namespace Emit

@[simp] theorem run_throw {α : Type} (error : EmissionError) (u : OpenUnit) :
    (throw error : Emit α).run u = .error error u := rfl

@[simp] theorem throw_bind {α β : Type} (error : EmissionError) (f : α → Emit β) :
    (throw error : Emit α) >>= f = throw error := rfl

theorem run_tryCatch {α : Type} (x : Emit α) (handle : EmissionError → Emit α) (u : OpenUnit) :
    (tryCatch x handle).run u =
      match x.run u with
      | .ok value u => .ok value u
      | .error error u => (handle error).run u := by
  change EStateM.tryCatch x handle u = _
  rw [EStateM.tryCatch, EStateM.run]
  cases x u <;> rfl

/-- A name that is not in the open unit can be declared. -/
theorem run_declare {u : OpenUnit} {name : String} (h : u.module.find? name = none)
    (params : List String) :
    (declare name params).run u = .ok ⟨name, params.length⟩
      ⟨⟨u.module.name, u.module.functions ++ [⟨name, params, []⟩]⟩, u.target, u.registers⟩ := by
  simp only [declare, EStateM.run_bind, EStateM.run_get, h, Option.isSome_none,
    Bool.false_eq_true, if_false, EStateM.run_set, EStateM.run_pure]
  rfl

end Emit

/-- The signature of a prototype. -/
def Prototype.signature (p : Prototype) : Signature := ⟨p.name, p.params.length⟩

/-- A function of the open unit that is only declared. -/
def Prototype.declaration (p : Prototype) : Function := ⟨p.name, p.params, []⟩

@[simp] theorem Prototype.signature_declaration (p : Prototype) :
    p.declaration.signature = p.signature := rfl

/-- The signatures of the functions of the open unit. -/
def OpenUnit.signatures (u : OpenUnit) : List Signature :=
  u.module.functions.map Function.signature

theorem OpenUnit.lookup?_eq (u : OpenUnit) (name : String) :
    u.lookup? name = u.signatures.find? (·.name == name) := by
  rw [lookup?, Module.find?, signatures, List.find?_map]
  rfl

/-- The arity of a function that a call can name: that of the open unit, else the recorded one. -/
def arityIn (signatures : List Signature) (recorded : List Prototype) (name : String) :
    Option Nat :=
  ((signatures.find? (·.name == name)).map Signature.arity).or
    ((recorded.find? (·.name == name)).map fun p => p.params.length)

/-- The open unit while a body is open, split at the function whose body that is. -/
structure Draft where
  unitName : String
  before : List Function
  name : String
  params : List String
  code : List Instruction
  after : List Function
  registers : Nat

namespace Draft

/-- The function whose body is open. -/
def function (t : Draft) : Function := ⟨t.name, t.params, [⟨"entry", t.code, none⟩]⟩

/-- The open unit that a draft stands for. -/
def openUnit (t : Draft) : OpenUnit :=
  ⟨⟨t.unitName, t.before ++ t.function :: t.after⟩, some t.name, t.registers⟩

/-- The names of the functions of the unit. -/
def names (t : Draft) : List String := t.openUnit.signatures.map Signature.name

/-- The draft with more code, the number of its latest register and more declarations. -/
def grow (t : Draft) (code : List Instruction) (latest : Nat) (declared : List Prototype) : Draft :=
  { t with
    code := t.code ++ code
    after := t.after ++ declared.map Prototype.declaration
    registers := latest }

theorem signatures_openUnit (t : Draft) :
    t.openUnit.signatures = t.before.map Function.signature ++
      (⟨t.name, t.params.length⟩ :: t.after.map Function.signature) := by
  simp [OpenUnit.signatures, openUnit, function, Function.signature]

@[simp] theorem signatures_grow (t : Draft) (code : List Instruction) (latest : Nat)
    (declared : List Prototype) :
    (t.grow code latest declared).openUnit.signatures =
      t.openUnit.signatures ++ declared.map Prototype.signature := by
  simp [signatures_openUnit, grow, Function.comp_def]

@[simp] theorem registers_grow (t : Draft) (code : List Instruction) (latest : Nat)
    (declared : List Prototype) : (t.grow code latest declared).registers = latest := rfl

theorem grow_grow (t : Draft) (code code' : List Instruction) (latest latest' : Nat)
    (declared declared' : List Prototype) :
    (t.grow code latest declared).grow code' latest' declared' =
      t.grow (code ++ code') latest' (declared ++ declared') := by
  simp [grow]

theorem grow_nil (t : Draft) : t.grow [] t.registers [] = t := by
  simp [grow]

/-- Declarations that emission may add to the unit: prototypes recorded last for names that the
unit does not have. -/
structure Adds (t : Draft) (recorded declared : List Prototype) : Prop where
  nodup : (t.openUnit.signatures.map Signature.name ++ declared.map Prototype.name).Nodup
  recorded : ∀ p ∈ declared, recorded.find? (·.name == p.name) = some p

namespace Adds

variable {t : Draft} {recorded declared declared' : List Prototype}

theorem nil (h : t.names.Nodup) (recorded : List Prototype) : t.Adds recorded [] :=
  ⟨by simpa [names] using h, by simp⟩

theorem append {code : List Instruction} {latest : Nat} (h : t.Adds recorded declared)
    (h' : (t.grow code latest declared).Adds recorded declared') :
    t.Adds recorded (declared ++ declared') := by
  refine ⟨?_, ?_⟩
  · have hnodup := h'.nodup
    simpa [Function.comp_def, Prototype.signature] using hnodup
  · intro p hp
    rcases List.mem_append.1 hp with hp | hp
    · exact h.recorded p hp
    · exact h'.recorded p hp

theorem names_nodup (h : t.Adds recorded declared) (code : List Instruction) (latest : Nat) :
    (t.grow code latest declared).names.Nodup := by
  have hnodup := h.nodup
  simpa [names, Function.comp_def, Prototype.signature] using hnodup

/-- A name that the unit gets is one whose arity was known before, and the same. -/
theorem arityIn_grow (h : t.Adds recorded declared) (code : List Instruction) (latest : Nat) :
    arityIn (t.grow code latest declared).openUnit.signatures recorded =
      arityIn t.openUnit.signatures recorded := by
  funext name
  rw [arityIn, arityIn, signatures_grow, List.find?_append, List.find?_map]
  cases ht : t.openUnit.signatures.find? (·.name == name) with
  | some signature => rfl
  | none =>
      cases hd : declared.find? ((·.name == name) ∘ Prototype.signature) with
      | none => rfl
      | some p =>
          have hname : p.name = name := by simpa [Prototype.signature] using List.find?_some hd
          have hp := h.recorded p (List.mem_of_find?_eq_some hd)
          rw [hname] at hp
          simp [hp, Prototype.signature]

end Adds

/-- The function whose body is open is the first of its name. -/
theorem before_ne {t : Draft} (h : t.names.Nodup) : ∀ f ∈ t.before, f.name ≠ t.name := by
  intro f hf heq
  rw [names, signatures_openUnit, List.map_append] at h
  have hdisjoint := (List.nodup_append.1 h).2.2
  refine hdisjoint f.name ?_ t.name ?_ heq
  · exact List.mem_map_of_mem (List.mem_map_of_mem hf)
  · simp

end Draft

namespace Code.Module

variable {name : String} {before after : List Function} {f : Function}

theorem modifyFirst_append_cons (change : Function → Function)
    (hbefore : ∀ g ∈ before, g.name ≠ name) (hf : f.name = name) :
    modifyFirst name change (before ++ f :: after) = before ++ change f :: after := by
  induction before with
  | nil => simp [modifyFirst, hf]
  | cons g before ih =>
      have hg : g.name ≠ name := hbefore g List.mem_cons_self
      have hrest : ∀ k ∈ before, k.name ≠ name := fun k hk => hbefore k (List.mem_cons_of_mem g hk)
      simp [modifyFirst, hg, ih hrest]

theorem find?_append_cons (unitName : String) (hbefore : ∀ g ∈ before, g.name ≠ name)
    (hf : f.name = name) : (⟨unitName, before ++ f :: after⟩ : Module).find? name = some f := by
  have hnone : before.find? (·.name == name) = none := by simpa using hbefore
  simp [find?, List.find?_append, hnone, hf]

end Code.Module

namespace Draft

variable {t : Draft}

theorem find?_openUnit (h : t.names.Nodup) : t.openUnit.module.find? t.name = some t.function :=
  Module.find?_append_cons t.unitName (before_ne h) rfl

theorem run_append (h : t.names.Nodup) (i : Instruction) :
    (Emit.append i).run t.openUnit =
      .ok (.register i.dest) (t.grow [i] t.registers []).openUnit := by
  have hbody : t.openUnit.hasBody t.name = true := by
    simp [OpenUnit.hasBody, find?_openUnit h, function, Function.isDeclaration]
  have htarget : t.openUnit.target = some t.name := rfl
  have hmodify : Module.modifyFirst t.name (Function.append i) (t.before ++ t.function :: t.after) =
      t.before ++ t.function.append i :: t.after :=
    Module.modifyFirst_append_cons _ (before_ne h) rfl
  simp only [Emit.append, EStateM.run_bind, EStateM.run_get, htarget, hbody, if_true,
    EStateM.run_set, EStateM.run_pure]
  simp only [OpenUnit.change, Module.modify, openUnit, hmodify, grow]
  simp [function, Function.append, changeLast]

theorem run_newRegister (t : Draft) (stem : String) :
    (Emit.newRegister stem).run t.openUnit =
      .ok (stem ++ Nat.repr (t.registers + 1)) (t.grow [] (t.registers + 1) []).openUnit := by
  simp only [Emit.newRegister, EStateM.run_bind, EStateM.run_modify, EStateM.run_get,
    EStateM.run_pure]
  simp [grow, openUnit, function]

/-- The action does to the draft what the verdict of the check says. If that is a success the body
gets the lowered code, and the unit has the functions that are called. -/
def Emits {α : Type} (t : Draft) (recorded : List Prototype) (verdict : Except EmissionError Unit)
    (x : Emit α) (lowered : Lowered α) (calls : List Signature) : Prop :=
  ∃ declared, t.Adds recorded declared ∧
    match verdict with
    | .ok () =>
      x.run t.openUnit =
          .ok lowered.value (t.grow lowered.code lowered.latest declared).openUnit ∧
        ∀ signature ∈ calls,
          signature ∈ (t.grow lowered.code lowered.latest declared).openUnit.signatures
    | .error error =>
      ∃ code latest, x.run t.openUnit = .error error (t.grow code latest declared).openUnit

namespace Emits

variable {α β : Type} {recorded : List Prototype}

theorem pure (h : t.names.Nodup) (value : α) :
    t.Emits recorded (.ok ()) (pure value) ⟨[], value, t.registers⟩ [] := by
  refine ⟨[], .nil h recorded, ?_, by simp⟩
  rw [EStateM.run_pure, grow_nil]

theorem throw (h : t.names.Nodup) (error : EmissionError) (lowered : Lowered α)
    (calls : List Signature) : t.Emits recorded (.error error) (throw error) lowered calls := by
  refine ⟨[], .nil h recorded, [], t.registers, ?_⟩
  rw [Emit.run_throw, grow_nil]

theorem map {x : Emit α} {l : Lowered α} {verdict : Except EmissionError Unit}
    {calls : List Signature} (h : t.Emits recorded verdict x l calls) (f : α → β) :
    t.Emits recorded verdict (x >>= fun a => Pure.pure (f a)) ⟨l.code, f l.value, l.latest⟩
      calls := by
  obtain ⟨declared, hadds, hrun⟩ := h
  refine ⟨declared, hadds, ?_⟩
  cases verdict with
  | error error =>
      obtain ⟨code, latest, hrun⟩ := hrun
      exact ⟨code, latest, by rw [EStateM.run_bind, hrun]⟩
  | ok _ =>
      refine ⟨?_, hrun.2⟩
      rw [EStateM.run_bind, hrun.1]
      rfl

/-- An action behind another one sees the declarations that the first one added. -/
theorem bind {x : Emit α} {f : α → Emit β} {l : Lowered α} {code : List Instruction}
    {value : β} {latest : Nat} {verdict verdict' : Except EmissionError Unit}
    {calls calls' : List Signature}
    (h : t.Emits recorded verdict x l calls)
    (hf : ∀ declared, t.Adds recorded declared →
      (∀ signature ∈ calls,
        signature ∈ (t.grow l.code l.latest declared).openUnit.signatures) →
      (t.grow l.code l.latest declared).Emits recorded verdict' (f l.value)
        ⟨code, value, latest⟩ calls') :
    t.Emits recorded (verdict >>= fun _ => verdict') (x >>= f)
      ⟨l.code ++ code, value, latest⟩ (calls ++ calls') := by
  obtain ⟨declared, hadds, hrun⟩ := h
  cases verdict with
  | error error =>
      obtain ⟨code, latest, hrun⟩ := hrun
      exact ⟨declared, hadds, code, latest, by rw [EStateM.run_bind, hrun]⟩
  | ok _ =>
      obtain ⟨hrun, hcalls⟩ := hrun
      obtain ⟨declared', hadds', hrun'⟩ := hf declared hadds hcalls
      refine ⟨declared ++ declared', hadds.append hadds', ?_⟩
      cases verdict' with
      | error error =>
          obtain ⟨code, latest, hrun'⟩ := hrun'
          refine ⟨l.code ++ code, latest, ?_⟩
          rw [EStateM.run_bind, hrun, ← grow_grow _ _ _ l.latest]
          exact hrun'
      | ok _ =>
          obtain ⟨hrun', hcalls'⟩ := hrun'
          rw [grow_grow] at hrun' hcalls'
          refine ⟨?_, ?_⟩
          · rw [EStateM.run_bind, hrun]
            exact hrun'
          · intro signature hsignature
            rcases List.mem_append.1 hsignature with hmem | hmem
            · have hold := hcalls signature hmem
              simp only [signatures_grow, List.map_append, List.mem_append] at hold ⊢
              exact hold.imp_right .inl
            · exact hcalls' signature hmem

end Emits

end Draft

end ScalarLang
