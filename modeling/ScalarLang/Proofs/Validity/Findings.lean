import ScalarLang.Proofs.Validity.Faults
import ScalarLang.Proofs.Validity.Registers

/-!
# What the validator finds

The validator goes through a function once, with the registers that it has seen defined. What it
finds are the faults of the function, each of them once and in the order of the text
(`Function.enumerates_violations`). So it accepts exactly the well-formed functions, and of any
other it says what the faults are (`Function.complaints_enumerate_faults`).
-/

namespace ScalarLang

/-! ### Findings in order -/

/-- The entries are all that is found, in the order of the places at which it is found. -/
def Enumerates {α β : Type} (before : α → α → Prop) (finds : α → β → Prop)
    (entries : List β) : Prop :=
  ∃ findings : List (α × β), findings.Pairwise (fun first later => before first.1 later.1) ∧
    (∀ place entry, (place, entry) ∈ findings ↔ finds place entry) ∧
    findings.map Prod.snd = entries

namespace Enumerates

variable {α β γ : Type} {before : α → α → Prop} {finds finds' : α → β → Prop}
  {entries entries' : List β}

theorem nil (h : ∀ place entry, ¬ finds place entry) : Enumerates before finds [] :=
  ⟨[], .nil, fun place entry => iff_of_false List.not_mem_nil (h place entry), rfl⟩

/-- At one place there may be one entry. -/
theorem option (place : α) (found? : Option β) :
    Enumerates before (fun other entry => other = place ∧ found? = some entry) found?.toList := by
  cases found? with
  | none => exact nil fun _ _ h => nomatch h.2
  | some entry =>
      refine ⟨[(place, entry)], List.pairwise_singleton _ _, fun other entry' => ?_, rfl⟩
      rw [List.mem_singleton, Prod.mk.injEq]
      exact and_congr_right fun _ => eq_comm.trans Option.some_inj.symm

theorem ite (place : α) (p : Prop) [Decidable p] (entry : β) :
    Enumerates before (fun other entry' => other = place ∧ p ∧ entry' = entry)
      (if p then [entry] else []) := by
  split
  next hp =>
    refine ⟨[(place, entry)], List.pairwise_singleton _ _, fun other entry' => ?_, rfl⟩
    rw [List.mem_singleton, Prod.mk.injEq]
    exact and_congr_right fun _ => (and_iff_right hp).symm
  next hp => exact nil fun _ _ h => hp h.2.1

theorem congr (h : Enumerates before finds entries)
    (hfinds : ∀ place entry, finds place entry ↔ finds' place entry) :
    Enumerates before finds' entries := by
  obtain ⟨findings, hordered, hmem, hentries⟩ := h
  exact ⟨findings, hordered, fun place entry => (hmem place entry).trans (hfinds place entry),
    hentries⟩

/-- Findings at earlier places come first. -/
theorem append (h : Enumerates before finds entries) (h' : Enumerates before finds' entries')
    (hbefore : ∀ place entry place' entry', finds place entry → finds' place' entry' →
      before place place') :
    Enumerates before (fun place entry => finds place entry ∨ finds' place entry)
      (entries ++ entries') := by
  obtain ⟨findings, hordered, hmem, rfl⟩ := h
  obtain ⟨findings', hordered', hmem', rfl⟩ := h'
  refine ⟨findings ++ findings', ?_, fun place entry => ?_, List.map_append⟩
  · refine List.pairwise_append.2 ⟨hordered, hordered', ?_⟩
    rintro ⟨place, entry⟩ hfirst ⟨place', entry'⟩ hlater
    exact hbefore _ _ _ _ ((hmem _ _).1 hfirst) ((hmem' _ _).1 hlater)
  · rw [List.mem_append, hmem, hmem']

/-- Places may be put into a larger text that keeps their order. -/
theorem map {before' : γ → γ → Prop} (h : Enumerates before finds entries) (move : α → γ)
    (hmove : ∀ place place', before place place' → before' (move place) (move place')) :
    Enumerates before' (fun other entry => ∃ place, other = move place ∧ finds place entry)
      entries := by
  obtain ⟨findings, hordered, hmem, rfl⟩ := h
  refine ⟨findings.map fun finding => (move finding.1, finding.2), ?_, fun other entry => ?_, ?_⟩
  · exact List.pairwise_map.2 (hordered.imp fun hbefore => hmove _ _ hbefore)
  · rw [List.mem_map]
    constructor
    · rintro ⟨⟨place, entry⟩, hfinding, heq⟩
      cases heq
      exact ⟨place, rfl, (hmem place entry).1 hfinding⟩
    · rintro ⟨place, rfl, hfinds⟩
      exact ⟨(place, entry), (hmem place entry).2 hfinds, rfl⟩
  · rw [List.map_map]
    rfl

/-- Entries may be put in other words. -/
theorem mapEntry (h : Enumerates before finds entries) (word : β → γ) :
    Enumerates before (fun place entry' => ∃ entry, finds place entry ∧ entry' = word entry)
      (entries.map word) := by
  obtain ⟨findings, hordered, hmem, rfl⟩ := h
  refine ⟨findings.map fun finding => (finding.1, word finding.2), ?_, fun place entry' => ?_, ?_⟩
  · exact List.pairwise_map.2 hordered
  · rw [List.mem_map]
    constructor
    · rintro ⟨⟨place, entry⟩, hfinding, heq⟩
      cases heq
      exact ⟨entry, (hmem place entry).1 hfinding, rfl⟩
    · rintro ⟨entry, hfinds, rfl⟩
      exact ⟨(place, entry), (hmem place entry).2 hfinds, rfl⟩
  · rw [List.map_map, List.map_map]
    rfl

/-- The findings at the first of several numbered places, and then those at the others. -/
theorem cons (finds : Nat → α → β → Prop) (h : Enumerates before (finds 0) entries)
    (h' : Enumerates (Prod.Lex (· < ·) before) (fun place => finds (place.1 + 1) place.2)
      entries') :
    Enumerates (Prod.Lex (· < ·) before) (fun place => finds place.1 place.2)
      (entries ++ entries') := by
  have hfirst : Enumerates (Prod.Lex (· < ·) before) _ entries :=
    h.map (Prod.mk 0) fun _ _ hbefore => .right 0 hbefore
  have hlater : Enumerates (Prod.Lex (· < ·) before) _ entries' :=
    h'.map (fun place => (place.1 + 1, place.2)) fun _ _ hbefore => by
      cases hbefore with
      | left _ _ hlt => exact .left _ _ (Nat.succ_lt_succ hlt)
      | right _ hbefore => exact .right _ hbefore
  refine (hfirst.append hlater ?_).congr ?_
  · rintro _ _ _ _ ⟨place, rfl, -⟩ ⟨place', rfl, -⟩
    exact .left _ _ (Nat.succ_pos _)
  · rintro ⟨_ | index, place⟩ entry
    · simp
    · simp

theorem eq_nil_iff (h : Enumerates before finds entries) :
    entries = [] ↔ ∀ place entry, ¬ finds place entry := by
  obtain ⟨findings, -, hmem, rfl⟩ := h
  rw [List.map_eq_nil_iff, List.eq_nil_iff_forall_not_mem, Prod.forall]
  exact forall₂_congr fun place entry => not_congr (hmem place entry)

end Enumerates

namespace Code

/-! ### Violations in order -/

/-- The order of the places of a list. -/
abbrev Indices : Nat × Unit → Nat × Unit → Prop := Prod.Lex (· < ·) fun _ _ => False

theorem lt_of_indices {place place' : Nat × Unit} (h : Indices place place') :
    place.1 < place'.1 := by
  cases h with
  | left _ _ hlt => exact hlt
  | right _ h => exact h.elim

/-- A name is repeated if it was seen, and afterwards it is. -/
theorem exists_repeats_cons (seen : List String) (name : String) (names : List String) :
    ∃ seen', (∀ other, other ∈ seen' ↔ other ∈ name :: seen) ∧
      repeats seen (name :: names) =
        (if name ∈ seen then [name] else []) ++ repeats seen' names := by
  by_cases hseen : name ∈ seen
  · refine ⟨seen, fun other => ?_, ?_⟩
    · rw [List.mem_cons, or_iff_right_of_imp]
      rintro rfl
      exact hseen
    · rw [repeats, if_pos (List.contains_iff_mem.2 hseen), if_pos hseen]
      rfl
  · refine ⟨name :: seen, fun _ => Iff.rfl, ?_⟩
    rw [repeats, if_neg (mt List.contains_iff_mem.1 hseen), if_neg hseen]
    rfl

/-- A name is repeated at its places behind the first. -/
theorem enumerates_repeats (seen names : List String) :
    Enumerates Indices
      (fun place name => names[place.1]? = some name ∧
        (name ∈ seen ∨ name ∈ names.take place.1))
      (repeats seen names) := by
  induction names generalizing seen with
  | nil => exact .nil (by simp)
  | cons name names ih =>
      obtain ⟨seen', hseen, hrepeats⟩ := exists_repeats_cons seen name names
      rw [hrepeats]
      refine .cons (fun k _ other => (name :: names)[k]? = some other ∧
        (other ∈ seen ∨ other ∈ (name :: names).take k))
        ((Enumerates.ite () (name ∈ seen) name).congr fun _ other => ?_)
        ((ih seen').congr fun place other => ?_)
      · rw [List.getElem?_cons_zero, List.take_zero]
        constructor
        · rintro ⟨-, hname, rfl⟩
          exact ⟨rfl, .inl hname⟩
        · rintro ⟨heq, hname | hname⟩
          · cases heq
            exact ⟨rfl, hname, rfl⟩
          · cases hname
      · rw [List.getElem?_cons_succ, List.take_succ_cons, hseen, List.mem_cons, List.mem_cons,
          or_assoc, or_left_comm]

theorem Instruction.calleeViolation?_eq_some_iff {m : Module} {i : Instruction} {v : Violation} :
    i.calleeViolation? m = some v ↔ i.CalleeFault m v := by
  cases i with
  | arithmetic | compare | widen => exact iff_of_false nofun nofun
  | call dest callee args =>
      rw [calleeViolation?]
      constructor
      · intro h
        split at h
        next hfind =>
          cases h
          exact .undeclared hfind
        next f hfind =>
          split at h
          · cases h
          next hcount =>
            cases h
            exact .argumentCount hfind hcount
      · rintro (hfind | ⟨hfind, hcount⟩)
        · rw [hfind]
        · rw [hfind]
          exact if_neg hcount

namespace Scope.Follows

variable {s : Scope} {params : List String} {before : List Instruction}

theorem mem_defined_iff (h : s.Follows params (before.map Instruction.dest)) {register : String} :
    register ∈ s.defined ↔ register ∉ params ∧ ∃ earlier ∈ before, earlier.dest = register := by
  rw [h.defined, List.mem_map, and_comm]

theorem operandViolation?_eq_none_iff (h : s.Follows params (before.map Instruction.dest))
    {o : Operand} : s.operandViolation? o = none ↔ o.Available params before := by
  cases o with
  | constant value => exact iff_of_true rfl trivial
  | argument name =>
      rw [operandViolation?_argument_eq_none_iff, h.params_eq, Operand.Available]
  | register name =>
      rw [operandViolation?_register_eq_none_iff, h.mem_defined_iff, Operand.Available]

theorem operandViolation?_eq_some_iff (h : s.Follows params (before.map Instruction.dest))
    {o : Operand} {v : Violation} :
    s.operandViolation? o = some v ↔ o.Fault params before v := by
  by_cases hread : o.Available params before
  · rw [h.operandViolation?_eq_none_iff.2 hread]
    exact iff_of_false nofun fun hfault => hfault.not_available hread
  · have hrefused := mt h.operandViolation?_eq_none_iff.1 hread
    cases o with
    | constant value => exact absurd trivial hread
    | argument name =>
        rw [operandViolation?, if_neg fun hmem => hrefused (if_pos hmem), Option.some.injEq]
        constructor
        · rintro rfl
          exact .argument hread
        · rintro ⟨-⟩
          rfl
    | register name =>
        rw [operandViolation?, if_neg fun hmem => hrefused (if_pos hmem), Option.some.injEq]
        constructor
        · rintro rfl
          exact .register hread
        · rintro ⟨-⟩
          rfl

theorem isFree_iff_assignable (h : s.Follows params (before.map Instruction.dest))
    {register : String} : s.isFree register = true ↔ Assignable params before register := by
  rw [Scope.isFree_iff, h.params_eq, h.mem_defined_iff, Assignable]
  refine and_congr_right fun hparams => ?_
  simp [hparams]

theorem behind (h : s.Follows params (before.map Instruction.dest)) (i : Instruction) :
    (s.assign i.dest).Follows params ((before ++ [i]).map Instruction.dest) := by
  rw [List.map_append]
  exact h.assign i.dest

theorem behindAll (h : s.Follows params (before.map Instruction.dest)) (is : List Instruction) :
    (s.assignAll is).Follows params ((before ++ is).map Instruction.dest) := by
  rw [List.map_append]
  exact h.assignAll is

/-- The operands that cannot be read are found in order. -/
theorem enumerates_operands (h : s.Follows params (before.map Instruction.dest))
    (operands : List Operand) :
    Enumerates Indices
      (fun place v => ∃ o, operands[place.1]? = some o ∧ o.Fault params before v)
      (operands.filterMap s.operandViolation?) := by
  induction operands with
  | nil => exact .nil (by simp)
  | cons o operands ih =>
      have hcons : (o :: operands).filterMap s.operandViolation? =
          (s.operandViolation? o).toList ++ operands.filterMap s.operandViolation? := by
        rw [List.filterMap_cons]
        cases s.operandViolation? o <;> rfl
      rw [hcons]
      refine .cons (fun k _ v => ∃ other, (o :: operands)[k]? = some other ∧
        other.Fault params before v) ((Enumerates.option () _).congr fun _ v => ?_) ih
      simp [h.operandViolation?_eq_some_iff]

/-- What is wrong with an instruction is found at its parts, in order. -/
theorem enumerates_instruction (h : s.Follows params (before.map Instruction.dest)) (m : Module)
    (i : Instruction) : Enumerates Part.Before (i.Fault m params before) (i.violations m s) := by
  have hoperands : Enumerates Part.Before _ (i.operands.filterMap s.operandViolation?) :=
    (h.enumerates_operands i.operands).map (fun place => .operand place.1)
      fun _ _ hbefore => .operand (lt_of_indices hbefore)
  have hcallee : Enumerates Part.Before _ (i.calleeViolation? m).toList := .option .callee _
  have hregister : Enumerates Part.Before _
      (if ¬ s.isFree i.dest = true then [Violation.reassigned i.dest] else []) :=
    .ite .register _ _
  rw [ite_not] at hregister
  -- What is found at the three kinds of parts stands in their order, and is all there is.
  refine ((hoperands.append hcallee ?_).append hregister ?_).congr ?_
  · rintro _ _ _ _ ⟨place, rfl, -⟩ ⟨rfl, -⟩
    exact .callee
  · rintro _ _ _ _ (⟨place, rfl, -⟩ | ⟨rfl, -⟩) ⟨rfl, -⟩
    · exact .register
    · exact .calleeRegister
  · rintro (k | _ | _) v
    · simp [Instruction.Fault]
    · simp [Instruction.Fault, Instruction.calleeViolation?_eq_some_iff]
    · simp [Instruction.Fault, ← h.isFree_iff_assignable]

/-- What is wrong with instructions is found one after the other. -/
theorem enumerates_body (h : s.Follows params (before.map Instruction.dest)) (m : Module)
    (is : List Instruction) :
    Enumerates (Prod.Lex (· < ·) Part.Before)
      (fun (place : Nat × Part) v => ∃ i, is[place.1]? = some i ∧
        i.Fault m params (before ++ is.take place.1) place.2 v)
      (bodyViolations m s is) := by
  induction is generalizing s before with
  | nil => exact .nil (by simp)
  | cons i is ih =>
      -- The instructions in front of the later ones end with `i`, and the scope follows them.
      rw [bodyViolations]
      refine .cons (fun k part v => ∃ other, (i :: is)[k]? = some other ∧
        other.Fault m params (before ++ (i :: is).take k) part v)
        ((h.enumerates_instruction m i).congr fun part v => ?_)
        ((ih (h.behind i)).congr fun place v => ?_)
      · simp
      · simp

/-- What is wrong with a block is found line by line. -/
theorem enumerates_block (h : s.Follows params (before.map Instruction.dest)) (m : Module)
    (b : Block) :
    Enumerates Line.Before (b.Fault m params before)
      (bodyViolations m s b.instructions ++
        (b.terminatorViolation? (s.assignAll b.instructions)).toList) := by
  have hbody : Enumerates Line.Before _ (bodyViolations m s b.instructions) :=
    (h.enumerates_body m b.instructions).map (fun place => .instruction place.1 place.2)
      fun _ _ hbefore => by
        cases hbefore with
        | left _ _ hlt => exact .instruction hlt
        | right _ hpart => exact .part hpart
  have hterminator : Enumerates Line.Before _
      (b.terminatorViolation? (s.assignAll b.instructions)).toList := .option .terminator _
  refine (hbody.append hterminator ?_).congr ?_
  · rintro _ _ _ _ ⟨place, rfl, -⟩ ⟨rfl, -⟩
    exact .terminator
  · rintro (⟨k, part⟩ | _) v
    · simp [Block.Fault]
    · cases hvalue : b.terminator with
      | none => simp [Block.Fault, Block.terminatorViolation?, hvalue, eq_comm]
      | some value =>
          simp [Block.Fault, Block.terminatorViolation?, hvalue,
            (h.behindAll b.instructions).operandViolation?_eq_some_iff]

theorem enumerates_blocks (h : s.Follows params (before.map Instruction.dest)) (m : Module)
    (bs : List Block) :
    Enumerates (Prod.Lex (· < ·) Line.Before)
      (fun (place : Nat × Line) v => ∃ b, bs[place.1]? = some b ∧
        b.Fault m params (before ++ (bs.take place.1).flatMap Block.instructions) place.2 v)
      (blockViolations m s bs) := by
  induction bs generalizing s before with
  | nil => exact .nil (by simp)
  | cons b bs ih =>
      rw [blockViolations]
      refine .cons (fun n line v => ∃ other, (b :: bs)[n]? = some other ∧
        other.Fault m params (before ++ ((b :: bs).take n).flatMap Block.instructions) line v)
        ((h.enumerates_block m b).congr fun line v => ?_)
        ((ih (h.behindAll b.instructions)).congr fun place v => ?_)
      · simp
      · simp

end Scope.Follows

namespace Function

/-- The violations of a function are its faults, each of them once, in the order of the text. -/
theorem enumerates_violations (m : Module) (f : Function) :
    Enumerates Site.Before (f.Fault m) (f.violations m) := by
  have hempty : Scope.Follows ⟨f.params, []⟩ f.params (([] : List Instruction).map
    Instruction.dest) := ⟨rfl, by simp⟩
  have hparams : Enumerates Site.Before _ ((repeats [] f.params).map Violation.repeatedParameter) :=
    ((enumerates_repeats [] f.params).mapEntry Violation.repeatedParameter).map
      (fun place => Site.parameter place.1) fun _ _ hbefore => .parameter (lt_of_indices hbefore)
  have hblocks : Enumerates Site.Before _ (blockViolations m ⟨f.params, []⟩ f.blocks) :=
    (hempty.enumerates_blocks m f.blocks).map (fun place => .block place.1 place.2)
      fun _ _ hbefore => by
        cases hbefore with
        | left _ _ hlt => exact .block hlt
        | right _ hline => exact .line hline
  refine (hparams.append hblocks ?_).congr ?_
  · rintro _ _ _ _ ⟨place, rfl, -⟩ ⟨place', rfl, -⟩
    exact .parameterBlock
  · rintro (k | ⟨n, line⟩) v
    · simp [Fault, and_assoc]
    · simp [Fault]

/-- The validator accepts exactly the well-formed functions. Of any other it lists the faults in
words, each of them once, in the order of their places. -/
theorem complaints_enumerate_faults (m : Module) (f : Function) :
    (f.complaints m = [] ↔ f.WellFormed m) ∧
      ∃ findings : List (Site × Violation),
        f.complaints m = findings.map (fun finding => finding.2.message f.name) ∧
        findings.Pairwise (fun first later => first.1.Before later.1) ∧
        (findings.map Prod.fst).Nodup ∧
        ∀ site v, (site, v) ∈ findings ↔ f.Fault m site v := by
  have hviolations := enumerates_violations m f
  constructor
  · rw [complaints_eq_nil_iff, Valid, hviolations.eq_nil_iff, wellFormed_iff]
  · obtain ⟨findings, hordered, hmem, hentries⟩ := hviolations
    refine ⟨findings, ?_, hordered, ?_, hmem⟩
    · rw [complaints, ← hentries, List.map_map]
      rfl
    · refine List.pairwise_map.2 (hordered.imp fun {first later} hbefore heq => ?_)
      rw [heq] at hbefore
      exact Site.not_before_self _ hbefore

/-- The register `x` has the name of a parameter: it is not assigned, and cannot be read. -/
example :
    let code := [.call "x" "g" [.argument "y", .register "x"], .widen "t" (.register "x")]
    violations ⟨"unit", [⟨"g", [], []⟩]⟩ ⟨"f", ["x", "x"], [⟨"entry", code, none⟩]⟩ =
      [.repeatedParameter "x", .unknownArgument "y", .undefinedRegister "x",
        .argumentCount "g" 2 0, .reassigned "x", .undefinedRegister "x",
        .unterminated "entry"] := by
  decide

end Function

end Code

end ScalarLang
