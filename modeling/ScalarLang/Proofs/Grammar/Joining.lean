import Mathlib.Data.List.Induction
import Mathlib.Data.List.Nodup
import ScalarLang.Operator

/-!
# Joining operands tier by tier

How an operator chain is joined does not depend on what its operands are, only on how an
operator is applied to two of them. What is joined of a chain comes apart at the last of its
loosest operators: the result is that operator, applied to what the parts on either side are
joined to (`Operator.exists_joinAllWith_eq`).
-/

namespace ScalarLang

/-- How tightly an operator binds. -/
inductive Tier where
  | comparison
  | sum
  | product
  deriving DecidableEq, Repr, Inhabited

namespace Operator

/-- The tier of an operator: products bind tighter than sums, and sums than comparisons. -/
def tier : Operator → Tier
  | arithmetic .add | arithmetic .sub => .sum
  | arithmetic .mul | arithmetic .div => .product
  | comparison _ => .comparison

variable {α β : Type}

/-- Joins the operands around the operators of a tier, from left to right. -/
def joinWith (apply : Operator → α → α → α) (tier : Tier) :
    α → List (Operator × α) → α × List (Operator × α)
  | first, [] => (first, [])
  | first, (op, operand) :: links =>
    if op.tier = tier then joinWith apply tier (apply op first operand) links
    else (first, (op, (joinWith apply tier operand links).1) ::
      (joinWith apply tier operand links).2)

/-- Joins one tier after the other. -/
def joinAllWith (apply : Operator → α → α → α) :
    List Tier → α → List (Operator × α) → α × List (Operator × α)
  | [], first, links => (first, links)
  | tier :: tiers, first, links =>
    joinAllWith apply tiers (joinWith apply tier first links).1 (joinWith apply tier first links).2

/-- Maps the operands of a chain. -/
def mapOperands (f : α → β) (links : List (Operator × α)) : List (Operator × β) :=
  links.map fun link => (link.1, f link.2)

section Map

variable {apply : Operator → α → α → α} {apply' : Operator → β → β → β} {f : α → β}

/-- What commutes with the operators commutes with joining. -/
theorem joinWith_map (hf : ∀ op x y, f (apply op x y) = apply' op (f x) (f y)) (tier : Tier)
    (first : α) (links : List (Operator × α)) :
    joinWith apply' tier (f first) (mapOperands f links) =
      (f (joinWith apply tier first links).1,
        mapOperands f (joinWith apply tier first links).2) := by
  induction links generalizing first with
  | nil => rfl
  | cons link links ih =>
      obtain ⟨op, operand⟩ := link
      rw [mapOperands, List.map_cons, joinWith, joinWith]
      split
      · rw [← hf]
        exact ih _
      · have htail := ih operand
        rw [mapOperands] at htail
        rw [htail]
        rfl

theorem joinAllWith_map (hf : ∀ op x y, f (apply op x y) = apply' op (f x) (f y))
    (tiers : List Tier) (first : α) (links : List (Operator × α)) :
    joinAllWith apply' tiers (f first) (mapOperands f links) =
      (f (joinAllWith apply tiers first links).1,
        mapOperands f (joinAllWith apply tiers first links).2) := by
  induction tiers generalizing first links with
  | nil => rfl
  | cons tier tiers ih =>
      rw [joinAllWith, joinWith_map hf]
      exact ih _ _

end Map

variable {apply : Operator → α → α → α}

/-- Joining a tier leaves the operators of the other tiers. -/
theorem map_fst_joinWith (tier : Tier) (first : α) (links : List (Operator × α)) :
    (joinWith apply tier first links).2.map Prod.fst =
      (links.map Prod.fst).filter (·.tier ≠ tier) := by
  induction links generalizing first with
  | nil => rfl
  | cons link links ih =>
      obtain ⟨op, operand⟩ := link
      by_cases h : op.tier = tier
      · simpa [joinWith, h] using ih (apply op first operand)
      · simpa [joinWith, h] using ih operand

/-- Joining all tiers of the operators leaves none. -/
theorem joinAllWith_snd_eq_nil (apply : Operator → α → α → α) {tiers : List Tier}
    {links : List (Operator × α)} (h : ∀ link ∈ links, link.1.tier ∈ tiers) (first : α) :
    (joinAllWith apply tiers first links).2 = [] := by
  induction tiers generalizing first links with
  | nil =>
      refine List.eq_nil_iff_forall_not_mem.2 fun link hlink => ?_
      cases h link hlink
  | cons tier tiers ih =>
      refine ih (fun link hlink => ?_) _
      have hop := List.mem_map_of_mem (f := Prod.fst) hlink
      rw [map_fst_joinWith, List.mem_filter] at hop
      obtain ⟨link', hlink', hfst⟩ := List.mem_map.1 hop.1
      have htier := h link' hlink'
      rw [hfst] at htier
      exact (List.mem_cons.1 htier).resolve_left (by simpa using hop.2)

/-- An operator of another tier separates what is joined. -/
theorem joinWith_append_of_ne {tier : Tier} {op : Operator} (h : op.tier ≠ tier) (first x : α)
    (links links' : List (Operator × α)) :
    joinWith apply tier first (links ++ (op, x) :: links') =
      ((joinWith apply tier first links).1, (joinWith apply tier first links).2 ++
        (op, (joinWith apply tier x links').1) :: (joinWith apply tier x links').2) := by
  induction links generalizing first with
  | nil => simp [joinWith, h]
  | cons link links ih =>
      obtain ⟨op', operand⟩ := link
      rw [List.cons_append, joinWith, joinWith]
      split
      · exact ih _
      · rw [ih operand]
        rfl

theorem joinAllWith_append_of_not_mem {tiers : List Tier} {op : Operator} (h : op.tier ∉ tiers)
    (first x : α) (links links' : List (Operator × α)) :
    joinAllWith apply tiers first (links ++ (op, x) :: links') =
      ((joinAllWith apply tiers first links).1, (joinAllWith apply tiers first links).2 ++
        (op, (joinAllWith apply tiers x links').1) :: (joinAllWith apply tiers x links').2) := by
  induction tiers generalizing first x links links' with
  | nil => rfl
  | cons tier tiers ih =>
      have htier : op.tier ≠ tier := fun heq => h (heq ▸ List.mem_cons_self)
      have htiers : op.tier ∉ tiers := fun hmem => h (List.mem_cons_of_mem tier hmem)
      rw [joinAllWith, joinWith_append_of_ne htier]
      exact ih htiers _ _ _ _

/-- An operator behind links of its own tier joins them to what follows. -/
theorem joinWith_append_operator {op : Operator} {first e : α} {links : List (Operator × α)}
    (h : joinWith apply op.tier first links = (e, [])) (x : α) :
    joinWith apply op.tier first (links ++ [(op, x)]) = (apply op e x, []) := by
  induction links generalizing first with
  | nil =>
      obtain rfl : first = e := congrArg Prod.fst h
      simp [joinWith]
  | cons link links ih =>
      obtain ⟨op', operand⟩ := link
      rw [joinWith] at h
      rw [List.cons_append, joinWith]
      split
      next htier =>
        rw [if_pos htier] at h
        exact ih h
      next htier =>
        rw [if_neg htier] at h
        cases congrArg Prod.snd h

theorem joinAllWith_append (tiers tiers' : List Tier) (first : α) (links : List (Operator × α)) :
    joinAllWith apply (tiers ++ tiers') first links =
      joinAllWith apply tiers' (joinAllWith apply tiers first links).1
        (joinAllWith apply tiers first links).2 := by
  induction tiers generalizing first links with
  | nil => rfl
  | cons tier tiers ih => exact ih _ _

/-- Tiers behind those of the operators have nothing to join. -/
theorem joinAllWith_append_singleton {tiers : List Tier} {links : List (Operator × α)}
    (h : ∀ link ∈ links, link.1.tier ∈ tiers) (tier : Tier) (first : α) :
    (joinAllWith apply (tiers ++ [tier]) first links).1 =
      (joinAllWith apply tiers first links).1 := by
  rw [joinAllWith_append, joinAllWith_snd_eq_nil apply h]
  rfl

@[simp] theorem joinAllWith_nil (apply : Operator → α → α → α) (tiers : List Tier) (first : α) :
    joinAllWith apply tiers first [] = (first, []) := by
  induction tiers with
  | nil => rfl
  | cons tier tiers ih => exact ih

/-- Links whose operators belong to the tiers are joined in front of one whose operator does not,
and what is left of the others does not depend on them. -/
theorem joinAllWith_append_of_head {tiers : List Tier} {links links' : List (Operator × α)}
    (h : ∀ link ∈ links, link.1.tier ∈ tiers) (h' : ∀ link ∈ links'.head?, link.1.tier ∉ tiers)
    (first x : α) :
    joinAllWith apply tiers first (links ++ links') =
      ((joinAllWith apply tiers first links).1, (joinAllWith apply tiers x links').2) := by
  have hnone := joinAllWith_snd_eq_nil apply h first
  cases links' with
  | nil =>
      rw [List.append_nil, joinAllWith_nil]
      exact Prod.ext rfl hnone
  | cons link links' =>
      have hlink := h' link rfl
      have hfirst : joinAllWith apply tiers x ([] ++ link :: links') = _ :=
        joinAllWith_append_of_not_mem hlink x link.2 [] links'
      rw [List.nil_append, joinAllWith_nil] at hfirst
      rw [hfirst, joinAllWith_append_of_not_mem hlink, hnone]

/-- An operator takes the tighter links behind its operand first, and then joins, if no tighter
operator follows these. -/
theorem joinAllWith_cons_append {tiers : List Tier} (tiers' : List Tier) {op : Operator}
    {links links' : List (Operator × α)} (hop : op.tier ∉ tiers)
    (h : ∀ link ∈ links, link.1.tier ∈ tiers) (h' : ∀ link ∈ links'.head?, link.1.tier ∉ tiers)
    (first x : α) :
    joinAllWith apply (tiers ++ op.tier :: tiers') first ((op, x) :: (links ++ links')) =
      joinAllWith apply (tiers ++ op.tier :: tiers')
        (apply op first (joinAllWith apply tiers x links).1) links' := by
  have hlinks : joinAllWith apply tiers first ([] ++ (op, x) :: (links ++ links')) = _ :=
    joinAllWith_append_of_not_mem hop first x [] (links ++ links')
  have hbehind : joinAllWith apply tiers _ ([] ++ links') = _ :=
    joinAllWith_append_of_head (List.forall_mem_nil _) h'
      (apply op first (joinAllWith apply tiers x links).1) x
  rw [List.nil_append, joinAllWith_nil, joinAllWith_append_of_head h h' x x] at hlinks
  rw [List.nil_append, joinAllWith_nil] at hbehind
  rw [joinAllWith_append, joinAllWith_append, hlinks, hbehind, List.nil_append, joinAllWith,
    joinAllWith, joinWith, if_pos rfl]

/-- The last link of a tier. -/
theorem exists_last {tier : Tier} {links : List (Operator × α)}
    (h : ∃ link ∈ links, link.1.tier = tier) :
    ∃ before op x after, links = before ++ (op, x) :: after ∧ op.tier = tier ∧
      ∀ link ∈ after, link.1.tier ≠ tier := by
  induction links with
  | nil =>
      obtain ⟨link, hlink, -⟩ := h
      cases hlink
  | cons link links ih =>
      by_cases hlater : ∃ link ∈ links, link.1.tier = tier
      · obtain ⟨before, op, x, after, rfl, htier, hafter⟩ := ih hlater
        exact ⟨link :: before, op, x, after, rfl, htier, hafter⟩
      · obtain ⟨link', hlink', htier⟩ := h
        rcases List.mem_cons.1 hlink' with rfl | hmem
        · exact ⟨[], _, _, links, rfl, htier, fun link hlink heq => hlater ⟨link, hlink, heq⟩⟩
        · exact absurd ⟨link', hmem, htier⟩ hlater

/-- What is joined of a chain comes apart at the last of its loosest operators. -/
theorem exists_joinAllWith_eq (apply : Operator → α → α → α) {tiers : List Tier}
    (hnodup : tiers.Nodup) (first : α) {links : List (Operator × α)} (hne : links ≠ [])
    (h : ∀ link ∈ links, link.1.tier ∈ tiers) :
    ∃ before op x after, links = before ++ (op, x) :: after ∧
      (joinAllWith apply tiers first links).1 =
        apply op (joinAllWith apply tiers first before).1 (joinAllWith apply tiers x after).1 := by
  induction tiers using List.reverseRecOn with
  | nil =>
      obtain ⟨link, links, rfl⟩ := List.exists_cons_of_ne_nil hne
      cases h link List.mem_cons_self
  | append_singleton tiers tier ih =>
      obtain ⟨hnodup, -, hdisjoint⟩ := List.nodup_append.1 hnodup
      by_cases hlast : ∃ link ∈ links, link.1.tier = tier
      · -- The operators behind the last one of the loosest tier are all joined before it.
        obtain ⟨before, op, x, after, rfl, rfl, hafter⟩ := exists_last hlast
        have hnot : op.tier ∉ tiers := fun hmem =>
          hdisjoint _ hmem _ (List.mem_singleton_self _) rfl
        have htighter : ∀ link ∈ after, link.1.tier ∈ tiers := by
          intro link hlink
          have hmem := h link (List.mem_append_right _ (List.mem_cons_of_mem _ hlink))
          exact (List.mem_append.1 hmem).resolve_right fun heq =>
            hafter link hlink (List.mem_singleton.1 heq)
        have hbefore : joinWith apply op.tier (joinAllWith apply tiers first before).1
            (joinAllWith apply tiers first before).2 =
              ((joinAllWith apply (tiers ++ [op.tier]) first before).1, []) := by
          have hnone := joinAllWith_snd_eq_nil apply
            (fun link hlink => h link (List.mem_append_left _ hlink)) first
          rw [← hnone, joinAllWith_append]
          rfl
        refine ⟨before, op, x, after, rfl, ?_⟩
        rw [joinAllWith_append_singleton htighter, joinAllWith_append,
          joinAllWith_append_of_not_mem hnot, joinAllWith_snd_eq_nil apply htighter]
        exact congrArg Prod.fst (joinWith_append_operator hbefore _)
      · have htighter : ∀ link ∈ links, link.1.tier ∈ tiers := fun link hlink =>
          (List.mem_append.1 (h link hlink)).resolve_right fun heq =>
            hlast ⟨link, hlink, List.mem_singleton.1 heq⟩
        obtain ⟨before, op, x, after, rfl, heq⟩ := ih hnodup htighter
        refine ⟨before, op, x, after, rfl, ?_⟩
        rw [joinAllWith_append_singleton htighter, heq, joinAllWith_append_singleton,
          joinAllWith_append_singleton]
        · exact fun link hlink =>
            htighter link (List.mem_append_right _ (List.mem_cons_of_mem _ hlink))
        · exact fun link hlink => htighter link (List.mem_append_left _ hlink)

end Operator

end ScalarLang
