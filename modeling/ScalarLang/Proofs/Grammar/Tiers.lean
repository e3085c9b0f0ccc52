import ScalarLang.Proofs.Grammar.Basic

/-!
# Tiers of operators

Joining the operands of one tier makes derivations of its nonterminal out of those
of the next tighter one (`Links.join`). The other way round, every derivation is a
primary with links whose operators belong to the nonterminal, and joining its tiers
gives the derived term (`Operands.operator`).
-/

namespace ScalarLang

/-- The tiers of the operators that a nonterminal joins, the tightest first. -/
def Level.tiers : Level → List Tier
  | tier .comparison => [.product, .sum, .comparison]
  | tier .sum => [.product, .sum]
  | tier .product => [.product]
  | primary => []

theorem Tier.tiers_tier (tier : Tier) : (Level.tier tier).tiers = tier.tighter.tiers ++ [tier] := by
  cases tier <;> rfl

theorem Tier.not_mem_tiers_tighter (tier : Tier) : tier ∉ tier.tighter.tiers := by
  cases tier <;> decide

theorem Tier.mem_tiers_comparison (tier : Tier) : tier ∈ (Level.tier .comparison).tiers := by
  cases tier <;> decide

theorem Links.append {operand : List Token → Term → Prop} {v v' : List Token}
    {links links' : List (Operator × Term)} (h : Links operand v links)
    (h' : Links operand v' links') : Links operand (v ++ v') (links ++ links') := by
  induction h with
  | nil => exact h'
  | cons he _ ih =>
      rw [List.cons_append, List.append_assoc]
      exact .cons he ih

/-- Joining a tier keeps the tokens, and derives the operands of the next looser tier. -/
theorem Links.join {tier : Tier} {u v : List Token} {first : Term}
    {links : List (Operator × Term)} (hfirst : Derives (.tier tier) u first)
    (h : Links (Derives tier.tighter) v links) :
    ∃ u' v', u ++ v = u' ++ v' ∧
      Derives (.tier tier) u' (Operator.joinWith Term.operation tier first links).1 ∧
      Links (Derives (.tier tier)) v' (Operator.joinWith Term.operation tier first links).2 := by
  induction h generalizing u first with
  | nil => exact ⟨u, [], rfl, hfirst, .nil⟩
  | @cons op x y e links he hlinks ih =>
      rw [Operator.joinWith]
      split
      next htier =>
        subst htier
        obtain ⟨u', v', heq, hderives, hrest⟩ := ih (.operator hfirst he)
        exact ⟨u', v', by rw [← heq]; simp, hderives, hrest⟩
      · obtain ⟨u', v', heq, hderives, hrest⟩ := ih (.tighter he)
        exact ⟨u, .punctuator op.mark :: (u' ++ v'), by rw [heq], hfirst, .cons hderives hrest⟩

/-- A primary with links derives what joining all its tiers gives. -/
theorem Derives.joinAll {u v : List Token} {first : Term} {links : List (Operator × Term)}
    (hfirst : Derives .primary u first) (h : Links (Derives .primary) v links) :
    Derives (.tier .comparison) (u ++ v)
      (Operator.joinAllWith Term.operation [.product, .sum, .comparison] first links).1 := by
  have hprimary : Derives (.tier .product) u first := .tighter hfirst
  obtain ⟨u₁, v₁, heq₁, hproduct, hlinks₁⟩ := Links.join hprimary h
  have hproduct : Derives (.tier .sum) u₁ _ := .tighter hproduct
  obtain ⟨u₂, v₂, heq₂, hsum, hlinks₂⟩ := Links.join hproduct hlinks₁
  have hsum : Derives (.tier .comparison) u₂ _ := .tighter hsum
  obtain ⟨u₃, v₃, heq₃, hcomparison, hlinks₃⟩ := Links.join hsum hlinks₂
  have hall : ∀ link ∈ links, link.1.tier ∈ (Level.tier .comparison).tiers := fun link _ =>
    link.1.tier.mem_tiers_comparison
  have hnone := Operator.joinAllWith_snd_eq_nil Term.operation hall first
  simp only [Level.tiers, Operator.joinAllWith] at hnone ⊢
  rw [hnone] at hlinks₃
  cases hlinks₃
  rw [heq₁, heq₂, heq₃, List.append_nil]
  exact hcomparison

/-- An operand with links that join to a term. -/
def Operands (operand : List Token → Term → Prop) (level : Level) (w : List Token) (e : Term) :
    Prop :=
  ∃ u first v links, w = u ++ v ∧ operand u first ∧ Links operand v links ∧
    (∀ link ∈ links, link.1.tier ∈ level.tiers) ∧
      Operator.joinAllWith Term.operation level.tiers first links = (e, [])

namespace Operands

variable {operand : List Token → Term → Prop}

theorem primary {w : List Token} {e : Term} (h : operand w e) : Operands operand .primary w e :=
  ⟨w, e, [], [], (List.append_nil w).symm, h, .nil, nofun, rfl⟩

theorem tighter {tier : Tier} {w : List Token} {e : Term}
    (h : Operands operand tier.tighter w e) : Operands operand (.tier tier) w e := by
  obtain ⟨u, first, v, links, heq, hfirst, hlinks, htiers, hjoin⟩ := h
  refine ⟨u, first, v, links, heq, hfirst, hlinks, fun link hlink => ?_, ?_⟩
  · rw [tier.tiers_tier]
    exact List.mem_append_left _ (htiers link hlink)
  · rw [tier.tiers_tier, Operator.joinAllWith_append, hjoin]
    rfl

theorem operator {op : Operator} {x y : List Token} {lhs rhs : Term}
    (hl : Operands operand (.tier op.tier) x lhs) (hr : Operands operand op.tier.tighter y rhs) :
    Operands operand (.tier op.tier) (x ++ .punctuator op.mark :: y)
      (.binary op.char lhs rhs) := by
  obtain ⟨u, first, v, links, rfl, hfirst, hlinks, htiers, hjoin⟩ := hl
  obtain ⟨u', first', v', links', rfl, hfirst', hlinks', htiers', hjoin'⟩ := hr
  refine ⟨u, first, v ++ .punctuator op.mark :: (u' ++ v'), links ++ (op, first') :: links',
    by simp, hfirst, ?_, fun link hlink => ?_, ?_⟩
  · exact hlinks.append (.cons hfirst' hlinks')
  · rw [op.tier.tiers_tier] at htiers ⊢
    rcases List.mem_append.1 hlink with hlink | hlink
    · exact htiers link hlink
    · rcases List.mem_cons.1 hlink with rfl | hlink
      · exact List.mem_append_right _ (List.mem_singleton_self _)
      · exact List.mem_append_left _ (htiers' link hlink)
  · rw [op.tier.tiers_tier, Operator.joinAllWith_append] at hjoin ⊢
    rw [Operator.joinAllWith_append_of_not_mem op.tier.not_mem_tiers_tighter, hjoin']
    exact Operator.joinWith_append_operator hjoin rhs

end Operands

end ScalarLang
