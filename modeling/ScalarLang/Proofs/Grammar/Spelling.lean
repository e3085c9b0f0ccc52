import ScalarLang.Proofs.Grammar.Rereading

/-!
# The tokens of a tree

Every node of a tree that was read is spelled by some of the tokens: its span reaches from the
first to the last of them, they are read as the node again, and the children of the node are
spelled by parts of them, one behind the other (`Spells`). A chain of operands is read as a
tree that joins them tier by tier, so the tokens of a binary node are found by taking the chain
apart at the last of its loosest operators (`spells_tree`).
-/

namespace ScalarLang

namespace Expr

/-- The expressions right below an expression. -/
def children : Expr → List Expr
  | .number _ _ | .var _ _ => []
  | .binary _ lhs rhs _ => [lhs, rhs]
  | .call _ args _ => args

mutual

/-- The expression and everything below it. -/
def nodes (e : Expr) : List Expr :=
  e :: match e with
    | .number _ _ | .var _ _ => []
    | .binary _ lhs rhs _ => lhs.nodes ++ rhs.nodes
    | .call _ args _ => nodesAll args
  termination_by structural e

/-- The expressions and everything below them. -/
def nodesAll (es : List Expr) : List Expr :=
  match es with
  | [] => []
  | e :: es => e.nodes ++ nodesAll es
  termination_by structural es

end

theorem nodesAll_eq_flatMap (es : List Expr) : nodesAll es = es.flatMap nodes := by
  induction es with
  | nil => rfl
  | cons e es ih => rw [nodesAll, ih, List.flatMap_cons]

theorem nodes_eq (e : Expr) : e.nodes = e :: e.children.flatMap nodes := by
  cases e with
  | number | var => rfl
  | binary op lhs rhs span => simp [nodes, children]
  | call callee args span => rw [nodes, nodesAll_eq_flatMap, children]

@[simp] theorem children_withSpan (span : Span) (e : Expr) :
    (e.withSpan span).children = e.children := by
  cases e <;> rfl

end Expr

/-- The span reaches from the first to the last of the tokens. -/
structure Spans (part : List Lexeme) (span : Span) : Prop where
  start : part.head?.map (·.span.start) = some span.start
  stop : part.getLast?.map (·.span.stop) = some span.stop

theorem Spans.singleton (lexeme : Lexeme) : Spans [lexeme] lexeme.span := ⟨rfl, rfl⟩

theorem Spans.ne_nil {part : List Lexeme} {span : Span} (h : Spans part span) : part ≠ [] := by
  rintro rfl
  cases h.start

theorem Spans.exists_first {part : List Lexeme} {span : Span} (h : Spans part span) :
    ∃ first ∈ part, first.span.start = span.start := by
  obtain ⟨first, hfirst, hstart⟩ := Option.map_eq_some_iff.1 h.start
  exact ⟨first, List.mem_of_head? hfirst, hstart⟩

theorem Spans.exists_last {part : List Lexeme} {span : Span} (h : Spans part span) :
    ∃ last ∈ part, last.span.stop = span.stop := by
  obtain ⟨last, hlast, hstop⟩ := Option.map_eq_some_iff.1 h.stop
  exact ⟨last, List.mem_of_getLast? hlast, hstop⟩

/-- A construct from the token that opens it to the one that closes it. -/
theorem Spans.of_getLast? {part : List Lexeme} {close : Lexeme} (h : part.getLast? = some close)
    (first : Lexeme) (between : List Lexeme) :
    Spans (first :: (between ++ part)) (first.span.cover close.span) := by
  refine ⟨rfl, ?_⟩
  rw [← List.cons_append, List.getLast?_append, h]
  rfl

/-- Tokens between two parts belong to what covers both. -/
theorem Spans.cover {u v : List Lexeme} {first last : Span} (hu : Spans u first)
    (hv : Spans v last) (w : List Lexeme) : Spans (u ++ (w ++ v)) (first.cover last) := by
  constructor
  · rw [List.head?_append_of_ne_nil _ hu.ne_nil]
    exact hu.start
  · rw [List.getLast?_append_of_ne_nil _ (List.append_ne_nil_of_right_ne_nil _ hv.ne_nil),
      List.getLast?_append_of_ne_nil _ hv.ne_nil]
    exact hv.stop

/-- The parts are found in the tokens one behind the other. -/
def Holds : List Lexeme → List (List Lexeme) → Prop
  | _, [] => True
  | tokens, part :: parts => ∃ before after, tokens = before ++ (part ++ after) ∧ Holds after parts

theorem Holds.append {tokens : List Lexeme} {parts : List (List Lexeme)} (h : Holds tokens parts)
    (before after : List Lexeme) : Holds (before ++ (tokens ++ after)) parts := by
  induction parts generalizing tokens before with
  | nil => trivial
  | cons part parts ih =>
      obtain ⟨u, v, rfl, hv⟩ := h
      refine ⟨before ++ u, v ++ after, by simp, ih hv []⟩

theorem Holds.isInfix {tokens : List Lexeme} {parts : List (List Lexeme)} (h : Holds tokens parts)
    {part : List Lexeme} (hpart : part ∈ parts) : part <:+: tokens := by
  induction parts generalizing tokens with
  | nil => cases hpart
  | cons part' parts ih =>
      obtain ⟨u, v, rfl, hv⟩ := h
      rcases List.mem_cons.1 hpart with rfl | hpart
      · exact ⟨u, v, by simp⟩
      · obtain ⟨u', v', rfl⟩ := ih hv hpart
        exact ⟨u ++ (part' ++ u'), v', by simp⟩

/-- The part is what the node is read from, and its children are spelled by parts of it. -/
inductive Spells : List Lexeme → Expr → Prop
  | intro {part : List Lexeme} {e : Expr} (parts : List (List Lexeme × Expr)) :
      (Parse.expression part).result = (.ok e, []) → Spans part e.span →
      parts.map Prod.snd = e.children → Holds part (parts.map Prod.fst) →
      (∀ p ∈ parts, Spells p.1 p.2) → Spells part e

theorem Spells.reads {part : List Lexeme} {e : Expr} (h : Spells part e) :
    (Parse.expression part).result = (.ok e, []) := by
  cases h
  assumption

theorem Spells.spans {part : List Lexeme} {e : Expr} (h : Spells part e) : Spans part e.span := by
  cases h
  assumption

/-- Every node is spelled somewhere in the tokens of the tree. -/
theorem Spells.exists_isInfix {part : List Lexeme} {e : Expr} (h : Spells part e) :
    ∀ node ∈ e.nodes, ∃ part', part' <:+: part ∧ Spells part' node := by
  induction h with
  | @intro part e parts hread hspans hchildren hholds hparts ih =>
      intro node hnode
      rw [Expr.nodes_eq] at hnode
      rcases List.mem_cons.1 hnode with rfl | hnode
      · exact ⟨part, List.infix_refl _, .intro parts hread hspans hchildren hholds hparts⟩
      · obtain ⟨child, hchild, hnode⟩ := List.mem_flatMap.1 hnode
        rw [← hchildren] at hchild
        obtain ⟨p, hp, rfl⟩ := List.mem_map.1 hchild
        obtain ⟨part', hpart, hspells⟩ := ih p hp node hnode
        exact ⟨part', hpart.trans (hholds.isInfix (List.mem_map_of_mem hp)), hspells⟩

theorem Stops.endOfInput (w : List Token) : Stops w .endOfInput := ⟨nofun, nofun⟩

namespace Chain

/-- A chain with links comes apart at an operator that joins the trees of both sides. -/
theorem exists_tree_eq (first : Expr) {chain : Chain} (hne : chain ≠ []) :
    ∃ before op x after, chain = before ++ (op, x) :: after ∧
      tree first chain = .operation op (tree first before) (tree x after) :=
  Operator.exists_joinAllWith_eq Expr.operation (by decide) first hne fun link _ =>
    link.1.tier.mem_tiers_comparison

end Chain

namespace Parse

/-- The tokens spell the primary, and it is read from them in front of whatever separates them. -/
structure Operand (part : List Lexeme) (e : Expr) : Prop where
  reads : ∀ rest, Separates (part.map Lexeme.token) (nextToken rest) →
    (primary (part ++ rest)).result = (.ok e, rest)
  spells : Spells part e

/-- The tokens are the operators of the chain, each in front of its operand. -/
inductive Linked : List Lexeme → Chain → Prop
  | nil : Linked [] []
  | cons {op : Operator} {span : Span} {u v : List Lexeme} {e : Expr} {chain : Chain} :
      Operand u e → Linked v chain →
      Linked (⟨.punctuator op.mark, span⟩ :: (u ++ v)) ((op, e) :: chain)

/-- An operator separates what is in front of it. -/
theorem Linked.separates {u v rest : List Lexeme} {chain : Chain} (h : Linked v chain)
    (hstops : Stops ((u ++ v).map Lexeme.token) (nextToken rest)) :
    Separates (u.map Lexeme.token) (nextToken (v ++ rest)) := by
  cases h with
  | nil =>
      rw [List.append_nil] at hstops
      exact hstops.call
  | cons => exact .operator _ _

theorem operators_of_linked {v : List Lexeme} {chain : Chain} (h : Linked v chain)
    (rest : List Lexeme) (hstops : Stops (v.map Lexeme.token) (nextToken rest)) :
    (operators (v ++ rest)).result = (.ok chain, rest) := by
  induction h with
  | nil => exact result_operators_of_stops hstops.operator
  | @cons op span u v e chain hoperand hlinked ih =>
      have hboth := (Stops.of_append (u := [_]) hstops).1
      rw [List.map_append] at hboth
      have hprimary := hoperand.reads (v ++ rest) (hlinked.separates (List.map_append ▸ hboth))
      rw [List.cons_append, List.append_assoc, result_operators_cons, hprimary, Reading.Result.bind,
        ih (Stops.of_append hboth).1]
      rfl

theorem expression_of_linked {u v : List Lexeme} {first : Expr} {chain : Chain}
    (hfirst : Operand u first) (h : Linked v chain) (rest : List Lexeme)
    (hstops : Stops ((u ++ v).map Lexeme.token) (nextToken rest)) :
    (expression (u ++ v ++ rest)).result = (.ok (Chain.tree first chain), rest) := by
  have hprimary := hfirst.reads (v ++ rest) (h.separates hstops)
  rw [List.map_append] at hstops
  rw [List.append_assoc, result_expression, hprimary, Reading.Result.bind,
    operators_of_linked h rest (Stops.of_append hstops).1]
  rfl

theorem Linked.exists_split {v : List Lexeme} {before after : Chain} {op : Operator} {x : Expr}
    (h : Linked v (before ++ (op, x) :: after)) :
    ∃ v₁ span u v₂, v = v₁ ++ ⟨.punctuator op.mark, span⟩ :: (u ++ v₂) ∧ Linked v₁ before ∧
      Operand u x ∧ Linked v₂ after := by
  induction before generalizing v with
  | nil =>
      cases h with
      | @cons _ span u v _ _ hoperand hlinked =>
          exact ⟨[], span, u, v, rfl, .nil, hoperand, hlinked⟩
  | cons link before ih =>
      cases h with
      | @cons _ span u v _ _ hoperand hlinked =>
          obtain ⟨v₁, span', u', v₂, rfl, hbefore, hx, hafter⟩ := ih hlinked
          exact ⟨⟨_, span⟩ :: (u ++ v₁), span', u', v₂, by simp, .cons hoperand hbefore, hx, hafter⟩

/-- The tokens of a chain spell its tree. -/
theorem spells_tree {u v : List Lexeme} {first : Expr} {chain : Chain} (hfirst : Operand u first)
    (h : Linked v chain) : Spells (u ++ v) (Chain.tree first chain) := by
  by_cases hnil : chain = []
  · subst hnil
    cases h
    rw [List.append_nil]
    exact hfirst.spells
  · have hread := expression_of_linked hfirst h [] (.endOfInput _)
    obtain ⟨before, op, x, after, rfl, htree⟩ := Chain.exists_tree_eq first hnil
    obtain ⟨v₁, span, u', v₂, rfl, hbefore, hx, hafter⟩ := h.exists_split
    have hlhs := spells_tree hfirst hbefore
    have hrhs := spells_tree hx hafter
    rw [List.append_nil, htree] at hread
    rw [htree]
    refine .intro [(u ++ v₁, Chain.tree first before), (u' ++ v₂, Chain.tree x after)] hread ?_
      rfl ?_ ?_
    · have hspans := hlhs.spans.cover hrhs.spans [⟨.punctuator op.mark, span⟩]
      rw [List.append_assoc] at hspans
      exact hspans
    · exact ⟨[], ⟨.punctuator op.mark, span⟩ :: (u' ++ v₂), by simp,
        [⟨.punctuator op.mark, span⟩], [], by simp, trivial⟩
    · rw [List.forall_mem_cons, List.forall_mem_singleton]
      exact ⟨hlhs, hrhs⟩
  termination_by chain.length

/-- The tokens end with the parenthesis that closes the arguments, and parts of them spell those. -/
structure SpellsArguments (part : List Lexeme) (args : List Expr × Span) : Prop where
  last : part.getLast? = some ⟨.punctuator .closeParen, args.2⟩
  parts : ∃ parts : List (List Lexeme × Expr), parts.map Prod.snd = args.1 ∧
    Holds part (parts.map Prod.fst) ∧ ∀ p ∈ parts, Spells p.1 p.2

/-- What the reader takes from the tokens spells the value that it reads. -/
def SpelledAt {α : Type} {limit : List Lexeme → Nat} (spells : List Lexeme → α → Prop)
    (reader : (tokens : List Lexeme) → Reading α (limit tokens)) (tokens : List Lexeme) : Prop :=
  ∀ rest value, (reader tokens).result = (.ok value, rest) →
    ∃ part, tokens = part ++ rest ∧ spells part value

theorem eq_cons_of_closingParen {tokens rest : List Lexeme} {close : Span}
    (h : (closingParen tokens).result = (.ok close, rest)) :
    tokens = ⟨.punctuator .closeParen, close⟩ :: rest := by
  by_cases hclose : nextToken tokens = .punctuator .closeParen
  · obtain ⟨span, rest', rfl⟩ := exists_eq_cons_of_nextToken hclose nofun
    cases h
    rfl
  · rw [result_closingParen_refused hclose] at h
    cases h

/-- What a primary reader takes is read again in front of whatever separates it. -/
theorem primary_of_primary {part rest rest' : List Lexeme} {e : Expr}
    (h : (primary (part ++ rest)).result = (.ok e, rest))
    (hrest : Separates (part.map Lexeme.token) (nextToken rest')) :
    (primary (part ++ rest')).result = (.ok e, rest') := by
  have hlocal := (local_readers 0 (part ++ rest)).1
  unfold LocalAt at hlocal
  rw [h] at hlocal
  have hread := hlocal.reread.2 rest' hrest
  rwa [Lexeme.shift_zero, List.map_id, Expr.shift_zero] at hread

/-- A primary read on its own is an expression. -/
theorem expression_of_primary {part : List Lexeme} {e : Expr}
    (h : (primary part).result = (.ok e, [])) : (expression part).result = (.ok e, []) := by
  have hstops : ∀ op : Operator, nextToken [] ≠ .punctuator op.mark :=
    (Stops.endOfInput []).operator
  rw [result_expression, h, Reading.Result.bind, result_operators_of_stops hstops]
  rfl

/-- The operand that a primary reader takes, if the children are spelled by parts of it. -/
theorem Operand.of_primary {part rest : List Lexeme} {e : Expr}
    (h : (primary (part ++ rest)).result = (.ok e, rest)) (hspans : Spans part e.span)
    (parts : List (List Lexeme × Expr)) (hchildren : parts.map Prod.snd = e.children)
    (hholds : Holds part (parts.map Prod.fst)) (hparts : ∀ p ∈ parts, Spells p.1 p.2) :
    Operand part e := by
  refine ⟨fun rest' => primary_of_primary h, .intro parts ?_ hspans hchildren hholds hparts⟩
  have hend : Separates (part.map Lexeme.token) (nextToken []) := (Stops.endOfInput _).call
  have hread := primary_of_primary h hend
  rw [List.append_nil] at hread
  exact expression_of_primary hread

section Readers

variable {tokens : List Lexeme}

theorem operand_primary
    (hexpression : ∀ inner, inner.length < tokens.length → SpelledAt Spells expression inner)
    (harguments : ∀ inner, inner.length < tokens.length →
      SpelledAt SpellsArguments arguments inner) :
    SpelledAt Operand primary tokens := by
  intro rest e h
  have hrefused : ∀ expected, refusal? (nextToken tokens) ≠ some expected := by
    intro expected hexpected
    rw [result_primary_refused hexpected] at h
    cases h
  cases tokens with
  | nil => exact absurd rfl (hrefused _)
  | cons lexeme behind =>
      obtain ⟨token, span⟩ := lexeme
      cases token with
      | endOfInput | keyword | unknown => exact absurd rfl (hrefused _)
      | number value =>
          have hread := h
          rw [result_primary_number] at h
          cases h
          exact ⟨[_], rfl, .of_primary hread (.singleton _) [] rfl trivial nofun⟩
      | identifier name =>
          by_cases hcall : nextToken behind = .punctuator .openParen
          · obtain ⟨span', inner, rfl⟩ := exists_eq_cons_of_nextToken hcall nofun
            have hread := h
            rw [result_primary_call, Reading.Result.map_eq_ok_iff] at h
            obtain ⟨⟨args, close⟩, hargs, rfl⟩ := h
            obtain ⟨part, rfl, hlast, parts, hchildren, hholds, hparts⟩ :=
              harguments inner (by simp only [List.length_cons]; omega) _ _ hargs
            have hbehind := hholds.append
              [⟨.identifier name, span⟩, ⟨.punctuator .openParen, span'⟩] []
            rw [List.append_nil] at hbehind
            exact ⟨_ :: _ :: part, rfl,
              .of_primary hread (.of_getLast? hlast _ [_]) parts hchildren hbehind hparts⟩
          · have hread := h
            rw [result_primary_var hcall] at h
            cases h
            exact ⟨[_], rfl, .of_primary hread (.singleton _) [] rfl trivial nofun⟩
      | punctuator mark =>
          have hopen : mark = .openParen := by
            cases mark with
            | openParen => rfl
            | _ => exact absurd rfl (hrefused _)
          subst hopen
          have hread := h
          rw [result_primary_parens, Reading.Result.bind_eq_ok_iff] at h
          obtain ⟨body, rest', hbody, hbehind⟩ := h
          obtain ⟨part, rfl, hspells⟩ := hexpression behind (Reading.length_lt behind) _ _ hbody
          obtain ⟨close, hclose, rfl⟩ := Reading.Result.map_eq_ok_iff.1 hbehind
          obtain rfl := eq_cons_of_closingParen hclose
          cases hspells with
          | intro parts hread' hspans hchildren hholds hparts =>
              have htokens : (⟨.punctuator .openParen, span⟩ : Lexeme) ::
                  (part ++ ⟨.punctuator .closeParen, close⟩ :: rest) =
                    (⟨.punctuator .openParen, span⟩ ::
                      (part ++ [⟨.punctuator .closeParen, close⟩])) ++ rest := by simp
              rw [htokens] at hread
              refine ⟨_, htokens, .of_primary hread ?_ parts ?_ ?_ hparts⟩
              · rw [Expr.span_withSpan]
                exact .of_getLast? (List.getLast?_singleton (a := ⟨.punctuator .closeParen, close⟩))
                  _ part
              · rw [Expr.children_withSpan]
                exact hchildren
              · exact hholds.append [_] [_]

theorem linked_operators
    (hprimary : ∀ inner, inner.length < tokens.length → SpelledAt Operand primary inner)
    (hoperators : ∀ inner, inner.length < tokens.length → SpelledAt Linked operators inner) :
    SpelledAt Linked operators tokens := by
  intro rest chain h
  by_cases hop : ∃ op : Operator, nextToken tokens = .punctuator op.mark
  · obtain ⟨op, hnext⟩ := hop
    obtain ⟨span, behind, rfl⟩ := exists_eq_cons_of_nextToken hnext nofun
    rw [result_operators_cons, Reading.Result.bind_eq_ok_iff] at h
    obtain ⟨operand, rest', hoperand, hbehind⟩ := h
    obtain ⟨chain, hchain, rfl⟩ := Reading.Result.map_eq_ok_iff.1 hbehind
    have fewer := Reading.length_lt_of_result hoperand
    obtain ⟨u, rfl, hu⟩ := hprimary behind (Reading.length_lt behind) _ _ hoperand
    obtain ⟨v, rfl, hv⟩ := hoperators rest' (Nat.lt_succ_of_lt fewer) _ _ hchain
    exact ⟨⟨.punctuator op.mark, span⟩ :: (u ++ v), by simp, .cons hu hv⟩
  · rw [result_operators_of_stops (not_exists.1 hop)] at h
    cases h
    exact ⟨[], rfl, .nil⟩

theorem spells_expression (hprimary : SpelledAt Operand primary tokens)
    (hoperators : ∀ inner, inner.length < tokens.length → SpelledAt Linked operators inner) :
    SpelledAt Spells expression tokens := by
  intro rest e h
  rw [result_expression, Reading.Result.bind_eq_ok_iff] at h
  obtain ⟨first, rest', hfirst, hbehind⟩ := h
  obtain ⟨chain, hchain, rfl⟩ := Reading.Result.map_eq_ok_iff.1 hbehind
  have fewer := Reading.length_lt_of_result hfirst
  obtain ⟨u, rfl, hu⟩ := hprimary _ _ hfirst
  obtain ⟨v, rfl, hv⟩ := hoperators rest' fewer _ _ hchain
  exact ⟨u ++ v, (List.append_assoc _ _ _).symm, spells_tree hu hv⟩

theorem spells_argumentList (hexpression : SpelledAt Spells expression tokens)
    (hlist : ∀ inner, inner.length < tokens.length →
      SpelledAt SpellsArguments argumentList inner) :
    SpelledAt SpellsArguments argumentList tokens := by
  intro rest args h
  rw [result_argumentList, Reading.Result.bind_eq_ok_iff] at h
  obtain ⟨arg, rest', harg, hbehind⟩ := h
  have fewer := Reading.length_lt_of_result harg
  obtain ⟨u, rfl, hu⟩ := hexpression _ _ harg
  by_cases hclose : nextToken rest' = .punctuator .closeParen
  · obtain ⟨span, behind, rfl⟩ := exists_eq_cons_of_nextToken hclose nofun
    cases hbehind
    refine ⟨u ++ [_], by simp, List.getLast?_concat, [(u, arg)], rfl, ?_, ?_⟩
    · exact ⟨[], [_], rfl, trivial⟩
    · exact List.forall_mem_singleton.2 hu
  by_cases hcomma : nextToken rest' = .punctuator .comma
  · obtain ⟨span, behind, rfl⟩ := exists_eq_cons_of_nextToken hcomma nofun
    obtain ⟨others, hothers, rfl⟩ := Reading.Result.map_eq_ok_iff.1 hbehind
    have hbehindComma : behind.length < (u ++ ⟨.punctuator .comma, span⟩ :: behind).length := by
      simp only [List.length_append, List.length_cons]
      omega
    obtain ⟨part, rfl, hlast, parts, hchildren, hholds, hparts⟩ :=
      hlist behind hbehindComma _ _ hothers
    have hbehindArg := hholds.append [⟨.punctuator .comma, span⟩] []
    rw [List.append_nil] at hbehindArg
    refine ⟨u ++ _ :: part, by simp, ?_, (u, arg) :: parts, congrArg (arg :: ·) hchildren,
      ⟨[], _, rfl, hbehindArg⟩, List.forall_mem_cons.2 ⟨hu, hparts⟩⟩
    rw [List.append_cons, List.getLast?_append, hlast, Option.some_or]
  · rw [argumentsBehind_refused hclose hcomma] at hbehind
    cases hbehind

theorem spells_arguments (hlist : SpelledAt SpellsArguments argumentList tokens) :
    SpelledAt SpellsArguments arguments tokens := by
  intro rest args h
  by_cases hclose : nextToken tokens = .punctuator .closeParen
  · obtain ⟨span, behind, rfl⟩ := exists_eq_cons_of_nextToken hclose nofun
    rw [result_arguments_nil] at h
    cases h
    exact ⟨[_], rfl, rfl, [], rfl, trivial, nofun⟩
  · rw [result_arguments hclose] at h
    exact hlist _ _ h

end Readers

/-- What the readers of expressions take spells the trees that they read. -/
theorem spells_readers (tokens : List Lexeme) :
    SpelledAt Operand primary tokens ∧ SpelledAt Spells expression tokens ∧
      SpelledAt Linked operators tokens ∧ SpelledAt SpellsArguments arguments tokens ∧
        SpelledAt SpellsArguments argumentList tokens := by
  have hinner := fun (inner : List Lexeme) (_ : inner.length < tokens.length) =>
    spells_readers inner
  have hprimary := operand_primary (fun inner hlt => (hinner inner hlt).2.1)
    fun inner hlt => (hinner inner hlt).2.2.2.1
  have hoperators := linked_operators (fun inner hlt => (hinner inner hlt).1)
    fun inner hlt => (hinner inner hlt).2.2.1
  have hexpression := spells_expression hprimary fun inner hlt => (hinner inner hlt).2.2.1
  have hlist := spells_argumentList hexpression fun inner hlt => (hinner inner hlt).2.2.2.2
  exact ⟨hprimary, hexpression, hoperators, spells_arguments hlist, hlist⟩
  termination_by tokens.length

/-- What is read as an expression spells it. -/
theorem exists_spells {tokens rest : List Lexeme} {e : Expr}
    (h : (expression tokens).result = (.ok e, rest)) :
    ∃ part, tokens = part ++ rest ∧ Spells part e :=
  (spells_readers tokens).2.1 rest e h

/-! ### Prototypes -/

/-- The tokens end with the parenthesis that closes the parameters. -/
def ClosesParameters (part : List Lexeme) (params : List String × Span) : Prop :=
  part.getLast? = some ⟨.punctuator .closeParen, params.2⟩

theorem closes_parameterList (tokens : List Lexeme) :
    SpelledAt ClosesParameters parameterList tokens := by
  intro rest params h
  by_cases hparam : ∃ param, nextToken tokens = .identifier param
  · obtain ⟨param, hparam⟩ := hparam
    obtain ⟨span, behind, rfl⟩ := exists_eq_cons_of_nextToken hparam nofun
    rw [result_parameterList_cons] at h
    by_cases hclose : nextToken behind = .punctuator .closeParen
    · obtain ⟨span', behind, rfl⟩ := exists_eq_cons_of_nextToken hclose nofun
      cases h
      exact ⟨[_, _], rfl, rfl⟩
    by_cases hcomma : nextToken behind = .punctuator .comma
    · obtain ⟨comma, inner, rfl⟩ := exists_eq_cons_of_nextToken hcomma nofun
      obtain ⟨others, hothers, rfl⟩ := Reading.Result.map_eq_ok_iff.1 h
      obtain ⟨part, rfl, hlast⟩ := closes_parameterList inner rest others hothers
      refine ⟨_ :: _ :: part, rfl, ?_⟩
      rw [ClosesParameters] at hlast ⊢
      rw [List.getLast?_cons, List.getLast?_cons, hlast]
      rfl
    · rw [parametersBehind_refused hclose hcomma] at h
      cases h
  · rw [result_parameterList_refused (not_exists.1 hparam)] at h
    cases h
  termination_by tokens.length

theorem closes_parameters (tokens : List Lexeme) :
    SpelledAt ClosesParameters parameters tokens := by
  intro rest params h
  by_cases hclose : nextToken tokens = .punctuator .closeParen
  · obtain ⟨span, behind, rfl⟩ := exists_eq_cons_of_nextToken hclose nofun
    cases h
    exact ⟨[_], rfl, rfl⟩
  · rw [result_parameters hclose] at h
    exact closes_parameterList tokens rest params h

/-- What is read as a prototype is what its span reaches over, and is read as the prototype
again. -/
theorem exists_spans_prototype {tokens rest : List Lexeme} {p : Prototype}
    (h : (prototype tokens).result = (.ok p, rest)) :
    ∃ part, tokens = part ++ rest ∧ Spans part p.span ∧ (prototype part).result = (.ok p, []) := by
  obtain ⟨part, rfl, hspans⟩ : ∃ part, tokens = part ++ rest ∧ Spans part p.span := by
    by_cases hname : ∃ name, nextToken tokens = .identifier name
    · obtain ⟨name, hname⟩ := hname
      obtain ⟨span, behind, rfl⟩ := exists_eq_cons_of_nextToken hname nofun
      by_cases hopen : nextToken behind = .punctuator .openParen
      · obtain ⟨span', inner, rfl⟩ := exists_eq_cons_of_nextToken hopen nofun
        rw [result_prototype, Reading.Result.map_eq_ok_iff] at h
        obtain ⟨⟨params, close⟩, hparams, rfl⟩ := h
        obtain ⟨part, rfl, hlast⟩ := closes_parameters inner rest _ hparams
        exact ⟨_ :: _ :: part, rfl, .of_getLast? hlast ⟨.identifier name, span⟩ [_]⟩
      · rw [result_prototype_unopened hopen] at h
        cases h
    · rw [result_prototype_refused (not_exists.1 hname)] at h
      cases h
  refine ⟨part, rfl, hspans, ?_⟩
  -- The reader of prototypes is local, so it takes the same tokens at the end of input.
  have hlocal := local_prototype 0 (part ++ rest)
  unfold LocalAt at hlocal
  rw [h] at hlocal
  have hread := hlocal.reread.2 [] hlocal.reread.1
  rwa [Lexeme.shift_zero, List.map_id, List.append_nil] at hread

end Parse

end ScalarLang
