import ScalarLang.Parse.Expression
import ScalarLang.Proofs.Grammar.Joining

/-!
# The grammar of expressions

    comparison ::= comparison ('<' | '>') sum | sum
    sum        ::= sum ('+' | '-') product | product
    product    ::= product ('*' | '/') primary | primary
    primary    ::= number | identifier | identifier '(' (comparison (',' comparison)*)? ')'
                 | '(' comparison ')'

`Derives` is this grammar, with the tree that each production builds. The trees are
`Term`s, which are expressions without spans. `Chain.tree` is what the grammar makes of
operands with operators between them: the tiers are joined one after the other.
-/

namespace ScalarLang

/-- An expression without the places that it was read from. -/
inductive Term where
  | number (value : Float)
  | var (name : String)
  | binary (op : Char) (lhs rhs : Term)
  | call (callee : String) (args : List Term)

mutual

/-- The expression without its spans. -/
def Expr.term (e : Expr) : Term :=
  match e with
  | .number value _ => .number value
  | .var name _ => .var name
  | .binary op lhs rhs _ => .binary op lhs.term rhs.term
  | .call callee args _ => .call callee (Expr.terms args)
  termination_by structural e

/-- The expressions without their spans. -/
def Expr.terms (es : List Expr) : List Term :=
  match es with
  | [] => []
  | e :: es => e.term :: Expr.terms es
  termination_by structural es

end

@[simp] theorem Expr.term_withSpan (span : Span) (e : Expr) : (e.withSpan span).term = e.term := by
  cases e <;> rfl

/-- A nonterminal of the grammar. -/
inductive Level where
  | tier (tier : Tier)
  | primary

/-- The nonterminal of the operands to the right of an operator of the tier. -/
def Tier.tighter : Tier → Level
  | comparison => .tier .sum
  | sum => .tier .product
  | product => .primary

/-- The tokens derive the term. -/
inductive Derives : Level → List Token → Term → Prop
  | operator {op : Operator} {u v : List Token} {lhs rhs : Term} :
      Derives (.tier op.tier) u lhs → Derives op.tier.tighter v rhs →
      Derives (.tier op.tier) (u ++ .punctuator op.mark :: v) (.binary op.char lhs rhs)
  | tighter {tier : Tier} {w : List Token} {e : Term} :
      Derives tier.tighter w e → Derives (.tier tier) w e
  | number (value : Float) : Derives .primary [.number value] (.number value)
  | var (name : String) : Derives .primary [.identifier name] (.var name)
  | call (name : String) (args : List (List Token × Term)) :
      (∀ arg ∈ args, Derives (.tier .comparison) arg.1 arg.2) →
      Derives .primary
        (.identifier name :: .punctuator .openParen ::
          ([.punctuator .comma].intercalate (args.map Prod.fst) ++ [.punctuator .closeParen]))
        (.call name (args.map Prod.snd))
  | parens {w : List Token} {e : Term} : Derives (.tier .comparison) w e →
      Derives .primary (.punctuator .openParen :: (w ++ [.punctuator .closeParen])) e

/-- Operators, each in front of the tokens of the operand to its right. -/
inductive Links (operand : List Token → Term → Prop) :
    List Token → List (Operator × Term) → Prop
  | nil : Links operand [] []
  | cons {op : Operator} {u v : List Token} {e : Term} {links : List (Operator × Term)} :
      operand u e → Links operand v links →
      Links operand (.punctuator op.mark :: (u ++ v)) ((op, e) :: links)

/-- The operator applied to two operands. -/
def Term.operation (op : Operator) (lhs rhs : Term) : Term := .binary op.char lhs rhs

/-- The operators of a chain, each with the operand to its right. -/
abbrev Chain := List (Operator × Expr)

namespace Chain

/-- The tree of a chain: products first, then sums, then comparisons. -/
def tree (first : Expr) (chain : Chain) : Expr :=
  (Operator.joinAllWith Expr.operation [.product, .sum, .comparison] first chain).1

/-- The chain without spans. -/
def links (chain : Chain) : List (Operator × Term) := Operator.mapOperands Expr.term chain

/-- The tree of a chain joins its terms. -/
theorem term_tree (first : Expr) (chain : Chain) :
    (tree first chain).term =
      (Operator.joinAllWith Term.operation [.product, .sum, .comparison] first.term
        chain.links).1 := by
  have hterm : ∀ op lhs rhs, (Expr.operation op lhs rhs).term = .operation op lhs.term rhs.term :=
    fun _ _ _ => rfl
  have hmap := Operator.joinAllWith_map hterm [.product, .sum, .comparison] first chain
  exact (congrArg Prod.fst hmap).symm

end Chain

end ScalarLang
