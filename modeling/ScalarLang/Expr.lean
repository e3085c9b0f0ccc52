import ScalarLang.Decimal.Notation
import ScalarLang.Span

/-!
# Syntax trees

Expressions, prototypes and definitions. Every expression carries the span of
the text it was read from, parentheses around it included. An expression on its
own at the top level becomes the body of a definition with a reserved name that
no source text can spell.
-/

namespace ScalarLang

/-- An expression. The operator of a binary expression is kept as its character, so a tree may
hold one that the language does not know. -/
inductive Expr where
  | number (value : Float) (span : Span)
  | var (name : String) (span : Span)
  | binary (op : Char) (lhs rhs : Expr) (span : Span)
  | call (callee : String) (args : List Expr) (span : Span)
  deriving BEq, Repr, Inhabited

namespace Expr

/-- The text that the expression was read from. -/
def span : Expr → Span
  | number _ span | var _ span | binary _ _ _ span | call _ _ span => span

def withSpan (span : Span) : Expr → Expr
  | number value _ => number value span
  | var name _ => var name span
  | binary op lhs rhs _ => binary op lhs rhs span
  | call callee args _ => call callee args span

@[simp] theorem span_withSpan (span : Span) (e : Expr) : (e.withSpan span).span = span := by
  cases e <;> rfl

mutual

/-- The expression with every operator and call in parentheses in front of its operands. -/
def text : Expr → String
  | number value _ => Decimal.plain value
  | var name _ => name
  | binary op lhs rhs _ => "(" ++ String.singleton op ++ " " ++ lhs.text ++ " " ++ rhs.text ++ ")"
  | call callee args _ => "(call " ++ callee ++ argumentsText args ++ ")"

/-- The arguments of a call, a space in front of each. -/
def argumentsText : List Expr → String
  | [] => ""
  | arg :: args => " " ++ arg.text ++ argumentsText args

end

end Expr

/-- The name and the parameters of a function, with the text they were read from. -/
structure Prototype where
  name : String
  params : List String
  span : Span
  deriving DecidableEq, Repr, Inhabited

namespace Prototype

/-- The reserved name of an expression at the top level. No identifier starts with an
underscore. -/
def anonymousName : String := "__anon_expr"

/-- Whether the prototype has the reserved name. -/
def isAnonymous (p : Prototype) : Bool := p.name == anonymousName

def text (p : Prototype) : String := p.name ++ "(" ++ ", ".intercalate p.params ++ ")"

end Prototype

structure Definition where
  prototype : Prototype
  body : Expr
  deriving BEq, Repr, Inhabited

/-- The definition that stands for an expression at the top level. -/
def Definition.anonymous (body : Expr) : Definition :=
  ⟨⟨Prototype.anonymousName, [], body.span⟩, body⟩

end ScalarLang
