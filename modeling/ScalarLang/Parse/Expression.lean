import ScalarLang.Expr
import ScalarLang.Operator
import ScalarLang.Parse.Reading

/-!
# Reading expressions

    expression ::= primary (operator primary)*
    primary    ::= number | identifier | identifier '(' arguments | '(' expression ')'
    arguments  ::= ')' | expression (',' expression)* ')'

The readers take the longest expression at the head of the tokens. An identifier
in front of an opening parenthesis is always a call. How the operators of an
expression nest is decided while they are read, by precedence climbing.
-/

namespace ScalarLang

/-- The operator applied to two operands, over the text of both. -/
def Expr.operation (op : Operator) (lhs rhs : Expr) : Expr :=
  .binary op.char lhs rhs (lhs.span.cover rhs.span)

namespace Parse

/-- The operator at the head of the tokens. -/
def operatorAhead? : List Lexeme → Option Operator
  | ⟨.punctuator mark, _⟩ :: _ => Operator.ofMark? mark
  | _ => none

/-- Reads the parenthesis that closes an expression. -/
def closingParen : (tokens : List Lexeme) → Reading Span tokens.length
  | ⟨.punctuator .closeParen, close⟩ :: rest => .read close rest (Reading.length_lt rest)
  | tokens => .failed .closingParen tokens (Reading.length_le_self tokens)

/-- Reads what follows an argument: the parenthesis that closes the list, or a comma, in which
case there is no span. -/
def argumentSeparator : (tokens : List Lexeme) → Reading (Option Span) tokens.length
  | ⟨.punctuator .closeParen, close⟩ :: rest => .read (some close) rest (Reading.length_lt rest)
  | ⟨.punctuator .comma, _⟩ :: rest => .read none rest (Reading.length_lt rest)
  | tokens => .failed .argumentSeparator tokens (Reading.length_le_self tokens)

mutual

/-- Reads a number, a variable, a call or an expression in parentheses. The span of an
expression in parentheses includes them. -/
def primary (tokens : List Lexeme) : Reading Expr tokens.length :=
  match tokens with
  | ⟨.number value, span⟩ :: rest => .read (.number value span) rest (Reading.length_lt rest)
  | ⟨.identifier name, span⟩ :: ⟨.punctuator .openParen, _⟩ :: inner =>
    match arguments inner with
    | .failed expected rest bounded =>
      .failed expected rest (by simp only [List.length_cons]; omega)
    | .read (args, close) rest shorter =>
      .read (.call name args (span.cover close)) rest (by simp only [List.length_cons]; omega)
  | ⟨.identifier name, span⟩ :: rest => .read (.var name span) rest (Reading.length_lt rest)
  | ⟨.punctuator .openParen, span⟩ :: inner =>
    match expression inner with
    | .failed expected rest bounded =>
      .failed expected rest (by simp only [List.length_cons]; omega)
    | .read body rest shorter =>
      match closingParen rest with
      | .failed expected rest bounded =>
        .failed expected rest (by simp only [List.length_cons]; omega)
      | .read close rest shorter =>
        .read (body.withSpan (span.cover close)) rest (by simp only [List.length_cons]; omega)
  | ⟨.keyword word, span⟩ :: rest =>
    .failed .expressionNotKeyword (⟨.keyword word, span⟩ :: rest) (Nat.le_refl _)
  | tokens => .failed .expression tokens (Reading.length_le_self tokens)
  termination_by (tokens.length, 0)

/-- Reads operators that rank `least` or higher, each with the operand to its right, and applies
them to what is in front. An operator of a lower rank ends the reading. -/
def climb (least : Nat) (lhs : Expr) (tokens : List Lexeme) : Reading Expr (tokens.length + 1) :=
  match tokens with
  | ⟨.punctuator mark, span⟩ :: rest =>
    match Operator.ofMark? mark with
    | none => .read lhs (⟨.punctuator mark, span⟩ :: rest) (Nat.lt_succ_self _)
    | some op =>
      if op.precedence < least then
        .read lhs (⟨.punctuator mark, span⟩ :: rest) (Nat.lt_succ_self _)
      else
        match operand op.precedence rest with
        | .failed expected rest bounded =>
          .failed expected rest (by simp only [List.length_cons]; omega)
        | .read rhs rest shorter =>
          (climb least (.operation op lhs rhs) rest).weaken (by simp only [List.length_cons]; omega)
  | tokens => .read lhs tokens (Nat.lt_succ_self _)
  termination_by (tokens.length, 0)

/-- Reads the operand to the right of an operator of the precedence. If a tighter operator follows,
the operand is the left one of that, so operators of one rank associate to the left. -/
def operand (precedence : Nat) (tokens : List Lexeme) : Reading Expr tokens.length :=
  match primary tokens with
  | .failed expected rest bounded => .failed expected rest bounded
  | .read first rest shorter =>
    match operatorAhead? rest with
    | none => .read first rest shorter
    | some next =>
      if precedence < next.precedence then (climb (precedence + 1) first rest).weaken shorter
      else .read first rest shorter
  termination_by (tokens.length, 1)

/-- Reads an expression. -/
def expression (tokens : List Lexeme) : Reading Expr tokens.length :=
  match primary tokens with
  | .failed expected rest bounded => .failed expected rest bounded
  | .read first rest shorter => (climb 0 first rest).weaken shorter
  termination_by (tokens.length, 1)

/-- Reads the arguments of a call behind the opening parenthesis, and the closing one. -/
def arguments (tokens : List Lexeme) : Reading (List Expr × Span) tokens.length :=
  match tokens with
  | ⟨.punctuator .closeParen, close⟩ :: rest => .read ([], close) rest (Reading.length_lt rest)
  | tokens => argumentList tokens
  termination_by (tokens.length, 3)

/-- Reads one argument or more with commas between them, and the closing parenthesis. -/
def argumentList (tokens : List Lexeme) : Reading (List Expr × Span) tokens.length :=
  match expression tokens with
  | .failed expected rest bounded => .failed expected rest bounded
  | .read arg rest shorter =>
    match argumentSeparator rest with
    | .failed expected rest bounded => .failed expected rest (by omega)
    | .read (some close) rest shorter => .read ([arg], close) rest (by omega)
    | .read none rest shorter =>
      match argumentList rest with
      | .failed expected rest bounded => .failed expected rest (by omega)
      | .read (args, close) rest shorter => .read (arg :: args, close) rest (by omega)
  termination_by (tokens.length, 2)

end

end Parse

end ScalarLang
