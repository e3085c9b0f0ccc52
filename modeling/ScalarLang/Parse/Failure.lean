import ScalarLang.Token.Basic

/-!
# Syntax errors

A syntax error says what was expected and at which token it was missing.
Unknown input is told apart from a token out of place.
-/

namespace ScalarLang

/-- What a reader expected and did not find. -/
inductive Expectation where
  | expression
  | expressionNotKeyword
  | closingParen
  | argumentSeparator
  | functionName
  | openingParen
  | parameter
  | parameterSeparator
  /-- Any other words. An error is a value that every caller can make, also with an expectation
  that none of the readers here has. -/
  | phrase (text : String)
  deriving DecidableEq, Repr, Inhabited

/-- What was expected, in words. -/
def Expectation.text : Expectation → String
  | expression => "an expression"
  | expressionNotKeyword => "an expression (a keyword cannot start an expression)"
  | closingParen => "')' after parenthesized expression"
  | argumentSeparator => "')' or ',' in argument list"
  | functionName => "function name in prototype"
  | openingParen => "'(' in prototype"
  | parameter => "identifier in prototype"
  | parameterSeparator => "')' or ',' in prototype"
  | phrase text => text

/-- A syntax error. -/
inductive ParseError where
  | unexpectedToken (expected : Expectation) (found : Token) (span : Span)
  | lexicalAnomaly (expected : Expectation) (text : String) (span : Span)
  deriving DecidableEq, Repr, Inhabited

namespace ParseError

/-- The error at a token that is not what was expected. -/
def ofLexeme (expected : Expectation) (found : Lexeme) : ParseError :=
  match found.token with
  | .unknown text => lexicalAnomaly expected text found.span
  | token => unexpectedToken expected token found.span

/-- What was expected. -/
def expected : ParseError → Expectation
  | unexpectedToken expected _ _ | lexicalAnomaly expected _ _ => expected

/-- The place of the offending token. -/
def span : ParseError → Span
  | unexpectedToken _ _ span | lexicalAnomaly _ _ span => span

/-- The wording of a syntax error. -/
def message : ParseError → String
  | unexpectedToken expected found _ =>
    "expected " ++ expected.text ++ ", found " ++ found.describe
  | lexicalAnomaly expected text _ =>
    "unrecognized input '" ++ text ++ "' while expecting " ++ expected.text

@[simp] theorem span_ofLexeme (expected : Expectation) (found : Lexeme) :
    (ParseError.ofLexeme expected found).span = found.span := by
  unfold ParseError.ofLexeme
  split <;> rfl

end ParseError

end ScalarLang
