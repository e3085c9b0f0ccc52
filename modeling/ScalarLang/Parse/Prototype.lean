import ScalarLang.Expr
import ScalarLang.Parse.Reading

/-!
# Reading prototypes

    prototype ::= identifier '(' (identifier (',' identifier)*)? ')'
-/

namespace ScalarLang

namespace Parse

/-- Reads one parameter or more with commas between them, and the closing parenthesis. -/
def parameterList : (tokens : List Lexeme) → Reading (List String × Span) tokens.length
  | ⟨.identifier param, _⟩ :: ⟨.punctuator .closeParen, close⟩ :: rest =>
    .read ([param], close) rest (by simp only [List.length_cons]; omega)
  | ⟨.identifier param, _⟩ :: ⟨.punctuator .comma, _⟩ :: rest =>
    match parameterList rest with
    | .failed expected rest bounded =>
      .failed expected rest (by simp only [List.length_cons]; omega)
    | .read (params, close) rest shorter =>
      .read (param :: params, close) rest (by simp only [List.length_cons]; omega)
  | ⟨.identifier _, _⟩ :: rest => .failed .parameterSeparator rest (Reading.length_le rest)
  | tokens => .failed .parameter tokens (Reading.length_le_self tokens)

/-- Reads the parameters behind the opening parenthesis, and the closing one. -/
def parameters : (tokens : List Lexeme) → Reading (List String × Span) tokens.length
  | ⟨.punctuator .closeParen, close⟩ :: rest => .read ([], close) rest (Reading.length_lt rest)
  | tokens => parameterList tokens

/-- Reads a prototype. -/
def prototype : (tokens : List Lexeme) → Reading Prototype tokens.length
  | ⟨.identifier name, span⟩ :: ⟨.punctuator .openParen, _⟩ :: inner =>
    (parameters inner).map (fun (params, close) => ⟨name, params, span.cover close⟩)
      |>.weaken (by simp only [List.length_cons]; omega)
  | ⟨.identifier _, _⟩ :: rest => .failed .openingParen rest (Reading.length_le rest)
  | tokens => .failed .functionName tokens (Reading.length_le_self tokens)

end Parse

end ScalarLang
