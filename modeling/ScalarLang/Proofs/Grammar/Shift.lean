import ScalarLang.Parse.Statement
import ScalarLang.Proofs.Grammar.Basic

/-!
# Text further on

What was read from a text is read from it again when there are more bytes in front, with
every span as much further on. `shift` moves the spans of tokens, trees, errors and
statements, and it commutes with what the parser does to spans.
-/

namespace ScalarLang

/-- The token in a text with `offset` more bytes in front. -/
def Lexeme.shift (offset : Nat) (lexeme : Lexeme) : Lexeme :=
  { lexeme with span := lexeme.span.shift offset }

namespace Expr

mutual

/-- The expression with every span in it moved. -/
def shift (offset : Nat) (e : Expr) : Expr :=
  match e with
  | .number value span => .number value (span.shift offset)
  | .var name span => .var name (span.shift offset)
  | .binary op lhs rhs span =>
    .binary op (lhs.shift offset) (rhs.shift offset) (span.shift offset)
  | .call callee args span => .call callee (shiftAll offset args) (span.shift offset)
  termination_by structural e

/-- The expressions with every span in them moved. -/
def shiftAll (offset : Nat) (es : List Expr) : List Expr :=
  match es with
  | [] => []
  | e :: es => e.shift offset :: shiftAll offset es
  termination_by structural es

end

@[simp] theorem span_shift (offset : Nat) (e : Expr) :
    (e.shift offset).span = e.span.shift offset := by
  cases e <;> rfl

theorem shift_withSpan (offset : Nat) (span : Span) (e : Expr) :
    (e.withSpan span).shift offset = (e.shift offset).withSpan (span.shift offset) := by
  cases e <;> rfl

mutual

@[simp] theorem shift_zero (e : Expr) : e.shift 0 = e := by
  cases e with
  | number value span | var name span => rfl
  | binary op lhs rhs span => rw [shift, lhs.shift_zero, rhs.shift_zero, Span.shift_zero]
  | call callee args span => rw [shift, shiftAll_zero args, Span.shift_zero]
  termination_by structural e

@[simp] theorem shiftAll_zero (es : List Expr) : shiftAll 0 es = es := by
  cases es with
  | nil => rfl
  | cons e es => rw [shiftAll, e.shift_zero, shiftAll_zero es]
  termination_by structural es

end

end Expr

def Prototype.shift (offset : Nat) (p : Prototype) : Prototype :=
  { p with span := p.span.shift offset }

def Definition.shift (offset : Nat) (d : Definition) : Definition :=
  ⟨d.prototype.shift offset, d.body.shift offset⟩

def ParseError.shift (offset : Nat) : ParseError → ParseError
  | unexpectedToken expected found span => unexpectedToken expected found (span.shift offset)
  | lexicalAnomaly expected text span => lexicalAnomaly expected text (span.shift offset)

/-- The statement with every span in it moved, those of errors among them. -/
def Statement.shift (offset : Nat) : Statement → Statement
  | definition d => definition (d.shift offset)
  | external p => external (p.shift offset)
  | topLevel d => topLevel (d.shift offset)
  | endOfInput => endOfInput
  | malformed error => malformed (error.shift offset)

/-- The stream in a text with `offset` more bytes in front. -/
def TokenStream.shift (offset : Nat) (s : TokenStream) : TokenStream :=
  ⟨s.ahead.map (Lexeme.shift offset), s.stop + offset⟩

@[simp] theorem Lexeme.token_shift (offset : Nat) (lexeme : Lexeme) :
    (lexeme.shift offset).token = lexeme.token := rfl

@[simp] theorem Lexeme.shift_zero : Lexeme.shift 0 = id := rfl

theorem Lexeme.shift_shift (offset offset' : Nat) (lexeme : Lexeme) :
    (lexeme.shift offset).shift offset' = lexeme.shift (offset' + offset) := by
  rw [shift, shift, shift, Span.shift, Span.shift, Span.shift, Nat.add_assoc, Nat.add_assoc,
    Nat.add_comm offset offset']

theorem Definition.shift_anonymous (offset : Nat) (body : Expr) :
    (anonymous body).shift offset = anonymous (body.shift offset) := by
  rw [anonymous, anonymous, Expr.span_shift]
  rfl

@[simp] theorem Statement.shift_zero (statement : Statement) : statement.shift 0 = statement := by
  cases statement with
  | definition d | topLevel d => rw [shift, Definition.shift, Expr.shift_zero]; rfl
  | malformed error => cases error <;> rfl
  | external | endOfInput => rfl

/-- The error at a token that is further on. -/
theorem ParseError.shift_ofLexeme (offset : Nat) (expected : Expectation) (found : Lexeme) :
    (ofLexeme expected found).shift offset = ofLexeme expected (found.shift offset) := by
  rw [ofLexeme, ofLexeme, Lexeme.token_shift]
  split <;> rfl

theorem TokenStream.current_shift (offset : Nat) (s : TokenStream) :
    (s.shift offset).current = s.current.shift offset := by
  obtain ⟨_ | ⟨lexeme, ahead⟩, stop⟩ := s <;> rfl

theorem TokenStream.advance_shift (offset : Nat) (s : TokenStream) :
    (s.shift offset).advance = s.advance.shift offset := by
  obtain ⟨_ | ⟨lexeme, ahead⟩, stop⟩ := s <;> rfl

theorem Expr.shift_operation (offset : Nat) (op : Operator) (lhs rhs : Expr) :
    (operation op lhs rhs).shift offset = operation op (lhs.shift offset) (rhs.shift offset) := by
  rw [operation, operation, shift, Span.shift_cover, span_shift, span_shift]

namespace Chain

/-- The chain with every span in it moved. -/
def shift (offset : Nat) (chain : Chain) : Chain := Operator.mapOperands (Expr.shift offset) chain

theorem shift_tree (offset : Nat) (first : Expr) (chain : Chain) :
    (tree first chain).shift offset = tree (first.shift offset) (chain.shift offset) := by
  rw [tree, tree, shift, Operator.joinAllWith_map (Expr.shift_operation offset)]

end Chain

end ScalarLang
