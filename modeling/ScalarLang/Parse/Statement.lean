import ScalarLang.Parse.Expression
import ScalarLang.Parse.Prototype
import ScalarLang.Token.Stream

/-!
# Reading statements

    statement ::= 'def' prototype expression | 'extern' prototype | expression

Semicolons in front of a statement are passed over. A statement that cannot be
read is an error in its place, and reading goes on behind the offending token.
So every statement but the end of input uses up a token
(`length_ahead_statement_lt`), and a program is read in full.
-/

namespace ScalarLang

/-- A statement at the top level of a program. -/
inductive Statement where
  | definition (d : Definition)
  | external (p : Prototype)
  | topLevel (d : Definition)
  | endOfInput
  | malformed (error : ParseError)
  deriving BEq, Repr, Inhabited

/-- Whether a statement is the end of the program. -/
def Statement.isEnd : Statement → Bool
  | endOfInput => true
  | _ => false

namespace Parse

/-- Reads a definition whose first token is passed over. -/
def definition (tokens : List Lexeme) : Reading Definition tokens.tail.length :=
  match prototype tokens.tail with
  | .failed expected rest bounded => .failed expected rest bounded
  | .read p rest shorter =>
    (expression rest).map (Definition.mk p) |>.weaken (Nat.le_of_lt shorter)

/-- Reads an external declaration whose first token is passed over. -/
def external (tokens : List Lexeme) : Reading Prototype tokens.tail.length :=
  prototype tokens.tail

/-- Reads an expression at the top level. -/
def topLevel (tokens : List Lexeme) : Reading Definition tokens.length :=
  (expression tokens).map Definition.anonymous

/-- Whether a token only separates statements. -/
def isSeparator (lexeme : Lexeme) : Bool := lexeme.token == .punctuator .semicolon

/-- Reads the statement that starts at the first of the tokens. -/
def statementHere : (tokens : List Lexeme) → Reading Statement tokens.length
  | [] => .failed .expression [] (Nat.le_refl _)
  | ⟨.keyword .definition, span⟩ :: rest =>
    ((definition (⟨.keyword .definition, span⟩ :: rest)).map .definition).weaken
      (Reading.length_le rest)
  | ⟨.keyword .external, span⟩ :: rest =>
    ((external (⟨.keyword .external, span⟩ :: rest)).map .external).weaken
      (Reading.length_le rest)
  | tokens => (topLevel tokens).map .topLevel

end Parse

namespace TokenStream

/-- Turns what a reader made of tokens of this stream into its value or its error, and the
stream behind it. After a failure the offending token is the current one. -/
def outcome {α : Type} {limit : Nat} (s : TokenStream) :
    Reading α limit → Except ParseError α × TokenStream
  | .read value rest _ => (.ok value, ⟨rest, s.stop⟩)
  | .failed expected rest _ =>
    (.error (.ofLexeme expected (TokenStream.mk rest s.stop).current), ⟨rest, s.stop⟩)

@[simp] theorem ahead_outcome {α : Type} {limit : Nat} (s : TokenStream)
    (r : Reading α limit) : (s.outcome r).2.ahead = r.rest := by
  cases r <;> rfl

@[simp] theorem stop_outcome {α : Type} {limit : Nat} (s : TokenStream)
    (r : Reading α limit) : (s.outcome r).2.stop = s.stop := by
  cases r <;> rfl

/-- Reads the next statement. -/
def statement (s : TokenStream) : Statement × TokenStream :=
  match s.ahead.dropWhile Parse.isSeparator with
  | [] => (.endOfInput, ⟨[], s.stop⟩)
  | lexeme :: rest =>
    match s.outcome (Parse.statementHere (lexeme :: rest)) with
    | (.ok statement, after) => (statement, after)
    | (.error error, after) => (.malformed error, after.advance)

/-- A statement that is not the end of input uses up at least one token. -/
theorem length_ahead_statement_lt (s : TokenStream) (h : s.statement.1.isEnd = false) :
    s.statement.2.ahead.length < s.ahead.length := by
  have fewer := (List.dropWhile_suffix Parse.isSeparator (l := s.ahead)).length_le
  unfold statement at h ⊢
  generalize s.ahead.dropWhile Parse.isSeparator = tokens at fewer h ⊢
  match tokens, fewer, h with
  | [], _, h => exact absurd h (by simp [Statement.isEnd])
  | lexeme :: rest, fewer, _ =>
    dsimp only
    generalize Parse.statementHere (lexeme :: rest) = r
    cases r with
    | read value after shorter => exact Nat.lt_of_lt_of_le shorter fewer
    | failed expected after bounded =>
      simp only [outcome, advance, List.length_tail]
      simp only [List.length_cons] at bounded fewer
      omega

/-- Reads statements up to the end of input. -/
def program (s : TokenStream) : List Statement × TokenStream :=
  match h : s.statement with
  | (statement, after) =>
    if last : statement.isEnd then ([], after)
    else
      have fewer : after.ahead.length < s.ahead.length := by
        have fewer := s.length_ahead_statement_lt
        rw [h] at fewer
        exact fewer (by simpa using last)
      let later := after.program
      (statement :: later.1, later.2)
  termination_by s.ahead.length

end TokenStream

/-- The statements of a source text, the end of input left out. -/
def parseProgram (source : String) : List Statement := (TokenStream.ofSource source).program.1

end ScalarLang
