import ScalarLang.Decimal.Notation
import ScalarLang.Span

/-!
# Tokens

The tokens of the language and their texts. `Token.describe` is the wording used
wherever a message names a token.
-/

namespace ScalarLang

/-- The reserved words. The conditional words are reserved without a meaning so far. -/
inductive Keyword where
  | definition
  | external
  | conditional
  | alternative
  deriving DecidableEq, Repr, Inhabited

namespace Keyword

def text : Keyword → String
  | definition => "def"
  | external => "extern"
  | conditional => "if"
  | alternative => "else"

def all : List Keyword := [definition, external, conditional, alternative]

def ofText? (word : String) : Option Keyword := all.find? (·.text == word)

theorem ofText?_text (k : Keyword) : ofText? k.text = some k := by cases k <;> decide

end Keyword

inductive Punctuator where
  | plus
  | minus
  | star
  | slash
  | less
  | greater
  | assign
  | openParen
  | closeParen
  | semicolon
  | comma
  deriving DecidableEq, Repr, Inhabited

namespace Punctuator

def char : Punctuator → Char
  | plus => '+'
  | minus => '-'
  | star => '*'
  | slash => '/'
  | less => '<'
  | greater => '>'
  | assign => '='
  | openParen => '('
  | closeParen => ')'
  | semicolon => ';'
  | comma => ','

def all : List Punctuator :=
  [plus, minus, star, slash, less, greater, assign, openParen, closeParen, semicolon, comma]

def ofChar? (c : Char) : Option Punctuator := all.find? (·.char == c)

theorem ofChar?_char (p : Punctuator) : ofChar? p.char = some p := by cases p <;> decide

end Punctuator

/-- A token. Input that no rule accepts is a token as well, so that every text has tokens. -/
inductive Token where
  | endOfInput
  | keyword (word : Keyword)
  | punctuator (mark : Punctuator)
  | identifier (name : String)
  | number (value : Float)
  | unknown (text : String)
  deriving DecidableEq, Repr, Inhabited

namespace Token

/-- A token as messages name it. -/
def describe : Token → String
  | endOfInput => "end of file"
  | keyword word => s!"keyword '{word.text}'"
  | punctuator mark => s!"'{mark.char}'"
  | identifier name => s!"identifier '{name}'"
  | number value => s!"number {Decimal.plain value}"
  | unknown text => s!"unknown '{text}'"

end Token

/-- A token with the place it was read from. -/
structure Lexeme where
  token : Token
  span : Span
  deriving DecidableEq, Repr, Inhabited

end ScalarLang
