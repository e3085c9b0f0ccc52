import ScalarLang.Token.Scanner

/-!
# Token streams

A stream holds the tokens still to be read and the offset at which the text
ends. Its current token is the first of them, or the end of input once they are
used up, and stays that forever. `Cursor` adds the state before the first token.
-/

namespace ScalarLang

/-- The tokens ahead of a reader, and the byte offset of the end of the text. -/
structure TokenStream where
  ahead : List Lexeme
  stop : Nat
  deriving DecidableEq, Repr, Inhabited

namespace TokenStream

def ofSource (source : String) : TokenStream := ⟨Scanner.lexemes source.toList, source.utf8ByteSize⟩

/-- The end of input, which lies behind the last character. -/
def final (s : TokenStream) : Lexeme := ⟨.endOfInput, .empty s.stop⟩

/-- The first token ahead, or the end of input. -/
def current (s : TokenStream) : Lexeme := s.ahead.head?.getD s.final

/-- Passes over the current token. The end of input is never passed. -/
def advance (s : TokenStream) : TokenStream := { s with ahead := s.ahead.tail }

/-- All tokens ahead, ending with the end of input. -/
def toList (s : TokenStream) : List Lexeme := s.ahead ++ [s.final]

@[simp] theorem current_cons (lexeme : Lexeme) (after : List Lexeme) (stop : Nat) :
    (TokenStream.mk (lexeme :: after) stop).current = lexeme := rfl

@[simp] theorem current_nil (stop : Nat) :
    (TokenStream.mk [] stop).current = ⟨.endOfInput, .empty stop⟩ := rfl

@[simp] theorem advance_cons (lexeme : Lexeme) (after : List Lexeme) (stop : Nat) :
    (TokenStream.mk (lexeme :: after) stop).advance = ⟨after, stop⟩ := rfl

@[simp] theorem advance_nil (stop : Nat) : (TokenStream.mk [] stop).advance = ⟨[], stop⟩ := rfl

end TokenStream

/-- The tokens of a source text with their places. The last one, and only that, is the end of
input. -/
def tokenize (source : String) : List Lexeme := (TokenStream.ofSource source).toList

/-- A reader that holds one token at a time. -/
structure Cursor where
  /-- The token read last. -/
  current : Lexeme
  /-- The tokens not read yet. -/
  unread : TokenStream
  deriving DecidableEq, Repr, Inhabited

namespace Cursor

/-- A reader in front of the first token; until it moves, it shows an end of input at the start
of the text. -/
def ofSource (source : String) : Cursor := ⟨⟨.endOfInput, .empty 0⟩, .ofSource source⟩

def advance (c : Cursor) : Cursor := ⟨c.unread.current, c.unread.advance⟩

end Cursor

end ScalarLang
