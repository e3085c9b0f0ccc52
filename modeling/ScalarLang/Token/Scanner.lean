import ScalarLang.Decimal.Numeral
import ScalarLang.Token.Basic

/-!
# Scanning

A text is cut into pieces, each the longest match of the one rule that its first
character selects: a run of blanks, a comment, a word, a numeral, a punctuator,
or a single character that no rule accepts. Blanks and comments carry no token.
`Scanner.pieces` keeps the skipped pieces too, so the pieces of a text put
together again are that text (`flatMap_text_pieces`), and byte offsets follow by
adding up (`Scanner.locate`).
-/

namespace ScalarLang

/-- A stretch of source text and the token it stands for, if any. -/
structure Piece where
  token? : Option Token
  text : List Char
  deriving DecidableEq, Repr, Inhabited

namespace Scanner

/-- The characters between tokens: space, tab, the two line ends, vertical tab and form feed. -/
def isBlank (c : Char) : Bool :=
  c == ' ' || c == '\t' || c == '\n' || c == '\r' || c == '\x0b' || c == '\x0c'

def isLineEnd (c : Char) : Bool := c == '\n' || c == '\r'

/-- The characters of a word behind its first letter. Only letters and digits of ASCII count. -/
def isWordChar (c : Char) : Bool := c.isAlphanum || c == '_'

/-- A word is a reserved word or an identifier. -/
def wordToken (text : List Char) : Token :=
  let word := String.ofList text
  match Keyword.ofText? word with
  | some keyword => .keyword keyword
  | none => .identifier word

/-- A numeral is a number, or unknown if it has no value. -/
def numeralToken (text : List Char) : Token :=
  match Decimal.numeral? text with
  | some value => .number value
  | none => .unknown (String.ofList text)

/-- The part of a comment behind its mark: everything up to the line end, and the line end. -/
def commentTail (rest : List Char) : List Char × List Char :=
  let body := rest.takeWhile (!isLineEnd ·)
  match rest.dropWhile (!isLineEnd ·) with
  | [] => (body, [])
  | terminator :: after => (body ++ [terminator], after)

/-- The longest piece at the head of the text `c :: rest`, and the text behind it. -/
def split (c : Char) (rest : List Char) : Piece × List Char :=
  if isBlank c then
    (⟨none, c :: rest.takeWhile isBlank⟩, rest.dropWhile isBlank)
  else if c == '#' then
    (⟨none, c :: (commentTail rest).1⟩, (commentTail rest).2)
  else if c.isAlpha then
    let word := c :: rest.takeWhile isWordChar
    (⟨some (wordToken word), word⟩, rest.dropWhile isWordChar)
  else if c.isDigit then
    let numeral := c :: rest.takeWhile Decimal.isNumeralChar
    (⟨some (numeralToken numeral), numeral⟩, rest.dropWhile Decimal.isNumeralChar)
  else
    match Punctuator.ofChar? c with
    | some mark => (⟨some (.punctuator mark), [c]⟩, rest)
    | none => (⟨some (.unknown (String.singleton c)), [c]⟩, rest)

theorem commentTail_append (rest : List Char) :
    (commentTail rest).1 ++ (commentTail rest).2 = rest := by
  have whole := List.takeWhile_append_dropWhile (p := (!isLineEnd ·)) (l := rest)
  unfold commentTail
  split <;> simp_all

/-- Nothing is lost: the piece and the text behind it make up the text. -/
theorem text_split_append (c : Char) (rest : List Char) :
    (split c rest).1.text ++ (split c rest).2 = c :: rest := by
  unfold split
  split
  · simp
  split
  · simp [commentTail_append]
  split
  · simp
  split
  · simp
  split <;> simp

theorem text_split_ne_nil (c : Char) (rest : List Char) : (split c rest).1.text ≠ [] := by
  unfold split
  (repeat' split) <;> simp

/-- Every piece takes at least one character. -/
theorem length_split_lt (c : Char) (rest : List Char) :
    (split c rest).2.length < (c :: rest).length := by
  have whole := congrArg List.length (text_split_append c rest)
  have taken := List.length_pos_iff.2 (text_split_ne_nil c rest)
  rw [List.length_append] at whole
  omega

/-- The pieces of a text, the skipped ones among them. -/
def pieces : List Char → List Piece
  | [] => []
  | c :: rest => (split c rest).1 :: pieces (split c rest).2
  termination_by text => text.length
  decreasing_by exact length_split_lt c rest

@[simp] theorem pieces_nil : pieces [] = [] := by rw [pieces]

theorem pieces_cons (c : Char) (rest : List Char) :
    pieces (c :: rest) = (split c rest).1 :: pieces (split c rest).2 := by rw [pieces]

/-- The pieces put together again are the text. -/
theorem flatMap_text_pieces (text : List Char) : (pieces text).flatMap Piece.text = text := by
  fun_induction pieces text with
  | case1 => rfl
  | case2 c rest ih => rw [List.flatMap_cons, ih, text_split_append]

/-- The number of bytes of a text in UTF-8. -/
def byteLength (text : List Char) : Nat := text.foldr (fun c bytes => c.utf8Size + bytes) 0

/-- The tokens of consecutive pieces with their places, if the first piece starts at `offset`. -/
def locate (offset : Nat) : List Piece → List Lexeme
  | [] => []
  | piece :: after =>
    let stop := offset + byteLength piece.text
    match piece.token? with
    | some token => ⟨token, ⟨offset, stop⟩⟩ :: locate stop after
    | none => locate stop after

/-- The tokens of a text with their places, the end of input left out. -/
def lexemes (text : List Char) : List Lexeme := locate 0 (pieces text)

end Scanner

end ScalarLang
