/-!
# Lines of text

A text is split after its line ends; a carriage return with a line feed behind it
is one of them. The lines put together again are the text
(`flatten_splitLines`). Places in a `SourceText` are counted in characters.
-/

namespace ScalarLang

/-- The characters that end a line: line feed, vertical tab, form feed, carriage return, next
line, line separator and paragraph separator. -/
def isLineBreak (c : Char) : Bool :=
  [0xA, 0xB, 0xC, 0xD, 0x85, 0x2028, 0x2029].contains c.toNat

/-- Puts a character in front of the first line of a list. -/
def consToFirst (c : Char) : List (List Char) → List (List Char)
  | [] => [[c]]
  | line :: lines => (c :: line) :: lines

/-- The lines of a text, each with its line end. No line follows the last line end. -/
def splitLines : List Char → List (List Char)
  | [] => []
  | '\r' :: '\n' :: rest => ['\r', '\n'] :: splitLines rest
  | c :: rest =>
    if isLineBreak c then [c] :: splitLines rest else consToFirst c (splitLines rest)

theorem flatten_consToFirst (c : Char) (lines : List (List Char)) :
    (consToFirst c lines).flatten = c :: lines.flatten := by
  cases lines <;> rfl

/-- The lines put together again are the text. -/
theorem flatten_splitLines (text : List Char) : (splitLines text).flatten = text := by
  fun_induction splitLines text with
  | case1 => rfl
  | case2 rest ih => simp [ih]
  | case3 c rest _ _ ih => simp [ih]
  | case4 c rest _ _ ih => rw [flatten_consToFirst, ih]

structure SourceLine where
  /-- The number of the line, the first line being one. -/
  number : Nat
  /-- The number of characters in front of the line. -/
  offset : Nat
  /-- The characters of the line with its line end. -/
  text : List Char
  deriving DecidableEq, Repr, Inhabited

namespace SourceLine

/-- The number of characters in front of the next line. -/
def stop (line : SourceLine) : Nat := line.offset + line.text.length

end SourceLine

structure SourceText where
  /-- The number of characters of the text. -/
  length : Nat
  lines : List SourceLine
  deriving DecidableEq, Repr, Inhabited

namespace SourceText

/-- Numbers lines, given the number and the offset of the first one. -/
def locate (number offset : Nat) : List (List Char) → List SourceLine
  | [] => []
  | text :: later => ⟨number, offset, text⟩ :: locate (number + 1) (offset + text.length) later

/-- A text with its lines. The empty text has one empty line. -/
def ofString (text : String) : SourceText :=
  let chars := text.toList
  let lines := if chars.isEmpty then [[]] else splitLines chars
  ⟨chars.length, locate 1 0 lines⟩

/-- The line that holds the character at the given place. The end of the text belongs to the last
line, and there is no line beyond. -/
def lineAt? (s : SourceText) (place : Nat) : Option SourceLine :=
  if place ≤ s.length then (s.lines.takeWhile (·.offset ≤ place)).getLast? else none

end SourceText

end ScalarLang
