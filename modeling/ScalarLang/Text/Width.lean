import ScalarLang.Text.WidthTable

/-!
# Columns of text

How many columns a character takes when it is shown. White space shows as blank
columns: a tab reaches to the next multiple of four, and any other takes one.
Control characters take one column as well.
-/

namespace ScalarLang

namespace Width

def isIn (ranges : List CodeRange) (code : Nat) : Bool :=
  ranges.any fun (first, last) => first ≤ code && code ≤ last

/-- The characters of white space, as ranges of code points. -/
def whiteSpaceRanges : List CodeRange :=
  [(0x9, 0xD), (0x20, 0x20), (0x85, 0x85), (0xA0, 0xA0), (0x1680, 0x1680), (0x2000, 0x200A),
    (0x2028, 0x2029), (0x202F, 0x202F), (0x205F, 0x205F), (0x3000, 0x3000)]

def isWhiteSpace (c : Char) : Bool := isIn whiteSpaceRanges c.toNat

theorem isWhiteSpace_of_isWhitespace {c : Char} (h : c.isWhitespace) : isWhiteSpace c := by
  simp only [Char.isWhitespace, Bool.or_eq_true, decide_eq_true_eq] at h
  rcases h with ((rfl | rfl) | rfl) | rfl <;> decide

/-- The number of columns of a character that is not white space. -/
def charWidth (c : Char) : Nat :=
  if c.toNat < 0xA0 then 1
  else if isIn zeroWidth c.toNat then 0
  else if isIn doubleWidth c.toNat then 2
  else if isIn tripleWidth c.toNat then 3
  else 1

/-- The distance between the places at which tabs stop. -/
def tabWidth : Nat := 4

/-- The number of columns of the character at the given index of its line. -/
def columns (index : Nat) (c : Char) : Nat :=
  if c = '\t' then tabWidth - index % tabWidth
  else if isWhiteSpace c then 1
  else charWidth c

theorem columns_tab_pos (index : Nat) : 0 < columns index '\t' := by
  have := Nat.mod_lt index (show 0 < tabWidth by decide)
  simp only [columns, if_pos]
  omega

end Width

end ScalarLang
