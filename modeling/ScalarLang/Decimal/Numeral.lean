/-!
# Reading numerals

A numeral is a run of digits and points. It has a value if it has at most one
point: the nearest double to the decimal it spells, ties to even, and infinity
beyond the range. No sign and no exponent can occur.
-/

namespace ScalarLang

namespace Decimal

/-- Whether `c` may stand in a numeral behind its first digit. -/
def isNumeralChar (c : Char) : Bool := c.isDigit || c == '.'

/-- The number spelled by the decimal digits of `text`, other characters passed over. -/
def digitsValue (text : List Char) : Nat :=
  (text.filter Char.isDigit).foldl (fun n c => 10 * n + (c.toNat - '0'.toNat)) 0

/-- The number of digits behind the first point of `text`. -/
def fractionLength (text : List Char) : Nat :=
  (text.dropWhile (· != '.')).length - 1

/-- The value of a numeral, if it has at most one point. -/
def numeral? (text : List Char) : Option Float :=
  if text.count '.' ≤ 1 then
    some (Float.ofScientific (digitsValue text) true (fractionLength text))
  else none

end Decimal

end ScalarLang
