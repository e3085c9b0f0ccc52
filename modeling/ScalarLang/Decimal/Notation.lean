import ScalarLang.Decimal.Shortest

/-!
# Decimal text of doubles

Two formats. `Decimal.plain` writes the shortest digits that read back, in
positional notation whatever the size: whole numbers have no point. It is the
form of every number a user sees. `Decimal.fixed` writes a given number of
decimal places, rounded from the exact value with ties to the even neighbour;
code listings use it with six places.
-/

namespace ScalarLang

namespace Decimal

def signed (negative : Bool) (text : String) : String :=
  if negative then "-" ++ text else text

/-- Inserts a decimal point in front of the last `places` digits of `digits`, after padding with
leading zeros so that a digit stands in front of the point. -/
def withPoint (digits places : Nat) : String :=
  let text := (Nat.repr digits).toList
  let padded := List.replicate (places + 1 - text.length) '0' ++ text
  let whole := padded.take (padded.length - places)
  String.ofList (whole ++ '.' :: padded.drop whole.length)

namespace Scientific

/-- The digits and the places of the decimal without trailing zeros behind the point. -/
def trimmed (digits : Nat) : Nat → Nat × Nat
  | 0 => (digits, 0)
  | places + 1 => if digits % 10 = 0 then trimmed (digits / 10) places else (digits, places + 1)

/-- Positional notation, with a point only in front of a digit other than zero. -/
def plain (d : Scientific) : String :=
  if 0 ≤ d.exponent then Nat.repr (d.digits * Nat.pow 10 d.exponent.toNat)
  else
    match trimmed d.digits (-d.exponent).toNat with
    | (digits, 0) => Nat.repr digits
    | (digits, places + 1) => withPoint digits (places + 1)

end Scientific

/-- The quotient `numerator / denominator` rounded to the nearest whole number, a tie to the
even one. -/
def roundHalfEven (numerator denominator : Nat) : Nat :=
  let quotient := numerator / denominator
  let twice := 2 * (numerator % denominator)
  if twice < denominator then quotient
  else if denominator < twice then quotient + 1
  else quotient + quotient % 2

/-- The magnitude with `places` decimal places. -/
def Magnitude.fixed (places : Nat) (m : Magnitude) : String :=
  let rounded := roundHalfEven
    (m.significand * Nat.pow 2 m.exponent.toNat * Nat.pow 10 places)
    (Nat.pow 2 (-m.exponent).toNat)
  if places = 0 then Nat.repr rounded else withPoint rounded places

/-- Writes a double, given how to write the magnitude of a finite one. Zero keeps its sign, and
the value that is not a number has none. -/
def Binary.text (magnitude : Magnitude → String) : Binary → String
  | .nan => "NaN"
  | .infinite negative => signed negative "inf"
  | .finite negative m => signed negative (magnitude m)

/-- The shortest text in positional notation that reads back as `x`. -/
def plain (x : Float) : String :=
  (Binary.ofFloat x).text fun m =>
    if m.significand = 0 then "0" else m.shortest.plain

/-- The text of `x` with `places` decimal places. -/
def fixed (places : Nat) (x : Float) : String :=
  (Binary.ofFloat x).text (Magnitude.fixed places)

end Decimal

end ScalarLang
