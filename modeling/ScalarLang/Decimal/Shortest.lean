import ScalarLang.Decimal.Binary

/-!
# Shortest decimals

`Magnitude.shortest` picks, among the decimals that round to a double, one with
the fewest digits, and among those the nearest one. The reals that round to the
double form an interval around it; `Interval` holds that interval scaled to
whole quarters of the unit in the last place. The grids of multiples of `10 ^ p`
are tried from the coarsest to the finest, and on each only the two neighbours
of the value need a look: if any multiple of `10 ^ p` lies in the interval, so
does one of those two.
-/

namespace ScalarLang

namespace Decimal

/-- The decimal `digits · 10 ^ exponent`. -/
structure Scientific where
  digits : Nat
  exponent : Int
  deriving DecidableEq, Repr, Inhabited

/-- The reals that round to one double, with that double itself: three numbers of quarters of
the unit in the last place. A half-way point rounds to the even significand, so the ends belong
to the interval exactly if the significand is even. -/
structure Interval where
  low : Nat
  value : Nat
  high : Nat
  closed : Bool
  /-- The binary exponent of a quarter of the unit in the last place. -/
  exponent : Int
  deriving DecidableEq, Repr, Inhabited

namespace Magnitude

/-- The reals that round to the magnitude `m`. -/
def interval (m : Magnitude) : Interval where
  low := 4 * m.significand - (if m.narrowBelow then 1 else 2)
  value := 4 * m.significand
  high := 4 * m.significand + 2
  closed := m.significand % 2 = 0
  exponent := m.exponent - 2

end Magnitude

namespace Interval

/-- The multiple of `10 ^ p` nearest to the value among its two neighbours that lie in the
interval, the larger one if both are equally near. Both sides of every comparison are scaled to
whole numbers: `n` quarters are `n · scale / unit` multiples of `10 ^ p`. -/
def onGrid? (i : Interval) (p : Int) : Option Scientific :=
  let scale := Nat.pow 2 i.exponent.toNat * Nat.pow 10 (-p).toNat
  let unit := Nat.pow 2 (-i.exponent).toNat * Nat.pow 10 p.toNat
  let contains (d : Nat) : Bool :=
    if i.closed then i.low * scale ≤ d * unit && d * unit ≤ i.high * scale
    else i.low * scale < d * unit && d * unit < i.high * scale
  let below := i.value * scale / unit
  let remainder := i.value * scale % unit
  if contains below && (2 * remainder < unit || !contains (below + 1)) then some ⟨below, p⟩
  else if contains (below + 1) then some ⟨below + 1, p⟩
  else none

end Interval

namespace Magnitude

/-- A power of ten that exceeds the magnitude: `30103 / 100000` is `log10 2` to five places. -/
def gridAbove (m : Magnitude) : Int :=
  ((m.significand.log2 : Int) + m.exponent + 1) * 30103 / 100000 + 2

/-- The magnitude as a decimal, exactly. -/
def exact (m : Magnitude) : Scientific :=
  if 0 ≤ m.exponent then ⟨m.significand * Nat.pow 2 m.exponent.toNat, 0⟩
  else ⟨m.significand * Nat.pow 5 (-m.exponent).toNat, m.exponent⟩

/-- The decimal with the fewest digits that reads back as `m`, and the nearest of those. Twenty
grids reach from above the value to beyond seventeen digits, which always suffice. -/
def shortest (m : Magnitude) : Scientific :=
  ((List.range 20).findSome? fun n : Nat => m.interval.onGrid? (m.gridAbove - n)).getD m.exact

end Magnitude

end Decimal

end ScalarLang
