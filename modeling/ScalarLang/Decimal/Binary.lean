/-!
# The exact value of a double

Every finite double is a whole number of units in the last place. `Binary.ofFloat`
reads that form off the bit pattern, so that decimal text can be chosen by exact
arithmetic on `Nat` alone: a finite value is `± significand · 2 ^ exponent`.
-/

namespace ScalarLang

namespace Decimal

/-- The magnitude `significand · 2 ^ exponent`. -/
structure Magnitude where
  significand : Nat
  exponent : Int
  deriving DecidableEq, Repr, Inhabited

inductive Binary where
  | nan
  | infinite (negative : Bool)
  | finite (negative : Bool) (magnitude : Magnitude)
  deriving DecidableEq, Repr, Inhabited

/-- The weight `2 ^ 52` of the leading bit of a normal significand. The bits of less weight are the
fraction, which is all that a double stores of it. -/
def leadingBit : Nat := 0x10000000000000

/-- The exponent of the unit in the last place of the subnormal doubles, the least there is. -/
def leastExponent : Int := -1074

/-- Reads the sign, the biased exponent and the fraction off the bit pattern. A biased exponent
of zero marks the subnormal values, which lack the implicit leading bit; one of all ones marks
the infinities and the values that are not numbers. -/
def Binary.ofFloat (x : Float) : Binary :=
  let bits := x.toBits.toNat
  let negative := bits.testBit 63
  let biased := bits / leadingBit % 2048
  let fraction := bits % leadingBit
  if biased = 2047 then
    if fraction = 0 then .infinite negative else .nan
  else if biased = 0 then
    .finite negative ⟨fraction, leastExponent⟩
  else
    .finite negative ⟨leadingBit + fraction, leastExponent + (biased - 1 : Nat)⟩

namespace Magnitude

/-- The next smaller double is only half as far away as the next larger one exactly above a
power of two, where the exponent of the unit changes. -/
def narrowBelow (m : Magnitude) : Bool :=
  m.significand = leadingBit && decide (leastExponent < m.exponent)

end Magnitude

end Decimal

end ScalarLang
