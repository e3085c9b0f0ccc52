import ScalarLang.Token.Basic

/-!
# Operators

The six binary operators and their meaning on doubles. A comparison holds if its
strict order does or if one of the operands is not a number, and has the value
one or zero.
-/

namespace ScalarLang

inductive Arithmetic where
  | add
  | sub
  | mul
  | div
  deriving DecidableEq, Repr, Inhabited

def Arithmetic.apply : Arithmetic → Float → Float → Float
  | add, x, y => x + y
  | sub, x, y => x - y
  | mul, x, y => x * y
  | div, x, y => x / y

inductive Comparison where
  | less
  | greater
  deriving DecidableEq, Repr, Inhabited

namespace Comparison

/-- A comparison holds strictly or because the operands are unordered. -/
def holds (c : Comparison) (x y : Float) : Bool :=
  x.isNaN || y.isNaN ||
    match c with
    | less => decide (x < y)
    | greater => decide (y < x)

/-- One if the comparison holds, zero otherwise. -/
def apply (c : Comparison) (x y : Float) : Float := if c.holds x y then 1.0 else 0.0

end Comparison

inductive Operator where
  | arithmetic (op : Arithmetic)
  | comparison (op : Comparison)
  deriving DecidableEq, Repr, Inhabited

namespace Operator

def all : List Operator :=
  [.arithmetic .add, .arithmetic .sub, .arithmetic .mul, .arithmetic .div,
    .comparison .less, .comparison .greater]

def mark : Operator → Punctuator
  | arithmetic .add => .plus
  | arithmetic .sub => .minus
  | arithmetic .mul => .star
  | arithmetic .div => .slash
  | comparison .less => .less
  | comparison .greater => .greater

def char (op : Operator) : Char := op.mark.char

def ofMark? (mark : Punctuator) : Option Operator := all.find? (·.mark == mark)

def ofChar? (c : Char) : Option Operator := all.find? (·.char == c)

theorem ofMark?_mark (op : Operator) : ofMark? op.mark = some op := by
  rcases op with op | op <;> cases op <;> decide

theorem mark_of_ofMark? {mark : Punctuator} {op : Operator} (h : ofMark? mark = some op) :
    op.mark = mark :=
  eq_of_beq (List.find?_some h :)

theorem ofChar?_char (op : Operator) : ofChar? op.char = some op := by
  rcases op with op | op <;> cases op <;> decide

/-- The rank of an operator. The higher it is, the tighter the operator binds. -/
def precedence : Operator → Nat
  | arithmetic .add | arithmetic .sub => 20
  | arithmetic .mul | arithmetic .div => 40
  | comparison _ => 10

end Operator

end ScalarLang
