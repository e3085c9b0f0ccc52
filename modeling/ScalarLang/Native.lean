import ScalarLang.Decimal.Notation

/-!
# Natives

The functions that every program can call without defining them: the usual
functions on doubles, and two that write. A call of a native has a value and an
output text, both of which depend on its arguments alone.
-/

namespace ScalarLang

/-- The natives, in the order in which they are listed. -/
inductive Native where
  | sin
  | cos
  | tan
  | sqrt
  | exp
  | log
  | fabs
  | floor
  | ceil
  | pow
  | putchard
  | printd
  deriving DecidableEq, Repr, Inhabited

namespace Native

def all : List Native :=
  [sin, cos, tan, sqrt, exp, log, fabs, floor, ceil, pow, putchard, printd]

def name : Native → String
  | sin => "sin"
  | cos => "cos"
  | tan => "tan"
  | sqrt => "sqrt"
  | exp => "exp"
  | log => "log"
  | fabs => "fabs"
  | floor => "floor"
  | ceil => "ceil"
  | pow => "pow"
  | putchard => "putchard"
  | printd => "printd"

def ofName? (name : String) : Option Native := all.find? (·.name == name)

theorem ofName?_name (n : Native) : ofName? n.name = some n := by cases n <;> decide

def arity : Native → Nat
  | pow => 2
  | _ => 1

/-- The value of a native at the given arguments, if their number is right. The two that write
have the value zero. -/
def value? : Native → List Float → Option Float
  | sin, [x] => some x.sin
  | cos, [x] => some x.cos
  | tan, [x] => some x.tan
  | sqrt, [x] => some x.sqrt
  | exp, [x] => some x.exp
  | log, [x] => some x.log
  | fabs, [x] => some x.abs
  | floor, [x] => some x.floor
  | ceil, [x] => some x.ceil
  | pow, [x, y] => some (x.pow y)
  | putchard, [_] => some 0
  | printd, [_] => some 0
  | _, _ => none

theorem isSome_value?_iff (n : Native) (args : List Float) :
    (n.value? args).isSome ↔ args.length = n.arity := by
  rcases args with _ | ⟨x, _ | ⟨y, _ | ⟨z, args⟩⟩⟩ <;> cases n <;> simp [value?, arity]

/-- The character with the given code, its fraction cut off and the range of 32-bit words not
exceeded. Nothing is written for a code that no character has. -/
def characterText (code : Float) : String :=
  let word := code.toUInt32
  if word.isValidChar then String.singleton (Char.ofNat word.toNat) else ""

/-- What a native writes: `putchard` a character and `printd` a number on a line of its own. -/
def output : Native → List Float → String
  | putchard, [code] => characterText code
  | printd, [x] => Decimal.plain x ++ "\n"
  | _, _ => ""

end Native

/-- A call of a native that was carried out. -/
structure NativeCall where
  native : Native
  args : List Float
  deriving DecidableEq, Repr, Inhabited

/-- What a list of calls writes, in order. -/
def NativeCall.outputs (calls : List NativeCall) : String :=
  String.join (calls.map fun call => call.native.output call.args)

end ScalarLang
