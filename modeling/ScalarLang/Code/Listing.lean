import ScalarLang.Code.Basic

/-!
# Code listings

The text of code. Every instruction stands on a line of its own, constants have
six decimal places, and a module lists its functions with an empty line in front
of each.
-/

namespace ScalarLang

namespace Code

def constantPlaces : Nat := 6

def Operand.text : Operand → String
  | constant value => Decimal.fixed constantPlaces value
  | register name | argument name => "%" ++ name

def arithmeticMnemonic : Arithmetic → String
  | .add => "fadd"
  | .sub => "fsub"
  | .mul => "fmul"
  | .div => "fdiv"

/-- The condition code of a comparison, which holds for unordered operands too. -/
def conditionCode : Comparison → String
  | .less => "ult"
  | .greater => "ugt"

/-- Operands or parameters with their type in front. -/
def typedList (items : List String) : String :=
  "(" ++ ", ".intercalate (items.map ("double " ++ ·)) ++ ")"

/-- The text behind the register that an instruction assigns. -/
def Instruction.computation : Instruction → String
  | arithmetic op _ lhs rhs =>
    arithmeticMnemonic op ++ " double " ++ lhs.text ++ ", " ++ rhs.text
  | compare op _ lhs rhs =>
    "fcmp " ++ conditionCode op ++ " double " ++ lhs.text ++ ", " ++ rhs.text
  | widen _ value => "uitofp i1 " ++ value.text ++ " to double"
  | call _ callee args => "call double @" ++ callee ++ typedList (args.map Operand.text)

def Instruction.text (i : Instruction) : String := "  %" ++ i.dest ++ " = " ++ i.computation

/-- The lines of a block: its label, its instructions, and its return if it is terminated. -/
def Block.lines (b : Block) : List String :=
  (b.label ++ ":") :: b.instructions.map Instruction.text ++
    (b.terminator.map fun value => "  ret double " ++ value.text).toList

/-- Lines, each with its line end. -/
def unlines (lines : List String) : String := String.join (lines.map (· ++ "\n"))

def Function.signatureText (f : Function) : String :=
  "double @" ++ f.name ++ typedList (f.params.map ("%" ++ ·))

def Function.text (f : Function) : String :=
  if f.isDeclaration then unlines ["declare " ++ f.signatureText]
  else
    unlines <| ("define " ++ f.signatureText ++ " \x7b") :: f.blocks.flatMap Block.lines ++ ["\x7d"]

def Module.text (m : Module) : String :=
  unlines ["; ModuleID = '" ++ m.name ++ "'"] ++
    String.join (m.functions.map fun f => "\n" ++ f.text)

end Code

end ScalarLang
