import ScalarLang.Session.Basic

/-!
# Command line options

The arguments are an input file and options in any order. An option that takes a
value has it behind an equals sign or in the next argument, and no option is
given twice. Behind two dashes every argument is a file.
-/

namespace ScalarLang

namespace CommandLine

/-- Why arguments are refused. -/
inductive UsageError where
  | unknownOption (option : String)
  | repeatedOption (option : String)
  | missingValue (option : String)
  | unexpectedValue (option : String)
  | invalidNumber (option value : String)
  | secondInput (argument : String)
  deriving DecidableEq, Repr, Inhabited

def UsageError.message : UsageError → String
  | unknownOption option => s!"unknown option '{option}'"
  | repeatedOption option => s!"option '{option}' is given more than once"
  | missingValue option => s!"option '{option}' needs a value"
  | unexpectedValue option => s!"option '{option}' takes no value"
  | invalidNumber option value => s!"'{value}' is no number for option '{option}'"
  | secondInput argument => s!"unexpected argument '{argument}'"

/-- What was given on the command line. -/
structure Options where
  /-- The input file. Without one the program reads standard input. -/
  input : Option String
  listCode : Bool
  moduleName : Option String
  backend : Option String
  limit : Option Nat
  deriving DecidableEq, Repr, Inhabited

inductive Flag where
  | listCode
  | moduleName
  | backend
  | limit
  deriving DecidableEq, Repr, Inhabited

namespace Flag

/-- The options, each once. -/
def all : List Flag := [listCode, moduleName, backend, limit]

def name : Flag → String
  | listCode => "print-ir"
  | moduleName => "module-name"
  | backend => "backend"
  | limit => "max-call-depth"

def text (f : Flag) : String := "--" ++ f.name

def ofName? (name : String) : Option Flag := all.find? (·.name == name)

def takesValue : Flag → Bool
  | listCode => false
  | _ => true

end Flag

/-- What an argument is by its form. -/
inductive Argument where
  | separator
  | option (name : String) (value : Option String)
  | input (path : String)
  deriving DecidableEq, Repr, Inhabited

/-- The form of an argument: two dashes open an option, and an equals sign divides its name from
its value. A single dash on its own is a file. -/
def Argument.ofString (argument : String) : Argument :=
  match argument.toList with
  | ['-', '-'] => separator
  | '-' :: '-' :: rest =>
    match rest.dropWhile (· != '=') with
    | [] => option (String.ofList rest) none
    | _ :: value => option (String.ofList (rest.takeWhile (· != '='))) (some (String.ofList value))
  | '-' :: _ :: _ => option argument none
  | _ => input argument

/-- The greatest limit that can be given, `2 ^ 64 - 1`. -/
def greatestLimit : Nat := 0xFFFFFFFFFFFFFFFF

/-- The value of a number: digits, with a plus sign in front or without. -/
def number? (text : String) : Option Nat :=
  let digits :=
    match text.toList with
    | '+' :: rest => rest
    | rest => rest
  if digits.isEmpty || !digits.all Char.isDigit then none
  else
    let value := digits.foldl (fun n c => 10 * n + (c.toNat - '0'.toNat)) 0
    if value ≤ greatestLimit then some value else none

namespace Options

def none : Options := ⟨.none, false, .none, .none, .none⟩

def withInput (o : Options) (path : String) : Except UsageError Options :=
  if o.input.isSome then .error (.secondInput path) else .ok { o with input := some path }

def has (o : Options) : Flag → Bool
  | .listCode => o.listCode
  | .moduleName => o.moduleName.isSome
  | .backend => o.backend.isSome
  | .limit => o.limit.isSome

def withFlag (o : Options) (f : Flag) (value : String) : Except UsageError Options :=
  if o.has f then .error (.repeatedOption f.text)
  else
    match f with
    | .listCode => .ok { o with listCode := true }
    | .moduleName => .ok { o with moduleName := some value }
    | .backend => .ok { o with backend := some value }
    | .limit =>
      match number? value with
      | some limit => .ok { o with limit := some limit }
      | .none => .error (.invalidNumber f.text value)

/-- Reads arguments, given the options read before. -/
def read (o : Options) : List String → Except UsageError Options
  | [] => .ok o
  | argument :: rest =>
    match Argument.ofString argument with
    | .separator => rest.foldlM withInput o
    | .input path => do (← o.withInput path).read rest
    | .option name value =>
      match Flag.ofName? name, value with
      | .none, _ => .error (.unknownOption argument)
      | some f, some value =>
        if f.takesValue then do (← o.withFlag f value).read rest
        else .error (.unexpectedValue f.text)
      | some f, .none =>
        if f.takesValue then
          match rest with
          | [] => .error (.missingValue f.text)
          | value :: later =>
            match Argument.ofString value with
            | .input value => do (← o.withFlag f value).read later
            | _ => .error (.missingValue f.text)
        else do (← o.withFlag f "").read rest

def ofArguments (arguments : List String) : Except UsageError Options := none.read arguments

def settings (o : Options) : Settings where
  moduleName := o.moduleName.getD Settings.standard.moduleName
  listCode := o.listCode

end Options

end CommandLine

end ScalarLang
