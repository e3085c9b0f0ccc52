import ScalarLang.CommandLine.Options
import ScalarLang.Diagnostic.Report
import ScalarLang.Session.Interpreter

/-!
# Transcripts

What the program writes, as a list of texts for its two outputs. Outcomes go to
standard output; reports, prompts and what natives write go to standard error. A
file is one source. Standard input is read line by line, each line a source of
its own, and all of them share one interpreter, whose diagnostics are taken after
each failure.
-/

namespace ScalarLang

namespace CommandLine

/-- A text for one of the outputs. -/
inductive Chunk where
  | out (text : String)
  | err (text : String)
  deriving DecidableEq, Repr, Inhabited

def stdout (chunks : List Chunk) : String :=
  String.join <| chunks.map fun
    | .out text => text
    | .err _ => ""

def stderr (chunks : List Chunk) : String :=
  String.join <| chunks.map fun
    | .out _ => ""
    | .err text => text

/-- What is written about a statement whether it failed or not: the output of the natives that it
calls, and then the listing of its code. -/
def openingChunks (r : Response) : List Chunk :=
  let listing :=
    match r.outcome.listing? with
    | some listing => [.out (listing ++ "\n")]
    | none => []
  .err (NativeCall.outputs r.calls) :: listing

/-- Handles a statement and says what to write about it, the last thing being its outcome or the
reports on the diagnostics that are taken after its failure. -/
def statementChunks (i : Interpreter) (file source : String) (statement : Statement) :
    List Chunk × Interpreter :=
  let (response, i) := i.handle statement
  if response.outcome.isFailed then
    let (diagnostics, i) := i.takeDiagnostics
    (openingChunks response ++ [.err (diagnostics.render .coloured file source)], i)
  else (openingChunks response ++ [.out (response.outcome.text ++ "\n")], i)

def programChunks (i : Interpreter) (file source : String) :
    List Statement → List Chunk × Interpreter
  | [] => ([], i)
  | statement :: statements =>
    let (chunks, i) := statementChunks i file source statement
    let (later, i) := programChunks i file source statements
    (chunks ++ later, i)

/-- Runs a source and says what to write about it. -/
def sourceChunks (i : Interpreter) (file source : String) : List Chunk × Interpreter :=
  programChunks i file source (parseProgram source)

def prompt : Chunk := .err "ready> "

/-- The name of standard input in reports. -/
def consoleName : String := "<stdin>"

/-- The lines of an input, each with the line feed that ends it. -/
def inputLines : List Char → List (List Char)
  | [] => []
  | c :: rest => if c = '\n' then [c] :: inputLines rest else consToFirst c (inputLines rest)

/-- Runs a line of standard input, its line feed included. The empty line is the end of the
input. -/
def consoleStep (i : Interpreter) (line : String) : Option (List Chunk × Interpreter) :=
  if line.isEmpty then none else some (sourceChunks i consoleName line)

/-- Runs lines one after the other, each asked for, and asks once more at the end. -/
def consoleChunks (i : Interpreter) : List String → List Chunk × Interpreter
  | [] => ([prompt], i)
  | line :: lines =>
    match consoleStep i line with
    | none => ([prompt], i)
    | some (chunks, i) =>
      let (later, i) := consoleChunks i lines
      (prompt :: chunks ++ later, i)

/-- Why an input could not be read. -/
inductive InputError where
  | missing
  | notText
  | other (description : String)
  deriving DecidableEq, Repr, Inhabited

def InputError.message : InputError → String
  | missing => "No such file or directory (os error 2)"
  | notText => "stream did not contain valid UTF-8"
  | other description => description

/-- Why the program ends without running anything. -/
inductive Failure where
  | unsupportedBackend (name : String)
  | backendNotBuilt
  | unreadable (path : String) (reason : InputError)
  deriving DecidableEq, Repr, Inhabited

/-- The text of a failure, with its cause if there is one. -/
def Failure.text : Failure → String
  | unsupportedBackend name => s!"Error: unsupported backend: {name}\n"
  | backendNotBuilt =>
    "Error: the llvm backend is not compiled in; rebuild with `--features llvm`\n"
  | unreadable path reason =>
    "Error: failed to read input file " ++ path ++ "\n\nCaused by:\n    " ++ reason.message ++ "\n"

/-- The interpreter that the options ask for. -/
def Options.interpreter (o : Options) : Except Failure Interpreter :=
  match o.backend.getD "ir" with
  | "ir" => .ok (.new o.settings (o.limit.getD Engine.defaultLimit))
  | "llvm" => .error .backendNotBuilt
  | name => .error (.unsupportedBackend name)

/-- The texts of a file run from its start, or the failure to read it. -/
def fileChunks (i : Interpreter) (path : String) (contents : Except InputError String) :
    Except Failure (List Chunk) :=
  match contents with
  | .ok source => .ok (sourceChunks i path source).1
  | .error reason => .error (.unreadable path reason)

/-- What the program writes, and the code with which it ends. -/
structure Transcript where
  code : Nat
  chunks : List Chunk
  deriving DecidableEq, Repr, Inhabited

def Failure.transcript (f : Failure) : Transcript := ⟨1, [.err f.text]⟩

def UsageError.transcript (e : UsageError) : Transcript :=
  ⟨2, [.err ("error: " ++ e.message ++ "\n")]⟩

/-- The whole run of the program, given its arguments, how files read and its standard input. -/
def transcript (arguments : List String) (files : String → Except InputError String)
    (input : String) : Transcript :=
  match Options.ofArguments arguments with
  | .error e => e.transcript
  | .ok o =>
    match o.interpreter with
    | .error f => f.transcript
    | .ok i =>
      match o.input with
      | none => ⟨0, (consoleChunks i ((inputLines input.toList).map String.ofList)).1⟩
      | some path =>
        match fileChunks i path (files path) with
        | .error f => f.transcript
        | .ok chunks => ⟨0, chunks⟩

end CommandLine

end ScalarLang
