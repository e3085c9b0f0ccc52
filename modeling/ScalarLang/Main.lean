import ScalarLang.CommandLine.Transcript

/-!
# The program

The outer layer: it reads arguments, files and lines, and writes what the
transcript functions say. All decisions are theirs.
-/

open ScalarLang CommandLine

namespace ScalarLang

namespace Program

def write (chunks : List Chunk) : IO Unit := do
  let out ← IO.getStdout
  let err ← IO.getStderr
  for chunk in chunks do
    match chunk with
    | .out text => out.putStr text
    | .err text =>
      out.flush
      err.putStr text
      err.flush
  out.flush

def finish (t : Transcript) : IO UInt32 := do
  write t.chunks
  return t.code.toUInt32

def readText (path : String) : IO (Except InputError String) := do
  try
    let bytes ← IO.FS.readBinFile path
    match String.fromUTF8? bytes with
    | some text => return .ok text
    | none => return .error .notText
  catch
    | .noFileOrDirectory _ _ _ => return .error .missing
    | error => return .error (.other (toString error))

/-- Asks for lines and runs each until the input ends. -/
def console (start : Interpreter) : IO Unit := do
  let input ← IO.getStdin
  let mut interpreter := start
  let mut more := true
  while more do
    write [prompt]
    match consoleStep interpreter (← input.getLine) with
    | none => more := false
    | some (chunks, next) =>
      write chunks
      interpreter := next

def run (arguments : List String) : IO UInt32 := do
  match Options.ofArguments arguments with
  | .error e => finish e.transcript
  | .ok o =>
    match o.interpreter with
    | .error f => finish f.transcript
    | .ok i =>
      match o.input with
      | none =>
        console i
        return 0
      | some path =>
        match fileChunks i path (← readText path) with
        | .error f => finish f.transcript
        | .ok chunks =>
          write chunks
          return 0

end Program

end ScalarLang

/-- Runs the program with the given arguments. -/
def main (arguments : List String) : IO UInt32 := ScalarLang.Program.run arguments
