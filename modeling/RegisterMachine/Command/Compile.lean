import RegisterMachine.Command.Files

/-!
# The assembler

Assembles a source file and stores the program.
-/

namespace RegisterMachine.Compile

variable {m : Type → Type} [Monad m] [Console m]

open Console

inductive Request where
  | help
  /-- There are no arguments. -/
  | nothing
  | assemble (input : String) (output : Option String)
  /-- An option lacks its argument. -/
  | incomplete (option : String)
  | unexpected (argument : String)
deriving DecidableEq, Repr

def options (input : String) (output : Option String) : List String → Request
  | [] => .assemble input output
  | option :: rest =>
    if option = "--output" ∨ option = "-o" then
      match rest with
      | [] => .incomplete option
      | file :: rest => options input (some file) rest
    else .unexpected option

/-- Reads the arguments. -/
def request : List String → Request
  | [] => .nothing
  | "--help" :: _ => .help
  | "-h" :: _ => .help
  | input :: rest => options input none rest

def usage (program : String) : String :=
  "Usage: " ++ program ++ " <input.kasm> [OPTIONS]\n" ++
  "\n" ++
  "Options:\n" ++
  "  -o, --output <file>   output path (defaults to <input>.kbc)\n" ++
  "  -h, --help            show this message\n"

/-- The output path of an input path: the same directory and name, with another extension. -/
def defaultOutput (input : String) : String :=
  let name := ((Path.fileName? input).map Path.stem).getD ""
  Path.join ((Path.parent? input).getD ".") (name ++ ".kbc")

/-- The directory of an output path, if it is named and does not exist. -/
def missingDirectory? (output : String) : m (Option String) := do
  match Path.parent? output with
  | some directory =>
    if directory = "" then return none
    else if ← pathExists directory then return none
    else return some directory
  | none => return none

/-- Assembles a source text and stores the program; gives the exit code. -/
def compileSource (threshold : Level) (input output source : String) : m UInt32 := do
  match Assembly.assemble source input with
  | .error error =>
    err (Assembly.diagnostic input source error)
    log threshold .error "Assembly failed"
    return 1
  | .ok program =>
    for function in program.functions do
      log threshold .debug (function.name ++ ": " ++ toString function.code.size ++
        " instructions, " ++ toString function.registerCount ++ " registers")
    let bytes := program.toBytes
    match ← writeFile output bytes with
    | .error error =>
      log threshold .error ("Failed to write output file: " ++ error.message)
      return 1
    | .ok () =>
      log threshold .info ("Compiled " ++ input ++ " -> " ++ output ++ " (" ++
        toString program.functions.size ++ " functions, " ++ toString bytes.length ++ " bytes)")
      return 0

def compileFile (threshold : Level) (input : String) (output : Option String) : m UInt32 := do
  match ← readText input with
  | .error error =>
    log threshold .error ("Failed to read input file " ++ input ++ ": " ++ error.message)
    return 1
  | .ok source =>
    let output := output.getD (defaultOutput input)
    match ← missingDirectory? output with
    | some directory =>
      log threshold .error ("Output directory does not exist: " ++ directory)
      return 1
    | none => compileSource threshold input output source

/-- The assembler; `program` is the name that it was called by.  Gives the exit code. -/
def command (program : String) (arguments : List String) : m UInt32 := do
  let threshold ← logLevel
  match request arguments with
  | .help =>
    err (usage program)
    return 0
  | .nothing =>
    err (usage program)
    return 1
  | .incomplete option =>
    log threshold .error (option ++ " requires an argument")
    return 1
  | .unexpected argument =>
    log threshold .error ("Unexpected argument: " ++ argument ++ "\n")
    err (usage program)
    return 1
  | .assemble input output => compileFile threshold input output

end RegisterMachine.Compile
