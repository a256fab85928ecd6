import RegisterMachine.Assembly.Assemble
import RegisterMachine.Command.Console
import RegisterMachine.Machine.Step
import RegisterMachine.Program.File

/-!
# The runner

Runs a program from a file, or reads instructions line by line and carries each out at once.
-/

namespace RegisterMachine.Run

variable {m : Type → Type} [Monad m] [Console m]

open Console

def version : String := "0.1.0"

/-- The environment variable with the instruction budget of a run. -/
def budgetVariable : String := "KORE_INSTRUCTION_BUDGET"

inductive Request where
  | help
  | version
  | bareVersion
  /-- Runs a file. -/
  | file (path : String) (dumpRegisters : Bool)
  /-- Starts an interactive session. -/
  | session
  /-- The arguments make no sense. -/
  | misuse (reason : String)
deriving DecidableEq, Repr

/-- Reads the arguments; `path` is the file named so far. -/
def request (path : Option String) (dumpRegisters : Bool) : List String → Request
  | [] =>
    match path with
    | some path => .file path dumpRegisters
    | none => .session
  | argument :: rest =>
    match argument with
    | "--help" | "-h" => .help
    | "--version" => .version
    | "--version-only" => .bareVersion
    | "--dump-registers" => request path true rest
    | "run" =>
      match path, rest with
      | some _, _ => .misuse "Unexpected argument: run"
      | none, file :: rest =>
        if file.toList.head? = some '-' then .misuse "run requires a path"
        else request (some file) dumpRegisters rest
      | none, [] => .misuse "run requires a path"
    | other => .misuse ("Unexpected argument: " ++ other)

def usage (program : String) : String :=
  "Usage: " ++ program ++ " run <path> [--dump-registers]\n" ++
  "       " ++ program ++ "              (interactive session)\n" ++
  "\n" ++
  "Options:\n" ++
  "  --dump-registers   print the register window after the run\n" ++
  "  --version          print version and ISA summary\n" ++
  "  --version-only     print the bare version\n" ++
  "  -h, --help         show this message\n" ++
  "\n" ++
  "Environment:\n" ++
  "  " ++ budgetVariable ++ "   stop after this many instructions\n" ++
  "  KORE_LOG                  log level (debug, info, warn, error)\n"

def versionText : String :=
  "kore " ++ version ++ "\n" ++
  "isa: " ++ toString Opcode.all.length ++
    " opcodes, 32-bit instruction words, module magic KORBC\n"

/-- The limits of a run with the budget that the environment gives, if any. -/
def limitsFor : Option String → Except String Limits
  | none => .ok .default
  | some raw =>
    match (Text.uint64? (Text.trim raw)).filter (0 < ·) with
    | some budget => .ok { Limits.default with budget := some budget.toNat }
    | none => .error (budgetVariable ++ " must be a positive integer, got '" ++ raw ++ "'")

def flush (machine : Machine) : m Machine := do
  for line in machine.printed do
    outLine line
  return { machine with printed := #[] }

/-- Runs a started machine for at most `n` strides and writes what it prints after each. -/
def runPrinting (program : Program) : Nat → Machine → m Machine
  | 0, machine => return machine
  | n + 1, machine =>
    match machine.status with
    | .running => do runPrinting program n (← flush (machine.runFor program Machine.stride))
    | _ => return machine

def runProgram (machine : Machine) (program : Program) : m Machine :=
  runPrinting program Machine.enoughStrides (machine.start program program.entry)

/-- The program in a file: stored, or else as source text. -/
def loadProgram (threshold : Level) (path : String) : m (Except String Program) := do
  match ← readFile path with
  | .error error => return .error ("Failed to read " ++ path ++ ": " ++ error.message)
  | .ok bytes =>
    if Program.isStored bytes then
      log threshold .debug
        ("Loading binary module " ++ path ++ " (" ++ toString bytes.length ++ " bytes)")
      match Program.ofBytes bytes with
      | .ok program => return .ok program
      | .error error => return .error ("Failed to load " ++ path ++ ": " ++ error.message)
    else
      log threshold .debug (path ++ " has no module header, assembling it as source")
      match decodeText bytes with
      | .error _ => return .error (path ++ " is neither a module nor UTF-8 source")
      | .ok source =>
        match Assembly.assemble source path with
        | .ok program => return .ok program
        | .error error => return .error (Assembly.diagnostic path source error)

/-- One line for each of the first registers. -/
def registerLines (registers : Array Value) (heap : Heap) (count : Nat) : List String :=
  (registers.toList.take count).zipIdx.map fun (value, i) =>
    "r" ++ Text.padRight 3 (toString i) ++ " = " ++ heap.render value

def printRegisters (registers : Array Value) (heap : Heap) (count : Nat) : m Unit := do
  for line in registerLines registers heap count do
    outLine line

/-- Writes how a run ended; gives the exit code. -/
def reportOutcome (threshold : Level) (machine : Machine) : m UInt32 := do
  match machine.outcome with
  | .ok (some value) =>
    outLine (machine.heap.render value)
    return 0
  | .ok none => return 0
  | .error fault =>
    log threshold .error fault.text
    return 1

/-- Runs the program that a file held; gives the exit code. -/
def runLoaded (memory : Memory) (threshold : Level) (limits : Limits) (path : String)
    (dumpRegisters : Bool) (program : Program) : m UInt32 := do
  log threshold .debug ("Running " ++ path ++ ": " ++ toString program.functions.size ++
    " functions, entry #" ++ toString program.entry)
  let machine ← runProgram (.new memory limits) program
  log threshold .debug ("Executed " ++ toString machine.executed ++ " instructions, " ++
    toString machine.heap.liveArrays ++ " arrays still live")
  let code ← reportOutcome threshold machine
  if dumpRegisters then
    printRegisters machine.entryRegisters machine.heap
      (Machine.windowSize program machine.entry)
  return code

def runFile (memory : Memory) (threshold : Level) (limits : Limits) (path : String)
    (dumpRegisters : Bool) : m UInt32 := do
  match ← loadProgram threshold path with
  | .error message =>
    err message
    if message.toList.getLast? ≠ some '\n' then err "\n"
    return 1
  | .ok program => runLoaded memory threshold limits path dumpRegisters program

/-! ## Sessions -/

/-- An interactive session: the machine and how many registers its lines have used. -/
structure Session where
  machine : Machine
  window : Nat

/-- The register that the last instruction of a program writes, if its first operand says so. -/
def destination? (program : Program) : Option UInt8 := do
  let function ← program.entryFunction.toOption
  let instruction ← function.code.back?
  let op ← instruction.opcode.toOption
  let operand ← op.operands.head?
  if operand.kind = .reg ∧ operand.field = .a ∧ operand.name = "rd" then
    some (instruction.fields op.layout).ra
  else none

def sessionHelp : String :=
  "Enter one instruction per line, e.g. `LOAD_I32 r0, 5`.\n" ++
  "Registers, globals and the heap persist between lines.\n" ++
  "  .regs   show the registers used so far\n" ++
  "  .help   show this message\n" ++
  "  .quit   leave the session\n"

/-- Name of the source text of a session's line. -/
def sessionFile : String := "<repl>"

/-- Assembles a line and runs it. -/
def runLine (threshold : Level) (session : Session) (line : String) : m Session := do
  match Assembly.assemble line sessionFile with
  | .error error =>
    err (Assembly.diagnostic sessionFile line error)
    return session
  | .ok program =>
    let window := match program.entryFunction with
      | .ok function => max session.window function.registerCount.toNat
      | .error _ => session.window
    let machine ← runProgram session.machine program
    match machine.outcome with
    | .ok (some value) => outLine ("=> " ++ machine.heap.render value)
    | .ok none =>
      match destination? program with
      | some r =>
        outLine ("r" ++ toString r ++ " = " ++ machine.heap.render (machine.registers.read r))
      | none => pure ()
    | .error fault => log threshold .error fault.text
    return ⟨machine, window⟩

/-- Lines that a session reads at most. -/
def enoughLines : Nat := 0x4000000000000000

/-- Reads lines until the input ends or a line asks to leave; gives the exit code. -/
def sessionLoop (threshold : Level) : Nat → Session → m UInt32
  | 0, _ => return 0
  | n + 1, session => do
    match ← readLine with
    | .endOfInput =>
      outLine "bye"
      return 0
    | .failure error =>
      log threshold .error error.message
      return 1
    | .line text =>
      match Text.trim text with
      | "" => sessionLoop threshold n session
      | ".quit" | ".exit" => return 0
      | ".help" =>
        out sessionHelp
        sessionLoop threshold n session
      | ".regs" =>
        printRegisters session.machine.registers.toArray session.machine.heap (max session.window 1)
        sessionLoop threshold n session
      | line => do
        let session ← runLine threshold session line
        sessionLoop threshold n session

def runSession (memory : Memory) (threshold : Level) (limits : Limits) : m UInt32 := do
  outLine ("kore " ++ version ++ " REPL")
  outLine "history: up/down arrows, commands: .help, .regs, .quit"
  sessionLoop threshold enoughLines ⟨.new memory limits, 0⟩

/-- Does something under the limits that the environment asks for; gives the exit code. -/
def withLimits (threshold : Level) (go : Limits → m UInt32) : m UInt32 := do
  match limitsFor (← lookup budgetVariable) with
  | .ok limits => go limits
  | .error message =>
    log threshold .error message
    return 1

/-- The runner; `program` is the name that it was called by.  Gives the exit code. -/
def command (memory : Memory) (program : String) (arguments : List String) : m UInt32 := do
  let threshold ← logLevel
  match request none false arguments with
  | .help =>
    err (usage program)
    return 0
  | .version =>
    out versionText
    return 0
  | .bareVersion =>
    outLine version
    return 0
  | .misuse reason =>
    log threshold .error reason
    err (usage program)
    return 1
  | .file path dumpRegisters =>
    withLimits threshold fun limits => runFile memory threshold limits path dumpRegisters
  | .session => withLimits threshold fun limits => runSession memory threshold limits

end RegisterMachine.Run
