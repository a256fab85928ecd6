import RegisterMachine.Heap.Basic
import RegisterMachine.Machine.Registers
import RegisterMachine.Program.Basic

/-!
# The machine

The state of a machine: its registers, heap and globals, the calls that are pending, where it
stands in which function, and how the present run goes on.  The lines that the program printed are
part of it.
-/

namespace RegisterMachine

structure Limits where
  /-- Calls that may be pending at once. -/
  maxCallDepth : Nat
  /-- Instructions that a run may execute; `none` is no limit. -/
  budget : Option Nat
  /-- Array elements that the heap may hold. -/
  heapLimit : Nat
deriving DecidableEq, Repr

/-- The limits of a machine that is given none. -/
def Limits.default : Limits := ⟨1024, none, Heap.defaultLimit⟩

/-- A pending call: where the caller goes on, and its register window. -/
structure Frame where
  returnPc : Nat
  function : UInt16
  /-- Register of the caller that gets the result. -/
  destination : UInt8
  saved : Array Value

/-- A failure of a run, with the function and the instruction where it happened. -/
structure Fault where
  error : Error
  pc : Nat
  function : String
  instruction : Option Instruction
deriving DecidableEq, Repr

inductive Status where
  | ready
  | running
  | halted
  | faulted (fault : Fault)
deriving DecidableEq, Repr

structure Machine where
  limits : Limits
  registers : Registers
  heap : Heap
  globals : Array Value
  /-- The pending calls, the innermost one last. -/
  frames : Array Frame
  /-- Index of the function that is executing. -/
  function : UInt16
  /-- Index of the function that the run started in. -/
  entry : UInt16
  /-- Index of the next instruction. -/
  pc : Nat
  status : Status
  /-- The value that the run returned. -/
  returned : Option Value
  /-- Number of instructions that the run executed. -/
  executed : Nat
  /-- The lines printed so far. -/
  printed : Array String

def Fault.text (fault : Fault) : String :=
  let instruction := match fault.instruction with
    | some instruction => " (" ++ instruction.text ++ ")"
    | none => ""
  fault.error.kind ++ " at pc " ++ toString fault.pc ++ " in " ++ fault.function ++ instruction ++
    ": " ++ fault.error.message

namespace Machine

/-- A machine that has not run yet, with arrays in the memory that it is given. -/
def new (memory : Memory) (limits : Limits) : Machine where
  limits
  registers := .initial
  heap := .empty memory limits.heapLimit
  globals := #[]
  frames := #[]
  function := 0
  entry := 0
  pc := 0
  status := .ready
  returned := none
  executed := 0
  printed := #[]

/-- The window of the function that the run started in: the one that the outermost pending call
saved, or the registers themselves. -/
def entryRegisters (machine : Machine) : Array Value :=
  match machine.frames[0]? with
  | some frame => frame.saved
  | none => machine.registers.toArray

def functionName (machine : Machine) (program : Program) : String :=
  match program.function? machine.function with
  | some function => function.name
  | none => "#" ++ toString machine.function

/-- The fault that an error makes where the machine stands. -/
def faultAt (machine : Machine) (program : Program) (instruction : Option Instruction)
    (error : Error) : Fault :=
  ⟨error, machine.pc, machine.functionName program, instruction⟩

/-- The globals, with enough slots for the program. -/
def growGlobals (globals : Array Value) (count : Nat) : Array Value :=
  globals ++ Array.replicate (count - globals.size) Value.zero

/-- Makes the machine ready to run a function.  Registers, heap and globals stay as they are. -/
def start (machine : Machine) (program : Program) (index : UInt16) : Machine :=
  let machine := { machine with
    frames := #[]
    function := index
    entry := index
    pc := 0
    executed := 0
    returned := none
    globals := growGlobals machine.globals program.globalCount.toNat }
  match program.function? index with
  | some _ => { machine with status := .running }
  | none =>
    let error :=
      if program.functions.isEmpty then Error.missingFunction else .invalidFunction index
    { machine with status := .faulted (machine.faultAt program none error) }

end Machine

end RegisterMachine
