import RegisterMachine.Machine.Handlers

/-!
# Steps and runs

A step carries one instruction out.  The machine goes on to the next instruction and counts the
present one before it is decoded; if the instruction then fails, the machine goes back to it, and
that is all that is undone.  To reach the end of a function is a return without a value; it executes
no instruction.  A run is steps until the machine halts or faults.
-/

namespace RegisterMachine

/-- What a step says: the run goes on, it is over, or it has failed. -/
inductive StepResult where
  | running
  | stopped
  | fault (fault : Fault)
deriving DecidableEq

namespace Machine

def fail (machine : Machine) (program : Program) (instruction : Option Instruction)
    (error : Error) : StepResult × Machine :=
  let fault := machine.faultAt program instruction error
  (.fault fault, { machine with status := .faulted fault })

/-- The result of a step that did not fail. -/
def stepped (machine : Machine) : StepResult × Machine :=
  match machine.status with
  | .running => (.running, machine)
  | _ => (.stopped, machine)

/-- Whether the run has executed as many instructions as it may. -/
def isExhausted (machine : Machine) : Bool :=
  match machine.limits.budget with
  | some budget => budget ≤ machine.executed
  | none => false

/-- The machine at the next instruction, with the present one counted. -/
def advanced (machine : Machine) : Machine :=
  { machine with pc := machine.pc + 1, executed := machine.executed + 1 }

/-- Carries the next instruction out: the instruction, if there was one, and how it went. -/
def fetchAndExecute (machine : Machine) (program : Program) :
    Option Instruction × Attempt Machine Unit :=
  match program.function? machine.function with
  | none => (none, .error (.invalidFunction machine.function), machine)
  | some function =>
    match function.instruction? machine.pc with
    | none => (none, .ok (), machine.leave none)
    | some instruction =>
      if machine.isExhausted then
        (instruction, .error (.budgetExhausted machine.executed), machine)
      else
        (instruction, Handler.ofWord program instruction machine.advanced)

/-- One step of a running machine; a machine that does not run stays as it is. -/
def step (machine : Machine) (program : Program) : StepResult × Machine :=
  match machine.status with
  | .faulted fault => (.fault fault, machine)
  | .ready | .halted => (.stopped, machine)
  | .running =>
    let place := machine.pc
    match machine.fetchAndExecute program with
    | (_, .ok (), machine) => machine.stepped
    | (fetched, .error error, machine) => { machine with pc := place }.fail program fetched error

def runFor (program : Program) : Nat → Machine → Machine
  | 0, machine => machine
  | n + 1, machine =>
    match machine.status with
    | .running => runFor program n (machine.step program).2
    | _ => machine

/-- Steps that are counted together. -/
def stride : Nat := 4096

/-- At most `n` strides of steps. -/
def runStrides (program : Program) : Nat → Machine → Machine
  | 0, machine => machine
  | n + 1, machine =>
    match machine.status with
    | .running => runStrides program n (runFor program stride machine)
    | _ => machine

/-- More strides than a run with any budget of 64 bits makes: it has at most two steps for each
instruction of the budget, and one to stop. -/
def enoughStrides : Nat := 0x4000000000000000

def runFunction (machine : Machine) (program : Program) (index : UInt16) : Machine :=
  runStrides program enoughStrides (machine.start program index)

def run (machine : Machine) (program : Program) : Machine :=
  machine.runFunction program program.entry

/-- How a run ended: with the value that it returned, if any, or with a fault. -/
def outcome (machine : Machine) : Except Fault (Option Value) :=
  match machine.status with
  | .faulted fault => .error fault
  | _ => .ok machine.returned

end Machine

end RegisterMachine
