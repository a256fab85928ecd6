import Mathlib
import RegisterMachine.Proofs.Effect

/-!
# A machine with a register file for each call

The reference for the call convention: every call that is pending owns a file of all 256 registers.
A call gives the callee a new file, with the arguments in the first registers and zeros in all
others; a return drops that file and goes on with the caller's own one, into which the returned
value is written.  Nothing is saved, reset or restored.

Instructions are planned as ever, on what the machine shows of itself (`FileMachine.view`); only
what entering and leaving a function do is different.
-/

namespace RegisterMachine

/-- A pending call: where the caller goes on, and the caller's registers. -/
structure Activation where
  returnPc : Nat
  function : UInt16
  destination : UInt8
  file : Registers

/-- A machine in which every call has registers of its own. -/
structure FileMachine where
  limits : Limits
  /-- The registers of the executing function. -/
  file : Registers
  heap : Heap
  globals : Array Value
  /-- The pending calls, the innermost one first. -/
  callers : List Activation
  function : UInt16
  entry : UInt16
  pc : Nat
  status : Status
  returned : Option Value
  executed : Nat
  printed : Array String

/-- A new file: the arguments, then zeros. -/
def Registers.fresh (arguments : Array Value) : Registers :=
  Vector.ofFn fun i => arguments.getD i.val Value.zero

theorem Registers.read_fresh (arguments : Array Value) (r : UInt8) :
    (Registers.fresh arguments).read r = arguments[r.toNat]?.getD Value.zero := by
  rw [Registers.read, Registers.fresh, Vector.get_ofFn, Array.getD_eq_getD_getElem?]
  rfl

namespace FileMachine

/-- A machine without pending calls; its registers are the file of the executing function. -/
def ofMachine (m : Machine) : FileMachine where
  limits := m.limits
  file := m.registers
  heap := m.heap
  globals := m.globals
  callers := []
  function := m.function
  entry := m.entry
  pc := m.pc
  status := m.status
  returned := m.returned
  executed := m.executed
  printed := m.printed

/-- What an instruction sees: the file of the executing function, and one frame for each pending
call. -/
def view (r : FileMachine) : Machine where
  limits := r.limits
  registers := r.file
  heap := r.heap
  globals := r.globals
  frames := (r.callers.reverse.map fun a =>
    ⟨a.returnPc, a.function, a.destination, a.file.toArray⟩).toArray
  function := r.function
  entry := r.entry
  pc := r.pc
  status := r.status
  returned := r.returned
  executed := r.executed
  printed := r.printed

/-- Drops the file of the executing function and goes on in the caller's, or ends the run. -/
def leave (r : FileMachine) (value : Option Value) : FileMachine :=
  match r.callers with
  | caller :: rest =>
    { r with
      file := match value with
        | some value => caller.file.write caller.destination value
        | none => caller.file
      callers := rest
      function := caller.function
      pc := caller.returnPc }
  | [] =>
    { r with
      returned := match value with
        | some value => some value
        | none => r.returned
      status := .halted }

/-- Carries an effect out.  The window that was planned for a call is not looked at. -/
def perform (r : FileMachine) : Effect → FileMachine
  | .setRegister register value => { r with file := r.file.write register value }
  | .setGlobal slot value => { r with globals := r.globals.setIfInBounds slot value }
  | .allocate register size fill =>
    let (handle, heap) := r.heap.place size fill
    { r with heap, file := r.file.write register (.array handle) }
  | .setElement handle place value => { r with heap := r.heap.setElement handle place value }
  | .setRefcount handle count => { r with heap := r.heap.setRefcount handle count }
  | .release handle => { r with heap := r.heap.release handle }
  | .jump target => { r with pc := target }
  | .proceed => r
  | .print line register value =>
    { r with
      printed := r.printed.push line
      file := r.file.write register value }
  | .enter callee _ arguments destination _ =>
    { r with
      callers := ⟨r.pc, r.function, destination, r.file⟩ :: r.callers
      file := .fresh arguments
      function := callee
      pc := 0 }
  | .leave value => r.leave (some value)

/-- Stops the run with an error. -/
def fail (r : FileMachine) (program : Program) (instruction : Option Instruction)
    (error : Error) : StepResult × FileMachine :=
  let fault := r.view.faultAt program instruction error
  (.fault fault, { r with status := .faulted fault })

/-- The result of a step that did not fail. -/
def stepped (r : FileMachine) : StepResult × FileMachine :=
  match r.status with
  | .running => (.running, r)
  | _ => (.stopped, r)

/-- Carries an instruction out. -/
def execute (r : FileMachine) (program : Program) (instruction : Instruction) :
    StepResult × FileMachine :=
  if r.view.isExhausted then r.fail program instruction (.budgetExhausted r.executed)
  else
    match r.view.planWord program instruction with
    | .error error => fail { r with executed := r.executed + 1 } program instruction error
    | .ok effect =>
      (perform { r with pc := r.pc + 1, executed := r.executed + 1 } effect).stepped

/-- One step of a running machine; a machine that does not run stays as it is. -/
def step (r : FileMachine) (program : Program) : StepResult × FileMachine :=
  match r.status with
  | .faulted fault => (.fault fault, r)
  | .ready | .halted => (.stopped, r)
  | .running =>
    match program.function? r.function with
    | none => r.fail program none (.invalidFunction r.function)
    | some function =>
      match function.instruction? r.pc with
      | none => (r.leave none).stepped
      | some instruction => r.execute program instruction

/-- The machine after `n` steps. -/
def run (program : Program) : Nat → FileMachine → FileMachine
  | 0, r => r
  | n + 1, r => ((run program n r).step program).2

end FileMachine

end RegisterMachine
