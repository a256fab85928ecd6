import RegisterMachine.Function.Basic

/-!
# Building functions

A builder collects instructions, hands out registers as a stack does, and lets a jump get its
target after it was written.  An operation that fails leaves the builder as it was.
-/

namespace RegisterMachine

/-- Registers in use, from `0` up, and the largest number of them that were in use at once. -/
structure RegisterStack where
  live : Nat
  maxUsed : Nat
deriving DecidableEq, Repr

namespace RegisterStack

def empty : RegisterStack := ⟨0, 0⟩

/-- Takes the next free register. -/
def allocate (stack : RegisterStack) : Attempt RegisterStack UInt8 :=
  if registerCapacity ≤ stack.live then (.error (.registerOverflow registerCapacity), stack)
  else
    (.ok (UInt8.ofNat stack.live), ⟨stack.live + 1, max stack.maxUsed (stack.live + 1)⟩)

/-- Gives the last `count` registers back. -/
def free (stack : RegisterStack) (count : Nat) : Attempt RegisterStack Unit :=
  if stack.live < count then (.error (.registerUnderflow count stack.live), stack)
  else (.ok (), { stack with live := stack.live - count })

end RegisterStack

structure FunctionBuilder where
  name : String
  location : SourceLocation
  paramCount : UInt16
  localCount : UInt16
  code : Array Instruction
  registers : RegisterStack

namespace FunctionBuilder

def new (name : String) (location : SourceLocation) : FunctionBuilder :=
  ⟨name, location, 0, 0, #[], .empty⟩

/-- Index that the next instruction will have. -/
def currentPc (builder : FunctionBuilder) : Nat := builder.code.size

def allocateRegister (builder : FunctionBuilder) : Attempt FunctionBuilder UInt8 :=
  let (result, registers) := builder.registers.allocate
  (result, { builder with registers })

def freeRegisters (builder : FunctionBuilder) (count : Nat) : Attempt FunctionBuilder Unit :=
  let (result, registers) := builder.registers.free count
  (result, { builder with registers })

def addInstruction (builder : FunctionBuilder) (instruction : Instruction) : FunctionBuilder :=
  { builder with code := builder.code.push instruction }

/-- Appends the instruction of an opcode with operand values in the order in which they are
written, and gives its index. -/
def emit (builder : FunctionBuilder) (op : Opcode) (values : List UInt32) :
    Attempt FunctionBuilder Nat :=
  match Instruction.ofOperands op values with
  | .error error => (.error error, builder)
  | .ok instruction => (.ok builder.currentPc, builder.addInstruction instruction)

/-- The operand that holds the target of a jump. -/
def labelOperand? (op : Opcode) : Option Operand := op.operands.find? (·.kind == .label)

/-- The jump at `pc` with another target. -/
def retarget (code : Array Instruction) (pc target : Nat) : Except Error Instruction :=
  let refuse (reason : String) : Except Error Instruction := .error (.encoding "JUMP" reason)
  match code[pc]? with
  | none => refuse s!"no instruction at pc {pc}"
  | some instruction => do
    let op ← instruction.opcode
    match labelOperand? op with
    | none =>
      let mnemonic := op.mnemonic
      refuse s!"{mnemonic} at pc {pc} has no jump target"
    | some operand =>
      if UInt32.size ≤ target then refuse s!"jump target {target} is too large"
      else
        Instruction.pack op
          ((instruction.fields op.layout).set (UInt32.ofNat target) operand.field)

/-- Sets the target of the jump at `pc`. -/
def patchJump (builder : FunctionBuilder) (pc target : Nat) : Attempt FunctionBuilder Unit :=
  match retarget builder.code pc target with
  | .error error => (.error error, builder)
  | .ok instruction =>
    (.ok (), { builder with code := builder.code.setIfInBounds pc instruction })

def finalize (builder : FunctionBuilder) : Function where
  name := builder.name
  location := builder.location
  paramCount := builder.paramCount
  localCount := builder.localCount
  registerCount := max (UInt16.ofNat builder.registers.maxUsed) builder.paramCount
  code := builder.code

end FunctionBuilder

end RegisterMachine
