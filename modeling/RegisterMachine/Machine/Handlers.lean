import RegisterMachine.Heap.Basic
import RegisterMachine.Machine.Basic
import RegisterMachine.Machine.Numeric

/-!
# Instructions

Every instruction has a handler, which reads and writes the machine as it goes.  A handler can fail
at any point, and what it has written by then stays written: nothing is undone.  A handler runs when
the machine stands at the next instruction already.
-/

namespace RegisterMachine

namespace Machine

def write (machine : Machine) (r : UInt8) (value : Value) : Machine :=
  { machine with registers := machine.registers.write r value }

/-- Goes back to the caller, or ends the run if there is none; `value` is what is returned, if
anything. -/
def leave (machine : Machine) (value : Option Value) : Machine :=
  match machine.frames.back? with
  | some frame =>
    let registers := machine.registers.restore frame.saved
    { machine with
      registers := match value with
        | some value => registers.write frame.destination value
        | none => registers
      frames := machine.frames.pop
      function := frame.function
      pc := frame.returnPc }
  | none =>
    { machine with
      returned := match value with
        | some value => some value
        | none => machine.returned
      status := .halted }

/-! ## What instructions look up -/

def numberIn (machine : Machine) (α : Type) [Numeric α] (instruction : String) (r : UInt8) :
    Except Error α :=
  machine.registers.expect Numeric.ofValue? (Numeric.type α).name instruction r

/-- A constant from its table. -/
def constant (program : Program) (type : NumType) (index : UInt16) : Except Error Value :=
  match type with
  | .i32 => do return .i32 (← program.constant index)
  | .i64 => do return .i64 (← program.constant index)
  | .f32 => do return .f32 (← program.constant index)
  | .f64 => do return .f64 (← program.constant index)

/-- A number of another type. -/
def converted (machine : Machine) (conversion : Conversion) (instruction : String) (r : UInt8) :
    Except Error Value :=
  match conversion with
  | .i32ToI64 => do return .i64 (← machine.numberIn Int32 instruction r).toInt64
  | .i64ToI32 => do return .i32 (← machine.numberIn Int64 instruction r).toInt32
  | .i32ToF64 => do return .f64 (.ofInt (← machine.numberIn Int32 instruction r).toInt)
  | .f64ToI32 => do return .i32 (← machine.numberIn Binary64 instruction r).toInt32
  | .i64ToF64 => do return .f64 (.ofInt (← machine.numberIn Int64 instruction r).toInt)
  | .f64ToI64 => do return .i64 (← machine.numberIn Binary64 instruction r).toInt64
  | .f32ToF64 => do return .f64 (.ofBinary32 (← machine.numberIn Binary32 instruction r))
  | .f64ToF32 => do return .f32 (← machine.numberIn Binary64 instruction r).toBinary32

def connected : Connective → Bool → Bool → Bool
  | .and, a, b => a && b
  | .or, a, b => a || b
  | .eq, a, b => a == b
  | .neq, a, b => a != b

/-- A declared global slot. -/
def globalSlot (machine : Machine) (slot : UInt16) : Except Error Nat :=
  if slot.toNat < machine.globals.size then .ok slot.toNat
  else .error (.invalidGlobal slot machine.globals.size)

/-- The length of an array as a value. -/
def lengthOf (machine : Machine) (handle : Handle) : Except Error Value := do
  return .i32 (Int32.ofNat (← machine.heap.length handle))

/-- Whether the arguments of a call lie within the registers. -/
def checkArguments (function : String) (count : Nat) (first : UInt8) : Except Error Unit :=
  if registerCapacity < first.toNat + count then .error (.argumentWindow function count first)
  else .ok ()

/-- Size of the window of a function; zero if there is no such function. -/
def windowSize (program : Program) (function : UInt16) : Nat :=
  match program.function? function with
  | some function => function.registerCount.toNat
  | none => 0

end Machine

/-! ## Handlers -/

/-- A piece of work on the machine.  It can fail, and leaves the machine as far as it came. -/
abbrev Handler (α : Type) := ExceptT Error (StateM Machine) α

namespace Handler

/-- Reads something that may not be there. -/
@[inline] def look {α : Type} (read : Machine → Except Error α) : Handler α := do
  liftExcept (read (← get))

@[inline] def register (r : UInt8) : Handler Value := do
  return (← get).registers.read r

@[inline] def setRegister (r : UInt8) (value : Value) : Handler Unit :=
  modify fun machine => machine.write r value

@[inline] def goTo (target : Nat) : Handler Unit :=
  modify fun machine => { machine with pc := target }

/-- An operation on the heap.  The heap is kept as the operation leaves it, even if it fails. -/
@[inline] def onHeap {α : Type} (operation : Heap → Attempt Heap α) : Handler α := fun machine =>
  let (result, heap) := operation machine.heap
  (result, { machine with heap })

def arith (α : Type) [Numeric α] (op : Arith) (instruction : String) (fields : Fields) :
    Handler Unit := do
  let a ← look (·.numberIn α instruction fields.rb)
  let b ← look (·.numberIn α instruction fields.rc)
  let result ← liftExcept (Numeric.arith op a b)
  setRegister fields.ra (Numeric.toValue result)

def neg (α : Type) [Numeric α] (instruction : String) (fields : Fields) : Handler Unit := do
  let a ← look (·.numberIn α instruction fields.rb)
  setRegister fields.ra (Numeric.toValue (Numeric.neg a))

def compare (α : Type) [Numeric α] (op : Comparison) (instruction : String) (fields : Fields) :
    Handler Unit := do
  let a ← look (·.numberIn α instruction fields.rb)
  let b ← look (·.numberIn α instruction fields.rc)
  setRegister fields.ra (.bool (Numeric.compare op a b))

/-- Runs a native function on the argument in register `first`. -/
def invoke (native : Native) (first : UInt8) : Handler Value :=
  match native with
  | .len => do
    let handle ← look (·.registers.array native.name first)
    look (·.lengthOf handle)
  | .sqrt => do
    let x ← look (·.numberIn Binary64 native.name first)
    return .f64 x.sqrt
  | .print => do
    let value ← register first
    modify fun machine =>
      { machine with printed := machine.printed.push (machine.heap.render value) }
    return value

def callNative (native : Native) (fields : Fields) : Handler Unit := do
  liftExcept (Machine.checkArguments native.name native.arity fields.rc)
  let result ← invoke native fields.rc
  setRegister fields.ra result

/-- Saves the caller's window and goes to the start of the callee, in a window of its own. -/
def enter (program : Program) (callee : UInt16) (target : Function) (fields : Fields) :
    Handler Unit := do
  let arguments := (← get).registers.range fields.rc target.paramCount.toNat
  modify fun machine =>
    let saved := machine.registers.window (Machine.windowSize program machine.function)
    { machine with
      frames := machine.frames.push ⟨machine.pc, machine.function, fields.ra, saved⟩ }
  modify fun machine =>
    { machine with registers := machine.registers.enter target.registerCount.toNat arguments }
  modify fun machine => { machine with function := callee, pc := 0 }

def callCompiled (program : Program) (callee : UInt16) (fields : Fields) : Handler Unit := do
  let depth := (← get).frames.size
  if (← get).limits.maxCallDepth ≤ depth then throw (.callStackOverflow (depth + 1))
  else
    match program.function? callee with
    | none => throw (.invalidFunction callee)
    | some target =>
      liftExcept (Machine.checkArguments target.name target.paramCount.toNat fields.rc)
      enter program callee target fields

def newArray (instruction : String) (fields : Fields) : Handler Unit := do
  let length := (← look (·.registers.int instruction fields.rb)).toInt
  if length < 0 then throw (.indexOutOfRange length 0)
  else
    let fill ← register fields.rc
    let handle ← onHeap (·.allocate length.toNat fill)
    setRegister fields.ra (.array handle)

/-- The handler of an opcode. -/
def ofOpcode (program : Program) (op : Opcode) (fields : Fields) : Handler Unit :=
  let name := op.mnemonic
  match op with
  | .loadBool => setRegister fields.ra (.bool (fields.b != 0))
  | .loadI32 => setRegister fields.ra (.i32 fields.simm.toInt32)
  | .loadI64 => setRegister fields.ra (.i64 fields.simm.toInt64)
  | .loadConst type => do
    let value ← liftExcept (Machine.constant program type fields.imm)
    setRegister fields.ra value
  | .loadFunction =>
    match program.function? fields.imm with
    | some _ => setRegister fields.ra (.function (.compiled fields.imm))
    | none => throw (.invalidFunction fields.imm)
  | .loadNative => do
    let native : String ← liftExcept (program.constant fields.imm)
    match Native.ofName? native with
    | some function => setRegister fields.ra (.function (.native function))
    | none => throw (.unknownNative native)
  | .loadGlobal => do
    let slot ← look (·.globalSlot fields.imm)
    let value := (← get).globals.getD slot Value.zero
    setRegister fields.ra value
  | .storeGlobal => do
    let slot ← look (·.globalSlot fields.imm)
    let value ← register fields.ra
    modify fun machine =>
      { machine with globals := machine.globals.setIfInBounds slot value }
  | .move => do
    let value ← register fields.rb
    setRegister fields.ra value
  | .convert conversion => do
    let value ← look (·.converted conversion name fields.rb)
    setRegister fields.ra value
  | .arith op .i32 => arith Int32 op name fields
  | .arith op .i64 => arith Int64 op name fields
  | .arith op .f32 => arith Binary32 op name fields
  | .arith op .f64 => arith Binary64 op name fields
  | .neg .i32 => neg Int32 name fields
  | .neg .i64 => neg Int64 name fields
  | .neg .f32 => neg Binary32 name fields
  | .neg .f64 => neg Binary64 name fields
  | .compare op .i32 => compare Int32 op name fields
  | .compare op .i64 => compare Int64 op name fields
  | .compare op .f32 => compare Binary32 op name fields
  | .compare op .f64 => compare Binary64 op name fields
  | .not => do
    let a ← look (·.registers.bool name fields.rb)
    setRegister fields.ra (.bool (!a))
  | .connect op => do
    let a ← look (·.registers.bool name fields.rb)
    let b ← look (·.registers.bool name fields.rc)
    setRegister fields.ra (.bool (Machine.connected op a b))
  | .newArray => newArray name fields
  | .arrayGet => do
    let handle ← look (·.registers.array name fields.rb)
    let index ← look (·.registers.int name fields.rc)
    let value ← look (·.heap.load handle index.toInt)
    setRegister fields.ra value
  | .arraySet => do
    let handle ← look (·.registers.array name fields.ra)
    let index ← look (·.registers.int name fields.rb)
    let value ← register fields.rc
    onHeap (·.store handle index.toInt value)
  | .arrayLen => do
    let handle ← look (·.registers.array name fields.rb)
    let length ← look (·.lengthOf handle)
    setRegister fields.ra length
  | .refInc => do
    let handle ← look (·.registers.array name fields.ra)
    onHeap (·.refInc handle)
  | .refDec => do
    let handle ← look (·.registers.array name fields.ra)
    onHeap (·.refDec handle)
  | .destroy => do
    let handle ← look (·.registers.array name fields.ra)
    onHeap (·.deallocate handle true)
  | .free => do
    let handle ← look (·.registers.array name fields.ra)
    onHeap (·.deallocate handle false)
  | .jump => goTo fields.imm.toNat
  | .jumpIf => do
    if ← look (·.registers.bool name fields.ra) then goTo fields.imm.toNat
  | .jumpIfNot => do
    if !(← look (·.registers.bool name fields.ra)) then goTo fields.imm.toNat
  | .call => do
    match ← look (·.registers.function name fields.rb) with
    | .native native => callNative native fields
    | .compiled callee => callCompiled program callee fields
  | .ret => do
    let value ← register fields.ra
    modify fun machine => machine.leave (some value)

/-- The handler of an instruction word. -/
def ofWord (program : Program) (instruction : Instruction) : Handler Unit := do
  let op ← liftExcept instruction.opcode
  ofOpcode program op (instruction.fields op.layout)

end Handler

end RegisterMachine
