import RegisterMachine.Machine.Step

/-!
# Plans and effects

A handler reads, checks and writes in turn.  Here is the same work in two parts: `plan` reads the
machine, makes all checks and says what is to be done, or why it cannot be done; `Effect.apply` does
it and cannot fail.  `Handler.refines_ofOpcode` says that every handler comes to that: if the plan
fails, the handler fails in the same way and leaves the machine as it was, and otherwise it leaves
the machine as the planned effect does.  So no handler writes anything before its last check
(`Handler.ofWord_atomic`), and a step is a step by plan (`step_eq`): on failure the place, which was
moved on already, is all that has to be put back.

Most handlers look a few things up and then write one thing; for these the statement is put together
from one rule for each look (`Refines.look`, `Refines.lift`, `Refines.register`) and one for the
write (`Refines.write`).  `newArray`, `print` and the call of a compiled function write more than
once, after which nothing can fail any more.
-/

namespace RegisterMachine

/-- What an instruction does to the machine. -/
inductive Effect where
  | setRegister (register : UInt8) (value : Value)
  | setGlobal (slot : Nat) (value : Value)
  /-- Puts a new array on the heap and its handle into a register. -/
  | allocate (register : UInt8) (size : Nat) (fill : Value)
  | setElement (handle : Handle) (place : Nat) (value : Value)
  | setRefcount (handle : Handle) (count : UInt32)
  | release (handle : Handle)
  | jump (target : Nat)
  /-- Goes on to the next instruction. -/
  | proceed
  /-- Prints a line and sets a register. -/
  | print (line : String) (register : UInt8) (value : Value)
  /-- Calls a function with a window of its own. -/
  | enter (callee : UInt16) (size : Nat) (arguments : Array Value) (destination : UInt8)
      (saved : Array Value)
  /-- Returns a value to the caller. -/
  | leave (value : Value)

/-- Carries an effect out on a machine that stands at the next instruction. -/
def Effect.apply (machine : Machine) : Effect → Machine
  | setRegister r value => machine.write r value
  | setGlobal slot value => { machine with globals := machine.globals.setIfInBounds slot value }
  | allocate r size fill =>
    let (handle, heap) := machine.heap.place size fill
    { machine with heap, registers := machine.registers.write r (.array handle) }
  | setElement handle place value =>
    { machine with heap := machine.heap.setElement handle place value }
  | setRefcount handle count => { machine with heap := machine.heap.setRefcount handle count }
  | release handle => { machine with heap := machine.heap.release handle }
  | jump target => { machine with pc := target }
  | proceed => machine
  | print line r value =>
    { machine with
      printed := machine.printed.push line
      registers := machine.registers.write r value }
  | enter callee size arguments destination saved =>
    { machine with
      frames := machine.frames.push ⟨machine.pc, machine.function, destination, saved⟩
      registers := machine.registers.enter size arguments
      function := callee
      pc := 0 }
  | leave value => machine.leave (some value)

/-! ## What each instruction does -/

namespace Machine

def planArith (machine : Machine) (α : Type) [Numeric α] (op : Arith) (instruction : String)
    (fields : Fields) : Except Error Effect := do
  let a ← machine.numberIn α instruction fields.rb
  let b ← machine.numberIn α instruction fields.rc
  return .setRegister fields.ra (Numeric.toValue (← Numeric.arith op a b))

def planNeg (machine : Machine) (α : Type) [Numeric α] (instruction : String) (fields : Fields) :
    Except Error Effect := do
  let a ← machine.numberIn α instruction fields.rb
  return .setRegister fields.ra (Numeric.toValue (Numeric.neg a))

def planCompare (machine : Machine) (α : Type) [Numeric α] (op : Comparison) (instruction : String)
    (fields : Fields) : Except Error Effect := do
  let a ← machine.numberIn α instruction fields.rb
  let b ← machine.numberIn α instruction fields.rc
  return .setRegister fields.ra (.bool (Numeric.compare op a b))

def planNative (machine : Machine) (native : Native) (fields : Fields) : Except Error Effect := do
  let first := fields.rc
  checkArguments native.name native.arity first
  match native with
  | .len =>
    let handle ← machine.registers.array native.name first
    return .setRegister fields.ra (← machine.lengthOf handle)
  | .sqrt =>
    let x ← machine.numberIn Binary64 native.name first
    return .setRegister fields.ra (.f64 x.sqrt)
  | .print =>
    let value := machine.registers.read first
    return .print (machine.heap.render value) fields.ra value

def planCompiled (machine : Machine) (program : Program) (callee : UInt16) (fields : Fields) :
    Except Error Effect := do
  let depth := machine.frames.size
  if machine.limits.maxCallDepth ≤ depth then throw (.callStackOverflow (depth + 1))
  match program.function? callee with
  | none => throw (.invalidFunction callee)
  | some target =>
    let count := target.paramCount.toNat
    checkArguments target.name count fields.rc
    return .enter callee target.registerCount.toNat (machine.registers.range fields.rc count)
      fields.ra (machine.registers.window (windowSize program machine.function))

/-- What an instruction is going to do, or why it cannot. -/
def plan (machine : Machine) (program : Program) (op : Opcode) (fields : Fields) :
    Except Error Effect :=
  let registers := machine.registers
  let name := op.mnemonic
  match op with
  | .loadBool => .ok (.setRegister fields.ra (.bool (fields.b != 0)))
  | .loadI32 => .ok (.setRegister fields.ra (.i32 fields.simm.toInt32))
  | .loadI64 => .ok (.setRegister fields.ra (.i64 fields.simm.toInt64))
  | .loadConst type => do return .setRegister fields.ra (← constant program type fields.imm)
  | .loadFunction =>
    match program.function? fields.imm with
    | some _ => .ok (.setRegister fields.ra (.function (.compiled fields.imm)))
    | none => .error (.invalidFunction fields.imm)
  | .loadNative => do
    let native : String ← program.constant fields.imm
    match Native.ofName? native with
    | some function => return .setRegister fields.ra (.function (.native function))
    | none => throw (.unknownNative native)
  | .loadGlobal => do
    let slot ← machine.globalSlot fields.imm
    return .setRegister fields.ra (machine.globals.getD slot Value.zero)
  | .storeGlobal => do
    return .setGlobal (← machine.globalSlot fields.imm) (registers.read fields.ra)
  | .move => .ok (.setRegister fields.ra (registers.read fields.rb))
  | .convert conversion => do
    return .setRegister fields.ra (← machine.converted conversion name fields.rb)
  | .arith op .i32 => machine.planArith Int32 op name fields
  | .arith op .i64 => machine.planArith Int64 op name fields
  | .arith op .f32 => machine.planArith Binary32 op name fields
  | .arith op .f64 => machine.planArith Binary64 op name fields
  | .neg .i32 => machine.planNeg Int32 name fields
  | .neg .i64 => machine.planNeg Int64 name fields
  | .neg .f32 => machine.planNeg Binary32 name fields
  | .neg .f64 => machine.planNeg Binary64 name fields
  | .compare op .i32 => machine.planCompare Int32 op name fields
  | .compare op .i64 => machine.planCompare Int64 op name fields
  | .compare op .f32 => machine.planCompare Binary32 op name fields
  | .compare op .f64 => machine.planCompare Binary64 op name fields
  | .not => do return .setRegister fields.ra (.bool (!(← registers.bool name fields.rb)))
  | .connect op => do
    let a ← registers.bool name fields.rb
    let b ← registers.bool name fields.rc
    return .setRegister fields.ra (.bool (connected op a b))
  | .newArray => do
    let length := (← registers.int name fields.rb).toInt
    if length < 0 then throw (.indexOutOfRange length 0)
    match machine.heap.refusal? length.toNat with
    | some error => throw error
    | none => return .allocate fields.ra length.toNat (registers.read fields.rc)
  | .arrayGet => do
    let handle ← registers.array name fields.rb
    let index ← registers.int name fields.rc
    return .setRegister fields.ra (← machine.heap.load handle index.toInt)
  | .arraySet => do
    let handle ← registers.array name fields.ra
    let index ← registers.int name fields.rb
    let place ← machine.heap.locate handle index.toInt
    return .setElement handle place (registers.read fields.rc)
  | .arrayLen => do
    let handle ← registers.array name fields.rb
    return .setRegister fields.ra (← machine.lengthOf handle)
  | .refInc => do
    let handle ← registers.array name fields.ra
    return .setRefcount handle (← machine.heap.checkInc handle)
  | .refDec => do
    let handle ← registers.array name fields.ra
    return .setRefcount handle (← machine.heap.checkDec handle)
  | .destroy => do
    let handle ← registers.array name fields.ra
    machine.heap.checkFree handle true
    return .release handle
  | .free => do
    let handle ← registers.array name fields.ra
    machine.heap.checkFree handle false
    return .release handle
  | .jump => .ok (.jump fields.imm.toNat)
  | .jumpIf => do
    return if ← registers.bool name fields.ra then .jump fields.imm.toNat else .proceed
  | .jumpIfNot => do
    return if ← registers.bool name fields.ra then .proceed else .jump fields.imm.toNat
  | .call => do
    match ← registers.function name fields.rb with
    | .native native => machine.planNative native fields
    | .compiled callee => machine.planCompiled program callee fields
  | .ret => .ok (.leave (registers.read fields.ra))

def planWord (machine : Machine) (program : Program) (instruction : Instruction) :
    Except Error Effect := do
  let op ← instruction.opcode
  machine.plan program op (instruction.fields op.layout)

end Machine

/-! ## Handlers come to their plans -/

/-- What is left of a machine on which a plan has been carried out: nothing is written if the plan
failed. -/
def Effect.settle (m : Machine) : Except Error Effect → Attempt Machine Unit
  | .error error => (.error error, m)
  | .ok effect => (.ok (), effect.apply m)

/-- A handler does what was planned, and nothing if the plan fails. -/
def Refines (handler : Handler Unit) (plan : Machine → Except Error Effect) : Prop :=
  ∀ m, handler m = Effect.settle m (plan m)

namespace Refines

variable {α : Type}

/-- Whatever such a handler fails for, it has written nothing by then. -/
theorem eq_of_error {handler : Handler Unit} {plan : Machine → Except Error Effect}
    (h : Refines handler plan) {m t : Machine} {error : Error}
    (hf : handler m = (.error error, t)) : t = m := by
  rw [h m] at hf
  cases hp : plan m with
  | error reason => rw [hp] at hf; exact (Prod.mk.inj hf).2.symm
  | ok effect => rw [hp] at hf; cases hf

theorem lift {x : Except Error α} {next : α → Handler Unit}
    {plan : α → Machine → Except Error Effect} (h : ∀ a, Refines (next a) (plan a)) :
    Refines (liftExcept x >>= next) fun m => x >>= fun a => plan a m := by
  intro m
  cases x with
  | error error => rfl
  | ok a => exact h a m

theorem look {read : Machine → Except Error α} {next : α → Handler Unit}
    {plan : α → Machine → Except Error Effect} (h : ∀ a, Refines (next a) (plan a)) :
    Refines (Handler.look read >>= next) fun m => read m >>= fun a => plan a m := by
  intro m
  show (liftExcept (read m) >>= next : Handler Unit) m = _
  exact lift h m

/-- What is read of a register cannot fail. -/
theorem register {r : UInt8} {next : Value → Handler Unit}
    {plan : Value → Machine → Except Error Effect}
    (h : ∀ value, Refines (next value) (plan value)) :
    Refines (Handler.register r >>= next) fun m => plan (m.registers.read r) m :=
  fun m => h (m.registers.read r) m

theorem throw (error : Error) : Refines (throw error) fun _ => .error error :=
  fun _ => rfl

/-- A handler that writes one thing. -/
theorem write {change : Machine → Machine} {effect : Effect}
    (h : ∀ m, effect.apply m = change m) : Refines (modify change) fun _ => .ok effect := by
  intro m
  rw [Effect.settle, h]
  rfl

theorem setRegister (r : UInt8) (value : Value) :
    Refines (Handler.setRegister r value) fun _ => .ok (.setRegister r value) :=
  write fun _ => rfl

theorem onHeap {check : Heap → Except Error α} {act : Heap → α → Heap} {effect : α → Effect}
    (h : ∀ a m, (effect a).apply m = { m with heap := act m.heap a }) :
    Refines (Handler.onHeap fun heap => heap.behind (check heap) (act heap))
      fun m => check m.heap >>= fun a => .ok (effect a) := by
  intro m
  simp only [Handler.onHeap, Heap.behind]
  cases check m.heap with
  | error error => rfl
  | ok a => exact Prod.ext rfl (h a m).symm

end Refines

namespace Handler

variable {program : Program} {fields : Fields}

theorem refines_arith (α : Type) [Numeric α] (op : Arith) (name : String) :
    Refines (arith α op name fields) fun m => m.planArith α op name fields :=
  .look fun _ => .look fun _ => .lift fun _ => .setRegister _ _

theorem refines_neg (α : Type) [Numeric α] (name : String) :
    Refines (neg α name fields) fun m => m.planNeg α name fields :=
  .look fun _ => .setRegister _ _

theorem refines_compare (α : Type) [Numeric α] (op : Comparison) (name : String) :
    Refines (compare α op name fields) fun m => m.planCompare α op name fields :=
  .look fun _ => .look fun _ => .setRegister _ _

theorem refines_callNative (native : Native) :
    Refines (callNative native fields) fun m => m.planNative native fields := by
  refine .lift fun _ => ?_
  cases native with
  | len =>
      simp only [invoke, bind_assoc]
      exact .look fun _ => .look fun _ => .setRegister _ _
  | sqrt =>
      simp only [invoke, bind_assoc, pure_bind]
      exact .look fun _ => .setRegister _ _
  | print => exact fun _ => rfl

/-- To enter a function is to write frames, registers and place in turn. -/
theorem refines_enter (callee : UInt16) (target : Function) :
    Refines (enter program callee target fields) fun m =>
      .ok (.enter callee target.registerCount.toNat
        (m.registers.range fields.rc target.paramCount.toNat) fields.ra
        (m.registers.window (Machine.windowSize program m.function))) :=
  fun _ => rfl

theorem refines_callCompiled (callee : UInt16) :
    Refines (callCompiled program callee fields)
      fun m => m.planCompiled program callee fields := by
  intro m
  show (if m.limits.maxCallDepth ≤ m.frames.size then _ else _ : Handler Unit) m = _
  simp only [Machine.planCompiled]
  by_cases hd : m.limits.maxCallDepth ≤ m.frames.size
  · rw [if_pos hd, if_pos hd]
    rfl
  · rw [if_neg hd, if_neg hd]
    cases program.function? callee with
    | none => rfl
    | some target => exact Refines.lift (fun _ => refines_enter callee target) m

/-- A new array is written to the heap first, and its handle to a register then. -/
theorem refines_allocate (r : UInt8) (size : Nat) (fill : Value) :
    Refines (onHeap (·.allocate size fill) >>= fun handle => setRegister r (.array handle)) fun m =>
      match m.heap.refusal? size with
      | some error => .error error
      | none => .ok (.allocate r size fill) := by
  intro m
  cases hr : m.heap.refusal? size with
  | some error =>
      have hf : m.heap.allocate size fill = (.error error, m.heap) := by rw [Heap.allocate, hr]
      simp only [bind, ExceptT.bind, ExceptT.mk, StateT.bind, onHeap, hf, hr]
      rfl
  | none =>
      have hf : m.heap.allocate size fill
          = (.ok (m.heap.place size fill).1, (m.heap.place size fill).2) := by
        rw [Heap.allocate, hr]
      simp only [bind, ExceptT.bind, ExceptT.mk, StateT.bind, onHeap, hf, hr]
      rfl

theorem refines_store (handle : Handle) (index : Int) (value : Value) :
    Refines (onHeap (·.store handle index value)) fun m => do
      let place ← m.heap.locate handle index
      return .setElement handle place value :=
  .onHeap fun _ _ => rfl

/-- Every handler comes to the plan of its opcode. -/
theorem refines_ofOpcode (op : Opcode) :
    Refines (ofOpcode program op fields) fun m => m.plan program op fields := by
  cases op with
  | loadBool => exact .setRegister _ _
  | loadI32 => exact .setRegister _ _
  | loadI64 => exact .setRegister _ _
  | loadConst type => exact .lift fun _ => .setRegister _ _
  | loadFunction =>
      simp only [ofOpcode, Machine.plan]
      cases program.function? fields.imm with
      | some _ => exact .setRegister _ _
      | none => exact .throw _
  | loadNative =>
      refine .lift fun name => ?_
      cases Native.ofName? name with
      | some native => exact .setRegister _ _
      | none => exact .throw _
  | loadGlobal => exact .look fun _ => fun _ => rfl
  | storeGlobal => exact .look fun _ => fun _ => rfl
  | move => exact .register fun _ => .setRegister _ _
  | convert conversion => exact .look fun _ => .setRegister _ _
  | arith op type => cases type <;> exact refines_arith _ _ _
  | neg type => cases type <;> exact refines_neg _ _
  | compare op type => cases type <;> exact refines_compare _ _ _
  | not => exact .look fun _ => .setRegister _ _
  | connect op => exact .look fun _ => .look fun _ => .setRegister _ _
  | newArray =>
      refine .look fun length => ?_
      by_cases hneg : length.toInt < 0
      · simp only [if_pos hneg]
        exact .throw _
      · simp only [if_neg hneg]
        exact .register fun fill => refines_allocate fields.ra _ fill
  | arrayGet => exact .look fun _ => .look fun _ => .look fun _ => .setRegister _ _
  | arraySet =>
      refine .look fun handle => .look fun index => ?_
      exact .register fun value => refines_store handle index.toInt value
  | arrayLen => exact .look fun _ => .look fun _ => .setRegister _ _
  | refInc => exact .look fun _ => .onHeap fun _ _ => rfl
  | refDec => exact .look fun _ => .onHeap fun _ _ => rfl
  | destroy => exact .look fun _ => .onHeap fun _ _ => rfl
  | free => exact .look fun _ => .onHeap fun _ _ => rfl
  | jump => exact .write fun _ => rfl
  | jumpIf =>
      refine .look fun taken => ?_
      cases taken <;> exact fun _ => rfl
  | jumpIfNot =>
      refine .look fun taken => ?_
      cases taken <;> exact fun _ => rfl
  | call =>
      refine .look fun callable => ?_
      cases callable with
      | native native => exact refines_callNative native
      | compiled callee => exact refines_callCompiled callee
  | ret => exact fun _ => rfl

theorem refines_ofWord (instruction : Instruction) :
    Refines (ofWord program instruction) fun m => m.planWord program instruction :=
  .lift fun op => refines_ofOpcode op

/-- No instruction writes anything before its last check. -/
theorem ofWord_atomic {instruction : Instruction} {m t : Machine} {error : Error}
    (h : ofWord program instruction m = (.error error, t)) : t = m :=
  (refines_ofWord instruction).eq_of_error h

end Handler

/-! ## Steps by plan -/

namespace Machine

/-- Carries an instruction out by its plan. -/
def execute (m : Machine) (program : Program) (instruction : Instruction) : StepResult × Machine :=
  if m.isExhausted then m.fail program instruction (.budgetExhausted m.executed)
  else
    match m.planWord program instruction with
    | .error error => { m with executed := m.executed + 1 }.fail program instruction error
    | .ok effect => (effect.apply m.advanced).stepped

/-- One step by plan. -/
def stepByPlan (m : Machine) (program : Program) : StepResult × Machine :=
  match m.status with
  | .faulted fault => (.fault fault, m)
  | .ready | .halted => (.stopped, m)
  | .running =>
    match program.function? m.function with
    | none => m.fail program none (.invalidFunction m.function)
    | some function =>
      match function.instruction? m.pc with
      | none => (m.leave none).stepped
      | some instruction => m.execute program instruction

/-- A plan depends neither on the place nor on the count. -/
theorem ofWord_advanced (m : Machine) (program : Program) (instruction : Instruction) :
    Handler.ofWord program instruction m.advanced
      = Effect.settle m.advanced (m.planWord program instruction) :=
  Handler.refines_ofWord instruction m.advanced

theorem step_eq (m : Machine) (program : Program) : m.step program = m.stepByPlan program := by
  rw [step, stepByPlan]
  cases hs : m.status with
  | running =>
      simp only [fetchAndExecute]
      cases program.function? m.function with
      | none => rfl
      | some function =>
          cases hi : function.instruction? m.pc with
          | none => simp only [hi]
          | some instruction =>
              simp only [hi, execute, ofWord_advanced]
              by_cases hx : m.isExhausted = true
              · simp only [if_pos hx]
              · simp only [if_neg hx]
                cases m.planWord program instruction with
                | error error => rfl
                | ok effect => rfl
  | _ => rfl

end Machine

end RegisterMachine
