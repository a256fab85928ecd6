import Mathlib
import RegisterMachine.Proofs.Calls
import RegisterMachine.Proofs.FileMachine

/-!
# Windows stand for files

The machine has one register file and saves, resets and restores windows of it; the reference has a
file for each call.  If no instruction names a register outside its function's window, and no call
takes arguments from outside it, the two make the same steps.

The invariant (`Matches`) relates the whole stacks: the window of the executing function has the
contents of its file, and each saved window those of the file of its caller.  Registers outside the
window hold what other functions left there; `plan_congr` says that planning does not read them.
-/

namespace RegisterMachine

/-! ## Planning reads operands only -/

/-- The register that a field names. -/
def Fields.register (fields : Fields) (field : Field) : UInt8 := (fields.get field).toUInt8

/-- The files `a` and `b` hold the same in every register that the opcode names. -/
def ReadsAlike (op : Opcode) (fields : Fields) (a b : Registers) : Prop :=
  ∀ operand ∈ op.operands, operand.kind = .reg →
    a.read (fields.register operand.field) = b.read (fields.register operand.field)

theorem ReadsAlike.a {op : Opcode} {fields : Fields} {a b : Registers} {name : String}
    (h : ReadsAlike op fields a b) (hop : ⟨name, .reg, .a⟩ ∈ op.operands) :
    a.read fields.ra = b.read fields.ra := h _ hop rfl

theorem ReadsAlike.b {op : Opcode} {fields : Fields} {a b : Registers} {name : String}
    (h : ReadsAlike op fields a b) (hop : ⟨name, .reg, .b⟩ ∈ op.operands) :
    a.read fields.rb = b.read fields.rb := h _ hop rfl

theorem ReadsAlike.c {op : Opcode} {fields : Fields} {a b : Registers} {name : String}
    (h : ReadsAlike op fields a b) (hop : ⟨name, .reg, .c⟩ ∈ op.operands) :
    a.read fields.rc = b.read fields.rc := h _ hop rfl

theorem expect_congr {α : Type} {a b : Registers} {r : UInt8} (h : a.read r = b.read r)
    (pick : Value → Option α) (type name : String) :
    a.expect pick type name r = b.expect pick type name r := by
  simp only [Registers.expect, h]

namespace Machine

variable {program : Program} {m : Machine} {fields : Fields} {file : Registers}
  {frames : Array Frame}

theorem planArith_congr {α : Type} [Numeric α] {op : Arith} {name : String}
    (hb : m.registers.read fields.rb = file.read fields.rb)
    (hc : m.registers.read fields.rc = file.read fields.rc) :
    m.planArith α op name fields
      = planArith { m with registers := file, frames } α op name fields := by
  simp only [planArith, numberIn, expect_congr hb, expect_congr hc]

theorem planNeg_congr {α : Type} [Numeric α] {name : String}
    (hb : m.registers.read fields.rb = file.read fields.rb) :
    m.planNeg α name fields = planNeg { m with registers := file, frames } α name fields := by
  simp only [planNeg, numberIn, expect_congr hb]

theorem planCompare_congr {α : Type} [Numeric α] {op : Comparison} {name : String}
    (hb : m.registers.read fields.rb = file.read fields.rb)
    (hc : m.registers.read fields.rc = file.read fields.rc) :
    m.planCompare α op name fields
      = planCompare { m with registers := file, frames } α op name fields := by
  simp only [planCompare, numberIn, expect_congr hb, expect_congr hc]

theorem converted_congr {conversion : Conversion} {name : String} {r : UInt8}
    (h : m.registers.read r = file.read r) :
    m.converted conversion name r
      = converted { m with registers := file, frames } conversion name r := by
  cases conversion <;> simp only [converted, numberIn, expect_congr h]

/-- A native function reads the first argument register only. -/
theorem planNative_congr {native : Native}
    (hc : m.registers.read fields.rc = file.read fields.rc) :
    m.planNative native fields
      = planNative { m with registers := file, frames } native fields := by
  cases native with
  | len => simp only [planNative, Registers.array, expect_congr hc]; rfl
  | sqrt => simp only [planNative, numberIn, expect_congr hc]
  | print => simp only [planNative, hc]

theorem planCompiled_congr {callee : UInt16} (hsize : frames.size = m.frames.size)
    (hw : m.registers.window (windowSize program m.function)
      = file.window (windowSize program m.function))
    (hargs : ∀ target, program.function? callee = some target →
      m.frames.size < m.limits.maxCallDepth →
      fields.rc.toNat + target.paramCount.toNat ≤ registerCapacity →
      fields.rc.toNat + target.paramCount.toNat ≤ windowSize program m.function) :
    m.planCompiled program callee fields
      = planCompiled { m with registers := file, frames } program callee fields := by
  simp only [planCompiled, hsize]
  split
  · rfl
  · rename_i hdepth
    cases ht : program.function? callee with
    | none => rfl
    | some target =>
        simp only
        cases hc : checkArguments target.name target.paramCount.toNat fields.rc with
        | error e => rfl
        | ok u =>
            have hle := hargs target ht (by omega) (checkArguments_le hc)
            rw [hw, Registers.range_eq hw hle]

/-- Planning depends on the register file only through the operands and, for calls, through the
window; on the pending calls it depends only through their number. -/
theorem plan_congr {op : Opcode} (hr : ReadsAlike op fields m.registers file)
    (hsize : frames.size = m.frames.size)
    (hw : m.registers.window (windowSize program m.function)
      = file.window (windowSize program m.function))
    (hargs : ∀ callee target, op = .call →
      m.registers.read fields.rb = .function (.compiled callee) →
      program.function? callee = some target → m.frames.size < m.limits.maxCallDepth →
      fields.rc.toNat + target.paramCount.toNat ≤ registerCapacity →
      fields.rc.toNat + target.paramCount.toNat ≤ windowSize program m.function) :
    m.plan program op fields
      = plan { m with registers := file, frames } program op fields := by
  cases op with
  | storeGlobal =>
      have ha := hr.a (.head _)
      simp only [plan, ha]
      rfl
  | move =>
      have hb := hr.b (.tail _ (.head _))
      simp only [plan, hb]
  | convert conversion =>
      have hb := hr.b (.tail _ (.head _))
      exact congrArg (· >>= fun value => pure (Effect.setRegister fields.ra value))
        (converted_congr hb)
  | arith op type =>
      have hb := hr.b (.tail _ (.head _))
      have hc := hr.c (.tail _ (.tail _ (.head _)))
      cases type <;> exact planArith_congr hb hc
  | neg type =>
      have hb := hr.b (.tail _ (.head _))
      cases type <;> exact planNeg_congr hb
  | compare op type =>
      have hb := hr.b (.tail _ (.head _))
      have hc := hr.c (.tail _ (.tail _ (.head _)))
      cases type <;> exact planCompare_congr hb hc
  | not =>
      have hb := hr.b (.tail _ (.head _))
      simp only [plan, Registers.bool, expect_congr hb]
  | connect op =>
      have hb := hr.b (.tail _ (.head _))
      have hc := hr.c (.tail _ (.tail _ (.head _)))
      simp only [plan, Registers.bool, expect_congr hb, expect_congr hc]
  | newArray =>
      have hb := hr.b (.tail _ (.head _))
      have hc := hr.c (.tail _ (.tail _ (.head _)))
      simp only [plan, Registers.int, expect_congr hb, hc]
  | arrayGet =>
      have hb := hr.b (.tail _ (.head _))
      have hc := hr.c (.tail _ (.tail _ (.head _)))
      simp only [plan, Registers.array, Registers.int, expect_congr hb, expect_congr hc]
  | arraySet =>
      have ha := hr.a (.head _)
      have hb := hr.b (.tail _ (.head _))
      have hc := hr.c (.tail _ (.tail _ (.head _)))
      simp only [plan, Registers.array, Registers.int, expect_congr ha, expect_congr hb, hc]
  | arrayLen =>
      have hb := hr.b (.tail _ (.head _))
      simp only [plan, Registers.array, expect_congr hb]
      rfl
  | refInc =>
      have ha := hr.a (.head _)
      simp only [plan, Registers.array, expect_congr ha]
  | refDec =>
      have ha := hr.a (.head _)
      simp only [plan, Registers.array, expect_congr ha]
  | destroy =>
      have ha := hr.a (.head _)
      simp only [plan, Registers.array, expect_congr ha]
  | free =>
      have ha := hr.a (.head _)
      simp only [plan, Registers.array, expect_congr ha]
  | jumpIf =>
      have ha := hr.a (.head _)
      simp only [plan, Registers.bool, expect_congr ha]
  | jumpIfNot =>
      have ha := hr.a (.head _)
      simp only [plan, Registers.bool, expect_congr ha]
  | call =>
      have hb := hr.b (.tail _ (.head _))
      have hc := hr.c (.tail _ (.tail _ (.head _)))
      simp only [plan, Registers.function, ← expect_congr hb]
      cases hf : m.registers.function Opcode.call.mnemonic fields.rb with
      | error e => rw [Registers.function] at hf; rw [hf]; rfl
      | ok callable =>
          have hread := Registers.read_of_function hf
          rw [Registers.function] at hf
          rw [hf]
          cases callable with
          | native native => exact planNative_congr hc
          | compiled callee =>
              exact planCompiled_congr hsize hw fun target => hargs callee target rfl hread
  | ret =>
      have ha := hr.a (.head _)
      simp only [plan, ha]
  | _ => rfl

end Machine

/-! ## The simulation relation -/

/-- The two machines look the same from outside: all but the registers and the pending calls is
equal, and so is the window of the executing function. -/
structure Agrees (program : Program) (m : Machine) (r : FileMachine) : Prop where
  limits : r.limits = m.limits
  heap : r.heap = m.heap
  globals : r.globals = m.globals
  function : r.function = m.function
  entry : r.entry = m.entry
  pc : r.pc = m.pc
  status : r.status = m.status
  returned : r.returned = m.returned
  executed : r.executed = m.executed
  printed : r.printed = m.printed
  window : m.registers.window (Machine.windowSize program m.function)
    = r.file.window (Machine.windowSize program m.function)

/-- A saved window has the contents of its caller's file. -/
structure FrameMatches (program : Program) (frame : Frame) (a : Activation) : Prop where
  returnPc : a.returnPc = frame.returnPc
  function : a.function = frame.function
  destination : a.destination = frame.destination
  saved : frame.saved = a.file.window (Machine.windowSize program frame.function)

/-- The machines agree, and so do their pending calls. -/
structure Matches (program : Program) (m : Machine) (r : FileMachine) : Prop
    extends Agrees program m r where
  frames : List.Forall₂ (FrameMatches program) m.frames.toList.reverse r.callers

namespace Matches

variable {program : Program} {m : Machine} {r : FileMachine}

theorem ofMachine (h : m.frames = #[]) : Matches program m (.ofMachine m) where
  limits := rfl
  heap := rfl
  globals := rfl
  function := rfl
  entry := rfl
  pc := rfl
  status := rfl
  returned := rfl
  executed := rfl
  printed := rfl
  window := rfl
  frames := by rw [h]; exact .nil

theorem view_eq (h : Matches program m r) :
    r.view = { m with registers := r.file, frames := r.view.frames } := by
  simp only [FileMachine.view, h.limits, h.heap, h.globals, h.function, h.entry, h.pc, h.status,
    h.returned, h.executed, h.printed]

theorem view_size (h : Matches program m r) : r.view.frames.size = m.frames.size := by
  have hl := h.frames.length_eq
  simp only [List.length_reverse, Array.length_toList] at hl
  simp [FileMachine.view, hl]

/-- Moving on to another place keeps the machines together. -/
theorem moved (h : Matches program m r) (pc executed : Nat) :
    Matches program { m with pc, executed } { r with pc, executed } :=
  { h with pc := rfl, executed := rfl, frames := h.frames }

/-- The same write on both sides keeps the windows equal, wherever it goes. -/
theorem written (h : Matches program m r) (register : UInt8) (value : Value) :
    Matches program (m.write register value)
      { r with file := r.file.write register value } where
  toAgrees := { h with
    window := by
      rw [Registers.window_eq_iff]
      intro s hs
      simp only [Machine.write, Registers.read_write]
      split
      · rfl
      · exact Registers.window_eq_iff.mp h.window s hs }
  frames := h.frames

theorem last_of_reverse {frames : Array Frame} {frame : Frame} {rest : List Frame}
    (h : frames.toList.reverse = frame :: rest) :
    frames.back? = some frame ∧ frames.pop.toList.reverse = rest := by
  constructor
  · rw [← Array.getLast?_toList, ← List.head?_reverse, h]
    rfl
  · rw [Array.toList_pop, ← List.tail_reverse, h]
    rfl

/-- Behind the restored window stands the caller's file, also with the returned value in it. -/
theorem restored {program : Program} {frame : Frame} {a : Activation}
    (h : FrameMatches program frame a) (registers : Registers) (value : Option Value) :
    Registers.window
        (match value with
          | some value => (registers.restore frame.saved).write frame.destination value
          | none => registers.restore frame.saved)
        (Machine.windowSize program frame.function)
      = Registers.window
        (match value with
          | some value => a.file.write a.destination value
          | none => a.file)
        (Machine.windowSize program frame.function) := by
  rw [Registers.window_eq_iff]
  intro s hs
  have hfile : (registers.restore frame.saved).read s = a.file.read s := by
    rw [h.saved, Registers.read_restore_window, if_pos hs]
  cases value with
  | none => exact hfile
  | some value =>
      simp only [Registers.read_write, h.destination]
      split
      · rfl
      · exact hfile

/-- A return keeps the machines together: what is restored is the caller's own file, as far as its
window goes. -/
theorem leave (h : Matches program m r) (value : Option Value) :
    Matches program (m.leave value) (r.leave value) := by
  have hframes := h.frames
  cases hm : m.frames.toList.reverse with
  | nil =>
      rw [hm] at hframes
      have hr : r.callers = [] := List.forall₂_nil_left_iff.mp hframes
      have hb : m.frames.back? = none := by
        rw [← Array.getLast?_toList, ← List.head?_reverse, hm]
        rfl
      simp only [Machine.leave, FileMachine.leave, hb, hr]
      exact { h with
        returned := by cases value <;> simp [h.returned]
        status := rfl
        frames := by rw [hm]; exact .nil }
  | cons frame rest =>
      rw [hm] at hframes
      obtain ⟨caller, callers, hframe, hrest, hr⟩ := List.forall₂_cons_left_iff.mp hframes
      obtain ⟨hb, hpop⟩ := last_of_reverse hm
      rw [Machine.leave_of_back hb]
      simp only [FileMachine.leave, hr]
      exact { h with
        function := hframe.function
        pc := hframe.returnPc
        window := restored hframe m.registers value
        frames := by rw [hpop]; exact hrest }

/-- A call keeps the machines together: the window that the callee starts with is that of a fresh
file. -/
theorem enter (h : Matches program m r) {callee : UInt16} {size : Nat}
    (hsize : Machine.windowSize program callee = size) (arguments : Array Value)
    (destination : UInt8) :
    Matches program
      (Effect.apply m (.enter callee size arguments destination
        (m.registers.window (Machine.windowSize program m.function))))
      (r.perform (.enter callee size arguments destination
        (m.registers.window (Machine.windowSize program m.function)))) := by
  simp only [Effect.apply, FileMachine.perform]
  exact { h with
    function := rfl
    pc := rfl
    window := by
      simp only [hsize]
      rw [Registers.window_eq_iff]
      intro s hs
      rw [Registers.read_enter, Registers.read_fresh, if_pos (by omega)]
    frames := by
      simp only [Array.toList_push, List.reverse_append, List.reverse_singleton,
        List.singleton_append]
      exact .cons ⟨h.pc, h.function, rfl, h.window⟩ h.frames }

/-- Every effect keeps the machines together; of a call it has to be known which window it saves and
how large the callee's is. -/
theorem perform (h : Matches program m r) (effect : Effect)
    (henter : ∀ callee size arguments destination saved,
      effect = .enter callee size arguments destination saved →
      Machine.windowSize program callee = size ∧
        saved = m.registers.window (Machine.windowSize program m.function)) :
    Matches program (effect.apply m) (r.perform effect) := by
  cases effect with
  | setRegister register value => exact h.written register value
  | setGlobal slot value =>
      simp only [Effect.apply, FileMachine.perform, h.globals]
      exact { h with globals := rfl, frames := h.frames }
  | allocate register size fill =>
      simp only [Effect.apply, FileMachine.perform, h.heap]
      exact { h.written register _ with heap := rfl, frames := h.frames }
  | setElement handle place value =>
      simp only [Effect.apply, FileMachine.perform, h.heap]
      exact { h with heap := rfl, frames := h.frames }
  | setRefcount handle count =>
      simp only [Effect.apply, FileMachine.perform, h.heap]
      exact { h with heap := rfl, frames := h.frames }
  | release handle =>
      simp only [Effect.apply, FileMachine.perform, h.heap]
      exact { h with heap := rfl, frames := h.frames }
  | jump target => exact { h with pc := rfl, frames := h.frames }
  | proceed => exact h
  | print line register value =>
      simp only [Effect.apply, FileMachine.perform, h.printed]
      exact { h.written register value with printed := rfl, frames := h.frames }
  | enter callee size arguments destination saved =>
      obtain ⟨hsize, rfl⟩ := henter callee size arguments destination saved rfl
      exact h.enter hsize arguments destination
  | leave value => exact h.leave (some value)

/-- The machines fail alike. -/
theorem fail (h : Matches program m r) (instruction : Option Instruction) (error : Error) :
    (r.fail program instruction error).1 = (m.fail program instruction error).1 ∧
    Matches program (m.fail program instruction error).2
      (r.fail program instruction error).2 := by
  have hfault : r.view.faultAt program instruction error
      = m.faultAt program instruction error := by
    rw [h.view_eq]
    rfl
  simp only [FileMachine.fail, Machine.fail, hfault, true_and]
  exact { h with status := rfl, frames := h.frames }

theorem stepped (h : Matches program m r) :
    r.stepped.1 = m.stepped.1 ∧ Matches program m.stepped.2 r.stepped.2 := by
  rw [FileMachine.stepped, Machine.stepped, h.status]
  cases m.status <;> exact ⟨rfl, h⟩

end Matches

/-! ## Programs that stay within their windows -/

/-- Every register operand of every instruction that can be decoded is within its function's
window. -/
def Program.OperandsWithin (program : Program) : Prop :=
  ∀ f ∈ program.functions, ∀ i ∈ f.code, ∀ op, i.opcode = .ok op →
    ∀ operand ∈ op.operands, operand.kind = .reg →
      ((i.fields op.layout).get operand.field).toNat < f.registerCount.toNat

/-- If the machine now calls a compiled function, the arguments are within the caller's window. -/
def Machine.ArgumentsWithin (program : Program) (m : Machine) : Prop :=
  ∀ caller fields callee target, m.CallsCompiled program caller fields callee →
    program.function? callee = some target →
    fields.rc.toNat + target.paramCount.toNat ≤ caller.registerCount.toNat

theorem Program.OperandsWithin.readsAlike {program : Program} (hw : program.OperandsWithin)
    {m : Machine} {f : Function} {i : Instruction} {op : Opcode} (hi : m.Fetches program f i)
    (hop : i.opcode = .ok op) {file : Registers}
    (h : m.registers.window (Machine.windowSize program m.function)
      = file.window (Machine.windowSize program m.function)) :
    ReadsAlike op (i.fields op.layout) m.registers file := by
  intro operand hoperand hkind
  have hf : f ∈ program.functions := Array.mem_of_getElem? hi.function_eq
  have hc : i ∈ f.code := Array.mem_of_getElem? hi.instruction_eq
  have hlt := hw f hf i hc op hop operand hoperand hkind
  apply Registers.window_eq_iff.mp h
  rw [Machine.windowSize_of_function hi.function_eq, Fields.register, UInt32.toNat_toUInt8]
  exact Nat.lt_of_le_of_lt (Nat.mod_le _ _) hlt

namespace Matches

variable {program : Program} {m : Machine} {r : FileMachine}

theorem planWord_eq (h : Matches program m r) (hw : program.OperandsWithin)
    (ha : m.ArgumentsWithin program) (running : m.status = .running) {f : Function}
    {i : Instruction} (hi : m.Fetches program f i) (hx : m.isExhausted = false) :
    r.view.planWord program i = m.planWord program i := by
  cases hop : i.opcode with
  | error error =>
      simp only [Machine.planWord, hop]
      rfl
  | ok op =>
      rw [Machine.planWord_of_opcode hop, Machine.planWord_of_opcode hop, h.view_eq]
      symm
      refine Machine.plan_congr (hw.readsAlike hi hop h.window) h.view_size h.window ?_
      rintro callee target rfl hc ht hdepth hargs
      rw [Machine.windowSize_of_function hi.function_eq]
      exact ha f _ callee target (.of_checks running hi hx hop hc hdepth ht hargs) ht

/-- One step of the simulation. -/
theorem step (h : Matches program m r) (hw : program.OperandsWithin)
    (ha : m.ArgumentsWithin program) :
    (r.step program).1 = (m.step program).1 ∧
    Matches program (m.step program).2 (r.step program).2 := by
  by_cases running : m.status = .running
  · rw [FileMachine.step, Machine.step_eq, Machine.stepByPlan, h.status, running]
    simp only [h.function, h.pc]
    cases hf : program.function? m.function with
    | none => exact h.fail none _
    | some f =>
        simp only
        cases hi : f.instruction? m.pc with
        | none => exact (h.leave none).stepped
        | some i =>
            have hx : r.view.isExhausted = m.isExhausted := by
              rw [h.view_eq]
              rfl
            simp only [FileMachine.execute, Machine.execute, hx, h.executed, h.pc]
            split
            · exact h.fail (some i) _
            · rename_i hx'
              rw [Bool.not_eq_true] at hx'
              rw [h.planWord_eq hw ha running ⟨hf, hi⟩ hx']
              cases hp : m.planWord program i with
              | error error => exact (h.moved _ _).fail (some i) error
              | ok effect =>
                  refine ((h.moved _ _).perform effect ?_).stepped
                  rintro callee size arguments destination saved rfl
                  obtain ⟨op, -, hplanned⟩ := Machine.planWord_planned hp
                  cases hplanned with
                  | enter _ _ ht _ => exact ⟨Machine.windowSize_of_function ht, rfl⟩
  · rw [FileMachine.step, Machine.step, h.status]
    cases hs : m.status with
    | running => exact absurd hs running
    | _ => exact ⟨rfl, h⟩

/-- The simulation along a run. -/
theorem run (h : Matches program m r) (hw : program.OperandsWithin) :
    ∀ n, (∀ k < n, (Machine.runFor program k m).ArgumentsWithin program) →
      Matches program (Machine.runFor program n m) (r.run program n) := by
  intro n
  induction n with
  | zero => intro _; exact h
  | succ n ih =>
      intro ha
      rw [Machine.runFor_succ_last]
      exact ((ih fun k hk => ha k (by omega)).step hw (ha n (by omega))).2

end Matches

/-- **Windows refine files.**  Take a program whose register operands lie within their functions'
windows, a machine without pending calls, and a run in which every call takes its arguments from
within the caller's window.  Then the machine and the one with a register file for each call say
the same at every step, and look the same after every step. -/
theorem windows_refine_files {program : Program} {m : Machine} (hw : program.OperandsWithin)
    (start : m.frames = #[]) (n : Nat)
    (ha : ∀ k < n, (Machine.runFor program k m).ArgumentsWithin program) :
    Agrees program (Machine.runFor program n m) (FileMachine.run program n (.ofMachine m)) ∧
    ∀ k < n, ((FileMachine.run program k (.ofMachine m)).step program).1
      = ((Machine.runFor program k m).step program).1 := by
  have hm : Matches program m (.ofMachine m) := .ofMachine start
  refine ⟨(hm.run hw n ha).toAgrees, ?_⟩
  intro k hk
  exact ((hm.run hw k fun j hj => ha j (by omega)).step hw (ha k hk)).1

/-! ## The callee that overwrites its caller's registers

The run of `overwritingProgram` ends after four steps. -/

namespace Machine

theorem opcodes_overwriting :
    (⟨0x93020100⟩ : Instruction).opcode = .ok .call ∧
    (⟨0x94000002⟩ : Instruction).opcode = .ok .ret ∧
    (⟨0x02010009⟩ : Instruction).opcode = .ok .loadI32 ∧
    (⟨0x94000000⟩ : Instruction).opcode = .ok .ret :=
  ⟨Instruction.opcode_of_byte rfl, Instruction.opcode_of_byte rfl,
    Instruction.opcode_of_byte rfl, Instruction.opcode_of_byte rfl⟩

theorem fetched_overwriting {f : Function} {i : Instruction}
    (hf : f ∈ overwritingProgram.functions) (hi : i ∈ f.code) :
    f = overwritingCaller ∧ (i = ⟨0x93020100⟩ ∨ i = ⟨0x94000002⟩) ∨
    f = overwritingCallee ∧ (i = ⟨0x02010009⟩ ∨ i = ⟨0x94000000⟩) := by
  obtain rfl | rfl : f = overwritingCaller ∨ f = overwritingCallee := by
    simpa [overwritingProgram] using hf
  · exact .inl ⟨rfl, by simpa [overwritingCaller] using hi⟩
  · exact .inr ⟨rfl, by simpa [overwritingCallee] using hi⟩

theorem operandsWithin_overwriting : overwritingProgram.OperandsWithin := by
  intro f hf i hi op hop operand hoperand hkind
  obtain ⟨hcall, hret, hload, hret'⟩ := opcodes_overwriting
  obtain ⟨rfl, rfl | rfl⟩ | ⟨rfl, rfl | rfl⟩ := fetched_overwriting hf hi
  · cases hop.symm.trans hcall
    fin_cases hoperand <;> decide
  · cases hop.symm.trans hret
    fin_cases hoperand
    decide
  · cases hop.symm.trans hload
    fin_cases hoperand
    · decide
    · exact nomatch hkind
  · cases hop.symm.trans hret'
    fin_cases hoperand
    decide

theorem argumentsWithin_overwriting (m : Machine) :
    m.ArgumentsWithin overwritingProgram := by
  intro caller fields callee target call ht
  obtain ⟨i, hi, hop, rfl⟩ := call.fetches
  obtain ⟨hcall, hret, hload, hret'⟩ := opcodes_overwriting
  have hparams : target.paramCount.toNat ≤ 1 := by
    obtain rfl | rfl : target = overwritingCaller ∨ target = overwritingCallee := by
      simpa [overwritingProgram] using Array.mem_of_getElem? ht
    · exact Nat.zero_le 1
    · exact Nat.le_refl 1
  obtain ⟨rfl, rfl | rfl⟩ | ⟨rfl, rfl | rfl⟩ := fetched_overwriting
    (Array.mem_of_getElem? hi.function_eq) (Array.mem_of_getElem? hi.instruction_eq)
  · have hrc : (Instruction.fields ⟨0x93020100⟩ Opcode.call.layout).rc.toNat = 0 := rfl
    have hwindow : overwritingCaller.registerCount.toNat = 3 := rfl
    omega
  · cases hop.symm.trans hret
  · cases hop.symm.trans hload
  · cases hop.symm.trans hret'

theorem windows_refine_files_overwriting :
    Agrees overwritingProgram (runFor overwritingProgram 4 overwritingMachine)
      (FileMachine.run overwritingProgram 4 (.ofMachine overwritingMachine)) ∧
    ∀ k < 4, ((FileMachine.run overwritingProgram k (.ofMachine overwritingMachine)).step
        overwritingProgram).1
      = ((runFor overwritingProgram k overwritingMachine).step overwritingProgram).1 :=
  windows_refine_files operandsWithin_overwriting rfl 4
    fun _ _ => argumentsWithin_overwriting _

end Machine

end RegisterMachine
