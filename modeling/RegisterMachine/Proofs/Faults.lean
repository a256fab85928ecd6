import Mathlib
import RegisterMachine.Proofs.Step

/-!
# Faults change nothing

A step that faults leaves the machine as it was, apart from the status and the count of executed
instructions.  A handler reads, checks and writes in turn, on a machine that stands at the next
instruction already, and what it has written when it fails stays written.  So there are two things to
show.  No handler fails once it has written (`Handler.ofWord_atomic`, opcode by opcode), and with the
place put back nothing but the count is left of the attempt (`fetchAndExecute_error`).  And the
count depends on the error alone: an instruction is refused only for reasons of its own
(`planWord_refuses`), so a fault for want of budget is one that was not counted.

These reasons lie in the data or in the program.  An instruction that finds what it names in the
program is refused for its data only (`plan_checks`).
-/

namespace RegisterMachine

/-- Errors for which an instruction is refused and that lie in the data, not in the program. -/
def Error.isCheck : Error → Bool
  | .typeMismatch .. | .indexOutOfRange .. | .divisionByZero | .heapInvariant ..
  | .outOfMemory _ | .invalidGlobal .. | .unknownNative _ | .argumentWindow ..
  | .callStackOverflow _ => true
  | _ => false

/-- Errors for which an instruction is refused. -/
def Error.isRefusal : Error → Bool
  | .unknownOpcode _ | .invalidConstant .. | .invalidFunction _ => true
  | error => error.isCheck

theorem Error.isRefusal_of_isCheck (error : Error) (h : error.isCheck = true) :
    error.isRefusal = true := by
  unfold Error.isRefusal
  split
  · rfl
  · rfl
  · rfl
  · exact h

/-- Computations that fail with certain errors only. -/
def FailsWith (allowed : Error → Bool) {α : Type} (x : Except Error α) : Prop :=
  ∀ error, x = .error error → allowed error = true

namespace FailsWith

variable {allowed : Error → Bool}

theorem ok {α : Type} (a : α) : FailsWith allowed (.ok a) :=
  fun _ h => nomatch h

theorem error {α : Type} {error : Error} (h : allowed error = true) :
    FailsWith allowed (.error error : Except Error α) := by
  intro error' he
  cases he
  exact h

theorem bind {α β : Type} {x : Except Error α} {f : α → Except Error β}
    (hx : FailsWith allowed x) (hf : ∀ a, FailsWith allowed (f a)) :
    FailsWith allowed (x >>= f) := by
  intro error h
  obtain h | ⟨a, -, h⟩ := bind_eq_error.mp h
  · exact hx error h
  · exact hf a error h

theorem map {α β : Type} {x : Except Error α} (hx : FailsWith allowed x) (f : α → β) :
    FailsWith allowed (x.map f) := by
  cases x with
  | error cause => exact .error (hx cause rfl)
  | ok a => exact .ok _

theorem mono {allowed' : Error → Bool} {α : Type} {x : Except Error α}
    (hx : FailsWith allowed x) (h : ∀ error, allowed error = true → allowed' error = true) :
    FailsWith allowed' x :=
  fun error he => h error (hx error he)

end FailsWith

/-- Computations whose failures lie in the data. -/
abbrev Checks {α : Type} (x : Except Error α) : Prop := FailsWith Error.isCheck x

/-- Computations that fail with refusals only. -/
abbrev Refuses {α : Type} (x : Except Error α) : Prop := FailsWith Error.isRefusal x

theorem Checks.refuses {α : Type} {x : Except Error α} (h : Checks x) : Refuses x :=
  h.mono Error.isRefusal_of_isCheck

namespace Checks

/-! ## Registers and heap -/

theorem expect {α : Type} (registers : Registers) (pick : Value → Option α)
    (type name : String) (r : UInt8) : Checks (registers.expect pick type name r) := by
  rw [Registers.expect]
  split
  · exact .ok _
  · exact .error rfl

theorem heapGet (heap : Heap) (handle : Handle) : Checks (heap.get handle) := by
  rw [Heap.get]
  split
  · exact .ok _
  · exact .error rfl

theorem heapLength (heap : Heap) (handle : Handle) : Checks (heap.length handle) :=
  (heapGet heap handle).bind fun _ => .ok _

theorem checkIndex (index : Int) (length : Nat) : Checks (Heap.checkIndex index length) := by
  rw [Heap.checkIndex]
  split
  · exact .ok _
  · exact .error rfl

theorem heapLoad (heap : Heap) (handle : Handle) (index : Int) :
    Checks (heap.load handle index) :=
  (heapGet heap handle).bind fun _ => (checkIndex _ _).bind fun _ => .ok _

theorem locate (heap : Heap) (handle : Handle) (index : Int) :
    Checks (heap.locate handle index) :=
  (heapLength heap handle).bind fun _ => checkIndex _ _

theorem checkInc (heap : Heap) (handle : Handle) : Checks (heap.checkInc handle) := by
  refine (heapGet heap handle).bind fun array => ?_
  split
  · exact .error rfl
  · exact .ok _

theorem checkDec (heap : Heap) (handle : Handle) : Checks (heap.checkDec handle) := by
  refine (heapGet heap handle).bind fun array => ?_
  split
  · exact .error rfl
  · exact .ok _

theorem checkFree (heap : Heap) (handle : Handle) (ignore : Bool) :
    Checks (heap.checkFree handle ignore) := by
  rw [Heap.checkFree]
  split
  · exact .error rfl
  · split
    · exact .error rfl
    · exact .ok _

theorem refusal? {heap : Heap} {size : Nat} {error : Error}
    (h : heap.refusal? size = some error) : error.isCheck = true := by
  rw [Heap.refusal?] at h
  split at h
  · cases h; rfl
  · exact nomatch h

/-! ## Numbers -/

/-- The shape of a whole power: only a power of zero can fail. -/
theorem power {α : Type} (natural zero one minusOne : Prop) [Decidable natural] [Decidable zero]
    [Decidable one] [Decidable minusOne] (a b c d : α) :
    Checks (if natural then .ok a else if zero then .error .divisionByZero
      else if one then .ok b else if minusOne then .ok c else .ok d) := by
  split
  · exact .ok _
  · split
    · exact .error rfl
    · split
      · exact .ok _
      · split
        · exact .ok _
        · exact .ok _

theorem quotient {α : Type} (zero : Prop) [Decidable zero] (a : α) :
    Checks (if zero then .error .divisionByZero else .ok a) := by
  split
  · exact .error rfl
  · exact .ok _

theorem arithInt32 (op : Arith) (a b : Int32) : Checks (Numeric.arith op a b) := by
  cases op with
  | pow => exact power _ _ _ _ _ _ _ _
  | div => exact quotient _ _
  | _ => exact .ok _

theorem arithInt64 (op : Arith) (a b : Int64) : Checks (Numeric.arith op a b) := by
  cases op with
  | pow => exact power _ _ _ _ _ _ _ _
  | div => exact quotient _ _
  | _ => exact .ok _

theorem arithBinary32 (op : Arith) (a b : Binary32) : Checks (Numeric.arith op a b) := by
  cases op <;> exact .ok _

theorem arithBinary64 (op : Arith) (a b : Binary64) : Checks (Numeric.arith op a b) := by
  cases op <;> exact .ok _

end Checks

theorem Refuses.constant {α : Type} [DecidableEq α] [Hashable α] [Program.Pooled α]
    (program : Program) (index : UInt16) :
    Refuses (program.constant index : Except Error α) := by
  rw [Program.constant, ConstantTable.fetch]
  split
  · exact .ok _
  · exact .error rfl

namespace Machine

variable {program : Program} {m : Machine} {fields : Fields}

theorem checks_planArith {α : Type} [Numeric α]
    (h : ∀ op (a b : α), Checks (Numeric.arith op a b)) (op : Arith) (name : String) :
    Checks (m.planArith α op name fields) :=
  (Checks.expect _ _ _ _ _).bind fun _ => (Checks.expect _ _ _ _ _).bind fun _ =>
    (h op _ _).bind fun _ => .ok _

theorem checks_planNeg (α : Type) [Numeric α] (name : String) :
    Checks (m.planNeg α name fields) :=
  (Checks.expect _ _ _ _ _).bind fun _ => .ok _

theorem checks_planCompare (α : Type) [Numeric α] (op : Comparison) (name : String) :
    Checks (m.planCompare α op name fields) :=
  (Checks.expect _ _ _ _ _).bind fun _ => (Checks.expect _ _ _ _ _).bind fun _ => .ok _

theorem checks_converted (conversion : Conversion) (name : String) (r : UInt8) :
    Checks (m.converted conversion name r) := by
  cases conversion <;> exact (Checks.expect _ _ _ _ _).bind fun _ => .ok _

theorem refuses_constant (type : NumType) (index : UInt16) :
    Refuses (constant program type index) := by
  cases type <;> exact (Refuses.constant _ _).bind fun _ => .ok _

theorem checks_globalSlot (slot : UInt16) : Checks (m.globalSlot slot) := by
  rw [globalSlot]
  split
  · exact .ok _
  · exact .error rfl

theorem checks_checkArguments (name : String) (count : Nat) (first : UInt8) :
    Checks (checkArguments name count first) := by
  rw [checkArguments]
  split
  · exact .error rfl
  · exact .ok _

theorem checks_planNative (native : Native) : Checks (m.planNative native fields) := by
  refine (checks_checkArguments _ _ _).bind fun _ => ?_
  cases native with
  | len =>
      exact (Checks.expect _ _ _ _ _).bind fun _ =>
        ((Checks.heapLength _ _).bind fun _ => .ok _).bind fun _ => .ok _
  | sqrt => exact (Checks.expect _ _ _ _ _).bind fun _ => .ok _
  | print => exact .ok _

/-- A call of a function of the program fails on depth or arguments. -/
theorem checks_planCompiled {callee : UInt16} {target : Function}
    (ht : program.function? callee = some target) :
    Checks (m.planCompiled program callee fields) := by
  simp only [planCompiled, ht]
  split
  · exact .error rfl
  · exact (checks_checkArguments _ _ _).bind fun _ => .ok _

theorem refuses_planCompiled (callee : UInt16) :
    Refuses (m.planCompiled program callee fields) := by
  cases ht : program.function? callee with
  | some target => exact (checks_planCompiled ht).refuses
  | none =>
      simp only [planCompiled, ht]
      split
      · exact .error rfl
      · exact .error rfl

/-- What an instruction names is there: the constant, or the function that it loads or calls. -/
def Resolves (program : Program) (m : Machine) (fields : Fields) : Opcode → Prop
  | .loadConst type => ∃ value, constant program type fields.imm = .ok value
  | .loadFunction => ∃ target, program.function? fields.imm = some target
  | .loadNative => ∃ name : String, program.constant fields.imm = .ok name
  | .call => ∀ callee, m.registers.read fields.rb = .function (.compiled callee) →
      ∃ target, program.function? callee = some target
  | _ => True

/-- An instruction that finds what it names fails on its data only. -/
theorem plan_checks {op : Opcode} (hr : Resolves program m fields op) :
    Checks (m.plan program op fields) := by
  cases op with
  | loadBool => exact .ok _
  | loadI32 => exact .ok _
  | loadI64 => exact .ok _
  | loadConst type =>
      obtain ⟨value, hvalue⟩ := hr
      simp only [plan, hvalue]
      exact .ok _
  | loadFunction =>
      obtain ⟨target, ht⟩ := hr
      simp only [plan, ht]
      exact .ok _
  | loadNative =>
      obtain ⟨name, hname⟩ := hr
      intro error herror
      obtain herror | ⟨found, -, herror⟩ := bind_eq_error.mp herror
      · cases hname.symm.trans herror
      · cases hn : Native.ofName? found with
        | some native => rw [hn] at herror; cases herror
        | none => rw [hn] at herror; cases herror; rfl
  | loadGlobal => exact (checks_globalSlot _).bind fun _ => .ok _
  | storeGlobal => exact (checks_globalSlot _).bind fun _ => .ok _
  | move => exact .ok _
  | convert conversion => exact (checks_converted _ _ _).bind fun _ => .ok _
  | arith op type =>
      cases type with
      | i32 => exact checks_planArith Checks.arithInt32 _ _
      | i64 => exact checks_planArith Checks.arithInt64 _ _
      | f32 => exact checks_planArith Checks.arithBinary32 _ _
      | f64 => exact checks_planArith Checks.arithBinary64 _ _
  | neg type => cases type <;> exact checks_planNeg _ _
  | compare op type => cases type <;> exact checks_planCompare _ _ _
  | not => exact (Checks.expect _ _ _ _ _).bind fun _ => .ok _
  | connect op =>
      exact (Checks.expect _ _ _ _ _).bind fun _ =>
        (Checks.expect _ _ _ _ _).bind fun _ => .ok _
  | newArray =>
      refine (Checks.expect _ _ _ _ _).bind fun length => ?_
      simp only
      split
      · exact .error rfl
      · cases hr : m.heap.refusal? length.toInt.toNat with
        | some error => exact .error (Checks.refusal? hr)
        | none => exact .ok _
  | arrayGet =>
      exact (Checks.expect _ _ _ _ _).bind fun _ => (Checks.expect _ _ _ _ _).bind fun _ =>
        (Checks.heapLoad _ _ _).bind fun _ => .ok _
  | arraySet =>
      exact (Checks.expect _ _ _ _ _).bind fun _ => (Checks.expect _ _ _ _ _).bind fun _ =>
        (Checks.locate _ _ _).bind fun _ => .ok _
  | arrayLen =>
      exact (Checks.expect _ _ _ _ _).bind fun _ =>
        ((Checks.heapLength _ _).bind fun _ => .ok _).bind fun _ => .ok _
  | refInc =>
      exact (Checks.expect _ _ _ _ _).bind fun _ => (Checks.checkInc _ _).bind fun _ => .ok _
  | refDec =>
      exact (Checks.expect _ _ _ _ _).bind fun _ => (Checks.checkDec _ _).bind fun _ => .ok _
  | destroy =>
      exact (Checks.expect _ _ _ _ _).bind fun _ =>
        (Checks.checkFree _ _ _).bind fun _ => .ok _
  | free =>
      exact (Checks.expect _ _ _ _ _).bind fun _ =>
        (Checks.checkFree _ _ _).bind fun _ => .ok _
  | jump => exact .ok _
  | jumpIf => exact (Checks.expect _ _ _ _ _).bind fun _ => .ok _
  | jumpIfNot => exact (Checks.expect _ _ _ _ _).bind fun _ => .ok _
  | call =>
      intro error herror
      obtain herror | ⟨callable, hcallable, herror⟩ := bind_eq_error.mp herror
      · exact Checks.expect _ _ _ _ _ error herror
      · cases callable with
        | native native => exact checks_planNative _ error herror
        | compiled callee =>
            obtain ⟨target, ht⟩ := hr callee (Registers.read_of_function hcallable)
            exact checks_planCompiled ht error herror
  | ret => exact .ok _

/-- An instruction is refused for a reason of its own, whatever the opcode. -/
theorem plan_refuses (op : Opcode) : Refuses (m.plan program op fields) := by
  cases op with
  | loadConst type => exact (refuses_constant _ _).bind fun _ => .ok _
  | loadFunction =>
      simp only [plan]
      split
      · exact .ok _
      · exact .error rfl
  | loadNative =>
      refine (Refuses.constant _ _).bind fun name => ?_
      cases Native.ofName? name with
      | some native => exact .ok _
      | none => exact .error rfl
  | call =>
      refine (Checks.expect _ _ _ _ _).refuses.bind fun callable => ?_
      cases callable with
      | native native => exact (checks_planNative _).refuses
      | compiled callee => exact refuses_planCompiled _
  | _ => exact Checks.refuses (plan_checks trivial)

theorem refuses_opcode (i : Instruction) : Refuses i.opcode := by
  unfold Instruction.opcode
  split
  · exact .ok _
  · exact .error rfl

theorem planWord_refuses (i : Instruction) : Refuses (m.planWord program i) :=
  (refuses_opcode i).bind fun op => plan_refuses op

/-! ## The fault of a step -/

/-- The step of a machine that faults, and what is left of it: only the status and the count of
executed instructions have changed. -/
structure Faults (program : Program) (m : Machine) (fault : Fault) (t : Machine) : Prop where
  state : t = { m with status := .faulted fault, executed := t.executed }
  pc : fault.pc = m.pc
  instruction : fault.instruction
    = (program.function? m.function).bind fun f => f.instruction? m.pc
  instruction_none : fault.instruction = none ↔ program.function? m.function = none
  uncounted : program.function? m.function = none ∨ (∃ n, fault.error = .budgetExhausted n) →
    t.executed = m.executed
  counted : ¬ (program.function? m.function = none ∨ ∃ n, fault.error = .budgetExhausted n) →
    t.executed = m.executed + 1

namespace Faults

variable {fault : Fault} {t : Machine}

theorem heap_eq (h : m.Faults program fault t) : t.heap = m.heap := by
  rw [h.state]

theorem registers_eq (h : m.Faults program fault t) : t.registers = m.registers := by
  rw [h.state]

end Faults

/-- An attempt that fails, with the place put back: only the count is another. -/
theorem fetchAndExecute_error {fetched : Option Instruction} {error : Error} {t : Machine}
    (h : m.fetchAndExecute program = (fetched, .error error, t)) :
    { t with pc := m.pc } = { m with executed := t.executed } := by
  rw [fetchAndExecute] at h
  cases hf : program.function? m.function with
  | none =>
      simp only [hf] at h
      cases h
      rfl
  | some f =>
      cases hi : f.instruction? m.pc with
      | none =>
          simp only [hf, hi] at h
          cases h
      | some i =>
          simp only [hf, hi] at h
          split at h
          · cases h
            rfl
          · obtain rfl := Handler.ofWord_atomic (Prod.mk.inj h).2
            rfl

/-- What a step leaves of a machine when it faults. -/
theorem step_of_fault {fault : Fault} (running : m.status = .running)
    (h : (m.step program).1 = .fault fault) :
    (m.step program).2
      = { m with status := .faulted fault, executed := (m.step program).2.executed } := by
  rw [step, running] at h ⊢
  rcases hattempt : m.fetchAndExecute program with ⟨fetched, result, t⟩
  cases result with
  | ok =>
      simp only [hattempt] at h
      exact absurd h (stepped_fst_ne_fault fault)
  | error error =>
      have hstate := fetchAndExecute_error hattempt
      simp only [hattempt, hstate] at h ⊢
      cases h
      rfl

/-- **Faults are atomic.**  If a step of a running machine faults, then registers, heap, globals,
pending calls, function, entry, place, returned value and output are those before the step. -/
theorem fault_atomicity {fault : Fault} (running : m.status = .running)
    (h : (m.step program).1 = .fault fault) : m.Faults program fault (m.step program).2 := by
  have hstate := step_of_fault running h
  have ht := step_transition program running
  generalize m.step program = out at ht h hstate ⊢
  cases ht with
  | lost hf =>
      cases h
      refine ⟨hstate, rfl, ?_, ?_, ?_, ?_⟩
      · rw [hf]; rfl
      · exact ⟨fun _ => hf, fun _ => rfl⟩
      · intro _; rfl
      · intro hn; exact absurd (.inl hf) hn
  | ended hf hi => exact absurd h (stepped_fst_ne_fault fault)
  | @exhausted f i hi hx =>
      cases h
      refine ⟨hstate, rfl, ?_, ?_, ?_, ?_⟩
      · rw [hi.function_eq]; exact hi.instruction_eq.symm
      · rw [hi.function_eq]; exact ⟨fun h => (nomatch h), fun h => (nomatch h)⟩
      · intro _; rfl
      · intro hn; exact absurd (.inr ⟨_, rfl⟩) hn
  | @refused f i error hi hx hp =>
      cases h
      refine ⟨hstate, rfl, ?_, ?_, ?_, ?_⟩
      · rw [hi.function_eq]; exact hi.instruction_eq.symm
      · rw [hi.function_eq]; exact ⟨fun h => (nomatch h), fun h => (nomatch h)⟩
      · -- a refused instruction was counted, and its error is no want of budget
        rintro (hf | ⟨n, hn⟩)
        · rw [hi.function_eq] at hf; exact nomatch hf
        · have hr := planWord_refuses i error hp
          rw [show error = .budgetExhausted n from hn] at hr
          exact nomatch hr
      · intro _; rfl
  | performed hi hx hp => exact absurd h (stepped_fst_ne_fault fault)

/-- Makes an array of two elements in `r1` and then one of seven in its place:
`LOAD_I32 r0, 2; NEW_ARRAY r1, r0, r0; LOAD_I32 r0, 7; NEW_ARRAY r1, r0, r0`. -/
def crowding : Program :=
  { Program.empty with
    functions := #[⟨"main", ⟨"", 0⟩, 0, 0, 2,
      #[⟨0x02000002⟩, ⟨0x70010000⟩, ⟨0x02000007⟩, ⟨0x70010000⟩]⟩] }

/-- A heap of eight elements has no room for the second array.  When that is found out the length has
been read and checked, but the register still holds the first array and the heap nothing else. -/
theorem fault_atomicity_crowding :
    let m := runFor crowding 3 ((Machine.new .unbounded ⟨1024, none, 8⟩).start crowding 0)
    let fault : Fault := ⟨.outOfMemory 7, 3, "main", some ⟨0x70010000⟩⟩
    m.Faults crowding fault (m.step crowding).2 ∧
    (m.step crowding).2.registers.read 1 = .array ⟨0, 0⟩ ∧
    (m.step crowding).2.heap.liveElements = 2 ∧ (m.step crowding).2.heap.slots.size = 1 := by
  intro m fault
  have state : m.status = .running ∧ m.registers.read 1 = .array ⟨0, 0⟩ ∧
      m.heap.liveElements = 2 ∧ m.heap.slots.size = 1 ∧
      (m.step crowding).1 = .fault fault := by decide +kernel
  obtain ⟨running, hregister, hlive, hslots, hfault⟩ := state
  have faults := fault_atomicity running hfault
  rw [faults.heap_eq, faults.registers_eq]
  exact ⟨faults, hregister, hlive, hslots⟩

end Machine

end RegisterMachine
