import Mathlib
import RegisterMachine.Proofs.Footprint

/-!
# Lengths and indices of arrays

The length of an array is a natural number, and the machine hands it out as a 32-bit integer without
a look at its size.  It need not look: an array is only ever made with a length that was read from a
register as such an integer, and no operation changes a length.  So every live array is short
(`Heap.Short`), in every state that a machine gets into, in any memory, under any limits and with any
programs.

`array_lengths_agree` draws the conclusion for the four instructions that ask for a length or check
an index against one.
-/

namespace RegisterMachine

/-! ## Short arrays -/

/-- The length of every live array is a signed 32-bit number. -/
def Heap.Short (heap : Heap) : Prop :=
  ∀ handle array, heap.get? handle = some array → array.elements.size ≤ 2 ^ 31 - 1

namespace Heap.Short

variable {heap heap' : Heap}

theorem empty (memory : Memory) (limit : Nat) : (Heap.empty memory limit).Short := by
  intro handle array h
  simp [Heap.get?, Heap.empty] at h

/-- A change behind one handle keeps arrays short if the array put there is short. -/
theorem of_update (h : heap.Short) {handle : Handle} {entry : Option HeapArray}
    (hget : heap'.get? = Function.update heap.get? handle entry)
    (hentry : ∀ array, entry = some array → array.elements.size ≤ 2 ^ 31 - 1) : heap'.Short := by
  intro other array ha
  rw [hget, Function.update_apply] at ha
  split at ha
  · exact hentry array ha
  · exact h other array ha

theorem place (h : heap.Short) (hv : heap.Valid) {size : Nat} (hr : heap.refusal? size = none)
    (hsize : size ≤ 2 ^ 31 - 1) (fill : Value) : (heap.place size fill).2.Short := by
  refine h.of_update (Heap.get?_place hv hr fill).2 fun array ha => ?_
  cases ha
  rwa [Array.size_replicate]

theorem update (h : heap.Short) {handle : Handle} {array : HeapArray}
    (ha : heap.get? handle = some array) {change : HeapArray → HeapArray}
    (hc : (change array).elements.size = array.elements.size) :
    (heap.update handle change).Short := by
  refine h.of_update (Heap.get?_update ha change) fun array' ha' => ?_
  cases ha'
  exact hc ▸ h handle array ha

theorem release (h : heap.Short) {handle : Handle} {array : HeapArray}
    (ha : heap.get? handle = some array) : (heap.release handle).Short :=
  h.of_update (Heap.get?_release ha) fun _ h => nomatch h

end Heap.Short

namespace Machine

variable {program : Program} {m : Machine}

/-- An array is made with a length that was read from a register. -/
theorem size_le_of_newArray {fields : Fields} {r : UInt8} {size : Nat} {fill : Value}
    (h : m.plan program .newArray fields = .ok (.allocate r size fill)) : size ≤ 2 ^ 31 - 1 := by
  obtain ⟨length, -, h⟩ := bind_eq_ok.mp h
  simp only at h
  split at h
  · cases h
  · cases hr : m.heap.refusal? length.toInt.toNat with
    | some error => rw [hr] at h; cases h
    | none =>
        rw [hr] at h
        cases h
        have := length.toInt_lt
        omega

theorem leave_heap (value : Option Value) : (m.leave value).heap = m.heap := by
  cases hb : m.frames.back? with
  | none => simp only [leave, hb]
  | some frame => rw [leave_of_back hb]

/-- An instruction that is carried out keeps all arrays short. -/
theorem short_of_plan (hv : m.heap.Valid) (h : m.heap.Short) {op : Opcode} {fields : Fields}
    {effect : Effect} (hplan : m.plan program op fields = .ok effect) :
    (effect.apply m.advanced).heap.Short := by
  cases plan_planned hplan with
  | newArray hr => exact h.place hv hr (size_le_of_newArray hplan) _
  | arraySet _ ha _ => exact h.update ha Array.size_setIfInBounds
  | refcount count _ _ ha => exact h.update ha rfl
  | release _ _ ha => exact h.release ha
  | ret => exact (leave_heap (m := m.advanced) _).symm ▸ h
  | _ => exact h

theorem short_of_step (hv : m.heap.Valid) (h : m.heap.Short) : (m.step program).2.heap.Short := by
  by_cases running : m.status = .running
  · have ht := step_transition program running
    generalize m.step program = out at ht ⊢
    cases ht with
    | lost | exhausted | refused => exact h
    | ended =>
        rw [stepped_snd, leave_heap]
        exact h
    | performed _ _ hp =>
        obtain ⟨op, -, hplan⟩ := bind_eq_ok.mp hp
        rw [stepped_snd]
        exact short_of_plan hv h hplan
  · rw [step_of_not_running running]
    exact h

theorem short_of_obey (hv : m.heap.Valid) (h : m.heap.Short) :
    ∀ request : Request, (m.obey program request).heap.Short
  | .start index => (start_heap (m := m) program index).symm ▸ h
  | .step => short_of_step hv h

/-- Whatever is asked of a machine, with whatever programs, its arrays stay short. -/
theorem short_of_requests {limits : Limits} (requests : List (Program × Request)) {m : Machine}
    (hsafe : m.Safe limits) (h : m.heap.Short) :
    (requests.foldl (fun m request => m.obey request.1 request.2) m).heap.Short := by
  have hkept := holds_after (P := fun m => m.Safe limits ∧ m.heap.Short)
    (fun _ request h => ⟨h.1.obey request, short_of_obey h.1.heap h.2 request⟩) requests ⟨hsafe, h⟩
  exact hkept.2

end Machine

/-! ## Reading an array -/

theorem Registers.array_of_read {registers : Registers} {r : UInt8} {handle : Handle}
    (h : registers.read r = .array handle) (name : String) :
    registers.array name r = .ok handle := by
  simp only [Registers.array, Registers.expect, h]

theorem Registers.int_of_read {registers : Registers} {r : UInt8} {n : Int32}
    (h : registers.read r = .i32 n) (name : String) : registers.int name r = .ok n := by
  simp only [Registers.int, Registers.expect, h]

namespace Machine

variable {program : Program} {m : Machine} {handle : Handle} {array : HeapArray}

theorem lengthOf_eq (ha : m.heap.get? handle = some array) :
    m.lengthOf handle = .ok (.i32 (Int32.ofNat array.elements.size)) := by
  simp only [lengthOf, Heap.length, Heap.get_of_live ha]
  rfl

/-- Both ways to ask for a length plan the same. -/
theorem plan_arrayLen (ha : m.heap.get? handle = some array) {fields : Fields}
    (hr : m.registers.read fields.rb = .array handle) :
    m.plan program .arrayLen fields
      = .ok (.setRegister fields.ra (.i32 (Int32.ofNat array.elements.size))) := by
  simp only [plan, Registers.array_of_read hr, lengthOf_eq ha, bind, Except.bind]
  rfl

theorem plan_len (ha : m.heap.get? handle = some array) {fields : Fields}
    (hc : m.registers.read fields.rb = .function (.native .len))
    (hr : m.registers.read fields.rc = .array handle) :
    m.plan program .call fields
      = .ok (.setRegister fields.ra (.i32 (Int32.ofNat array.elements.size))) := by
  simp only [plan, Registers.function_of_read hc, planNative, checkArguments_native,
    Registers.array_of_read hr,
    lengthOf_eq ha, bind, Except.bind]
  rfl

/-- A read plans what the check of its index says. -/
theorem plan_arrayGet (ha : m.heap.get? handle = some array) {fields : Fields} {index : Int32}
    (hr : m.registers.read fields.rb = .array handle)
    (hi : m.registers.read fields.rc = .i32 index) :
    m.plan program .arrayGet fields
      = (Heap.checkIndex index.toInt array.elements.size).map fun place =>
          .setRegister fields.ra (array.elements.getD place Value.zero) := by
  simp only [plan, Registers.array_of_read hr, Registers.int_of_read hi, Heap.load,
    Heap.get_of_live ha, bind, Except.bind]
  cases Heap.checkIndex index.toInt array.elements.size <;> rfl

/-- A write plans what the check of its index says. -/
theorem plan_arraySet (ha : m.heap.get? handle = some array) {fields : Fields} {index : Int32}
    (hr : m.registers.read fields.ra = .array handle)
    (hi : m.registers.read fields.rb = .i32 index) :
    m.plan program .arraySet fields
      = (Heap.checkIndex index.toInt array.elements.size).map fun place =>
          .setElement handle place (m.registers.read fields.rc) := by
  simp only [plan, Registers.array_of_read hr, Registers.int_of_read hi, Heap.locate, Heap.length,
    Heap.get_of_live ha, bind, Except.bind, pure, Except.pure]
  cases Heap.checkIndex index.toInt array.elements.size <;> rfl

/-! ## Lengths and indices -/

/-- A step that checks an index against the length of an array: it succeeds exactly if the index is
one of the array, and then the place of the element decides what comes next; else the fault names
index and length. -/
structure ChecksIndex (program : Program) (m : Machine) (i : Instruction) (index : Int32)
    (length : Nat) (next : Nat → Machine) : Prop where
  succeeds : (∀ fault, (m.step program).1 ≠ .fault fault) ↔
    0 ≤ index.toInt ∧ index.toInt < length
  inside : 0 ≤ index.toInt ∧ index.toInt < length →
    m.step program = (.running, next index.toInt.toNat)
  outside : ¬ (0 ≤ index.toInt ∧ index.toInt < length) →
    (m.step program).1 = .fault (m.faultAt program (some i) (.indexOutOfRange index.toInt length))

/-- An instruction that plans what the check of its index says makes such a step. -/
theorem Attempts.checksIndex {i : Instruction} {op : Opcode} (h : m.Attempts program i op)
    {index : Int32} {length : Nat} {effect : Nat → Effect}
    (hplan : m.plan program op (i.fields op.layout)
      = (Heap.checkIndex index.toInt length).map effect)
    (hstatus : ∀ place, ((effect place).apply m.advanced).status = m.status) :
    m.ChecksIndex program i index length fun place => (effect place).apply m.advanced := by
  have inside : 0 ≤ index.toInt ∧ index.toInt < length →
      m.step program = (.running, (effect index.toInt.toNat).apply m.advanced) := by
    intro hin
    rw [Heap.checkIndex, if_pos hin] at hplan
    exact h.step_of_plan hplan (hstatus _)
  have outside : ¬ (0 ≤ index.toInt ∧ index.toInt < length) → (m.step program).1
      = .fault (m.faultAt program (some i) (.indexOutOfRange index.toInt length)) := by
    intro hout
    rw [Heap.checkIndex, if_neg hout] at hplan
    exact h.step_of_error hplan
  refine ⟨⟨?_, ?_⟩, inside, outside⟩
  · intro hok
    by_contra hout
    exact hok _ (outside hout)
  · intro hin fault hfault
    rw [inside hin] at hfault
    cases hfault

/-- **Lengths and indices of arrays agree.**  Let a machine have got into some state by any starts
and steps, with any programs and limits, and let an array be live there.  Its length is a 32-bit
number `n` that is not negative.  The instruction and the native function that ask for the length
both give `n`, and an element is read or written exactly if its index is at least zero and below
`n`. -/
theorem array_lengths_agree (memory : Memory) (limits : Limits)
    (requests : List (Program × Request)) (program : Program) {handle : Handle} {array : HeapArray} :
    let m := requests.foldl (fun m request => m.obey request.1 request.2)
      (Machine.new memory limits)
    m.heap.get? handle = some array →
    array.elements.size ≤ 2 ^ 31 - 1 ∧
    ∃ n : Int32, 0 ≤ n.toInt ∧ n.toInt = array.elements.size ∧
      (∀ i : Instruction, m.Attempts program i .arrayLen →
        let fields := i.fields Opcode.arrayLen.layout
        m.registers.read fields.rb = .array handle →
        m.step program = (.running, m.advanced.write fields.ra (.i32 n))) ∧
      (∀ i : Instruction, m.Attempts program i .call →
        let fields := i.fields Opcode.call.layout
        m.registers.read fields.rb = .function (.native .len) →
        m.registers.read fields.rc = .array handle →
        m.step program = (.running, m.advanced.write fields.ra (.i32 n))) ∧
      (∀ (i : Instruction) (index : Int32), m.Attempts program i .arrayGet →
        let fields := i.fields Opcode.arrayGet.layout
        m.registers.read fields.rb = .array handle →
        m.registers.read fields.rc = .i32 index →
        m.ChecksIndex program i index array.elements.size fun place =>
          m.advanced.write fields.ra (array.elements.getD place Value.zero)) ∧
      (∀ (i : Instruction) (index : Int32), m.Attempts program i .arraySet →
        let fields := i.fields Opcode.arraySet.layout
        m.registers.read fields.ra = .array handle →
        m.registers.read fields.rb = .i32 index →
        m.ChecksIndex program i index array.elements.size fun place =>
          { m.advanced with
            heap := m.heap.setElement handle place (m.registers.read fields.rc) }) := by
  intro m ha
  have hshort : array.elements.size ≤ 2 ^ 31 - 1 :=
    short_of_requests requests (Safe.new memory limits) (Heap.Short.empty _ _) handle array ha
  have hn : (Int32.ofNat array.elements.size).toInt = array.elements.size :=
    Int32.toInt_ofNat_of_lt (by omega)
  refine ⟨hshort, Int32.ofNat array.elements.size, by omega, hn, ?_, ?_, ?_, ?_⟩
  · intro i hi fields hr
    exact hi.step_of_plan (plan_arrayLen ha hr) rfl
  · intro i hi fields hc hr
    exact hi.step_of_plan (plan_len ha hc hr) rfl
  · intro i index hi fields hr hx
    exact hi.checksIndex (plan_arrayGet ha hr hx) fun _ => rfl
  · intro i index hi fields hr hx
    exact hi.checksIndex (plan_arraySet ha hr hx) fun _ => rfl

/-- Makes an array of one element and reads it at the index one. -/
def readingBeyond : Function :=
  ⟨"main", ⟨"", 0⟩, 0, 0, 3, #[⟨0x02000001⟩, ⟨0x70010000⟩, ⟨0x71020100⟩]⟩

def beyondEnd : Program := { Program.empty with functions := #[readingBeyond] }

/-- The first index that an array does not have is refused. -/
theorem array_lengths_agree_beyondEnd :
    let m := [(beyondEnd, Request.start 0), (beyondEnd, .step), (beyondEnd, .step)].foldl
      (fun m request => m.obey request.1 request.2) (Machine.new .unbounded Limits.default)
    (m.heap.get? ⟨0, 0⟩).map HeapArray.elements = some #[.i32 1] ∧
    m.Attempts beyondEnd ⟨0x71020100⟩ .arrayGet ∧
    (m.step beyondEnd).1
      = .fault (m.faultAt beyondEnd (some ⟨0x71020100⟩) (.indexOutOfRange 1 1)) := by
  intro m
  have state : m.status = .running ∧ m.function = 0 ∧ m.pc = 2 ∧ m.isExhausted = false ∧
      m.registers.read 1 = .array ⟨0, 0⟩ ∧ m.registers.read 0 = .i32 1 := by decide +kernel
  obtain ⟨running, function, pc, budget, harray, hindex⟩ := state
  have elements : (m.heap.get? ⟨0, 0⟩).map HeapArray.elements = some #[.i32 1] := by
    decide +kernel
  obtain ⟨array, ha, hsize⟩ := Option.map_eq_some_iff.mp elements
  have hi : m.Attempts beyondEnd ⟨0x71020100⟩ .arrayGet := by
    refine ⟨running, ⟨readingBeyond, ?_, ?_⟩, budget, Instruction.opcode_of_byte rfl⟩
    · rw [function]; rfl
    · rw [pc]; rfl
  obtain ⟨-, n, -, -, -, -, hget, -⟩ := array_lengths_agree .unbounded Limits.default _ beyondEnd ha
  have hfault := (hget ⟨0x71020100⟩ 1 hi harray hindex).outside
  rw [hsize] at hfault
  exact ⟨elements, hi, hfault (by decide)⟩

end Machine

end RegisterMachine
