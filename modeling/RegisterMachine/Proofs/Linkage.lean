import Mathlib
import RegisterMachine.Proofs.Assembly
import RegisterMachine.Proofs.Faults
import RegisterMachine.Proofs.Heap
import RegisterMachine.Proofs.Registers

/-!
# Assembled programs find what they name

A program is linked if every word of it has an opcode and finds the constant or the function that it
loads.  What the assembler makes is linked (`Assembly.linked_of_assemble`), since each word says
what its line says.

A call finds its callee in a register, so that the words alone do not settle it.  Functions are not
made while a program runs: an effect brings no function that it does not carry
(`Effect.holds_apply`), and an instruction carries only functions that the machine holds or the
program has (`Machine.plan_carries`).  So a machine stays linked from step to step, and the errors
that are left are those of the data (`Machine.plan_checks`).
-/

namespace RegisterMachine

/-! ## Where functions are held -/

/-- The places where a machine holds values: registers, saved windows, globals and live arrays. -/
inductive Machine.Holds (m : Machine) : Value → Prop
  | register {value : Value} (r : UInt8) : m.registers.read r = value → Holds m value
  | saved {frame : Frame} {value : Value} : frame ∈ m.frames → value ∈ frame.saved → Holds m value
  | global {value : Value} : value ∈ m.globals → Holds m value
  | element {slot : HeapSlot} {array : HeapArray} {value : Value} : slot ∈ m.heap.slots →
      slot.array = some array → value ∈ array.elements → Holds m value

/-- The values that an effect puts somewhere. -/
def Effect.Carries (value : Value) : Effect → Prop
  | .setRegister _ v | .setGlobal _ v | .allocate _ _ v | .setElement _ _ v | .print _ _ v
  | .leave v => v = value
  | .enter _ _ arguments _ saved => value ∈ arguments ∨ value ∈ saved
  | .setRefcount .. | .release _ | .jump _ | .proceed => False

/-! ## Where a value comes from -/

namespace Machine.Holds

variable {m m' : Machine} {value : Value} {P : Prop}

/-- Machines that hold the same in all places. -/
theorem of_same (h : m'.Holds value) (hregisters : m'.registers = m.registers)
    (hframes : m'.frames = m.frames) (hglobals : m'.globals = m.globals)
    (hheap : m'.heap = m.heap) : m.Holds value := by
  cases h with
  | register r hr => exact .register r (hregisters ▸ hr)
  | saved hframe hv => exact .saved (hframes ▸ hframe) hv
  | global hv => exact .global (hglobals ▸ hv)
  | element hslot harray hv => exact .element (hheap ▸ hslot) harray hv

/-- Machines that differ in their registers, if at all. -/
theorem of_registers (h : m'.Holds value) (hframes : m'.frames = m.frames)
    (hglobals : m'.globals = m.globals) (hheap : m'.heap = m.heap)
    (hregisters : ∀ r, m'.registers.read r = value → m.Holds value ∨ P) : m.Holds value ∨ P := by
  cases h with
  | register r hr => exact hregisters r hr
  | saved hframe hv => exact .inl (.saved (hframes ▸ hframe) hv)
  | global hv => exact .inl (.global (hglobals ▸ hv))
  | element hslot harray hv => exact .inl (.element (hheap ▸ hslot) harray hv)

/-- Machines that differ in their heaps, if at all. -/
theorem of_heap (h : m'.Holds value) (hregisters : m'.registers = m.registers)
    (hframes : m'.frames = m.frames) (hglobals : m'.globals = m.globals)
    (hheap : ∀ slot ∈ m'.heap.slots, ∀ array, slot.array = some array → value ∈ array.elements →
      m.Holds value ∨ P) : m.Holds value ∨ P := by
  cases h with
  | register r hr => exact .inl (.register r (hregisters ▸ hr))
  | saved hframe hv => exact .inl (.saved (hframes ▸ hframe) hv)
  | global hv => exact .inl (.global (hglobals ▸ hv))
  | element hslot harray hv => exact hheap _ hslot _ harray hv

/-- A value in a register that may have been written was there or was written. -/
theorem of_write {registers : Registers} {r s : UInt8} {v : Value}
    (h : (registers.write r v).read s = value) : registers.read s = value ∨ v = value := by
  rw [Registers.read_write] at h
  split at h
  · exact .inr h
  · exact .inl h

theorem mem_modify {slots : Array HeapSlot} {i : Nat} {f : HeapSlot → HeapSlot} {slot : HeapSlot}
    (h : slot ∈ slots.modify i f) : ∃ old ∈ slots, slot = old ∨ slot = f old := by
  obtain ⟨j, hj⟩ := Array.mem_iff_getElem?.mp h
  rw [Array.getElem?_modify] at hj
  split at hj
  · obtain ⟨old, hold, rfl⟩ := Option.map_eq_some_iff.mp hj
    exact ⟨old, Array.mem_of_getElem? hold, .inr rfl⟩
  · exact ⟨slot, Array.mem_of_getElem? hj, .inl rfl⟩

/-- A new array holds nothing but what it was filled with. -/
theorem of_place {size : Nat} {fill : Value} {slot : HeapSlot} {array : HeapArray}
    (hslot : slot ∈ (m.heap.place size fill).2.slots) (harray : slot.array = some array)
    (hv : value ∈ array.elements) : m.Holds value ∨ fill = value := by
  have hnew : some (⟨1, Array.replicate size fill⟩ : HeapArray) = some array → fill = value := by
    intro heq
    cases heq
    exact (Array.mem_replicate.mp hv).2.symm
  rw [Heap.place] at hslot
  cases hfree : m.heap.free with
  | nil =>
      simp only [hfree] at hslot
      rcases Array.mem_push.mp hslot with hslot | rfl
      · exact .inl (.element hslot harray hv)
      · exact .inr (hnew harray)
  | cons i rest =>
      simp only [hfree] at hslot
      obtain ⟨old, hold, rfl | rfl⟩ := mem_modify hslot
      · exact .inl (.element hold harray hv)
      · exact .inr (hnew harray)

/-- An array that was changed holds what it held, if all that the change brings in is `P`. -/
theorem of_update {handle : Handle} {change : HeapArray → HeapArray}
    (hchange : ∀ old : HeapArray, value ∈ (change old).elements → value ∈ old.elements ∨ P)
    {slot : HeapSlot} {array : HeapArray} (hslot : slot ∈ (m.heap.update handle change).slots)
    (harray : slot.array = some array) (hv : value ∈ array.elements) : m.Holds value ∨ P := by
  simp only [Heap.update] at hslot
  obtain ⟨old, hold, rfl | rfl⟩ := mem_modify hslot
  · exact .inl (.element hold harray hv)
  · obtain ⟨before, hbefore, rfl⟩ := Option.map_eq_some_iff.mp harray
    rcases hchange before hv with hv | hp
    · exact .inl (.element hold hbefore hv)
    · exact .inr hp

theorem mem_of_mem_pop {frames : Array Frame} {frame : Frame} (h : frame ∈ frames.pop) :
    frame ∈ frames := by
  obtain ⟨i, hi⟩ := Array.mem_iff_getElem?.mp h
  rw [Array.getElem?_pop] at hi
  split at hi
  · exact Array.mem_of_getElem? hi
  · cases hi

/-- To go back to the caller brings the saved window and the returned value. -/
theorem of_leave {returned : Option Value} (h : (m.leave returned).Holds value) :
    m.Holds value ∨ returned = some value := by
  cases hback : m.frames.back? with
  | none =>
      simp only [leave, hback] at h
      exact .inl (h.of_same rfl rfl rfl rfl)
  | some frame =>
      have hrestored : ∀ r, (m.registers.restore frame.saved).read r = value → m.Holds value := by
        intro r hr
        rw [Registers.read_restore] at hr
        cases hsaved : frame.saved[r.toNat]? with
        | none => rw [hsaved] at hr; exact .register r hr
        | some v =>
            rw [hsaved] at hr
            cases hr
            exact .saved (Array.mem_of_back? hback) (Array.mem_of_getElem? hsaved)
      rw [leave_of_back hback] at h
      cases h with
      | register r hr =>
          cases returned with
          | none => exact .inl (hrestored r hr)
          | some v =>
              rcases of_write hr with hr | rfl
              · exact .inl (hrestored r hr)
              · exact .inr rfl
      | saved hframe hv => exact .inl (.saved (mem_of_mem_pop hframe) hv)
      | global hv => exact .inl (.global hv)
      | element hslot harray hv => exact .inl (.element hslot harray hv)

/-- A callee gets its arguments, and the window of the caller is saved. -/
theorem of_enter {callee : UInt16} {size : Nat} {arguments : Array Value} {destination : UInt8}
    {saved : Array Value} (hvalue : value ≠ Value.zero)
    (h : ((Effect.enter callee size arguments destination saved).apply m).Holds value) :
    m.Holds value ∨ value ∈ arguments ∨ value ∈ saved := by
  cases h with
  | register r hr =>
      change (m.registers.enter size arguments).read r = value at hr
      rw [Registers.read_enter] at hr
      cases hargument : arguments[r.toNat]? with
      | some v =>
          rw [hargument] at hr
          cases hr
          exact .inr (.inl (Array.mem_of_getElem? hargument))
      | none =>
          rw [hargument, Option.getD_none] at hr
          split at hr
          · exact absurd hr.symm hvalue
          · exact .inl (.register r hr)
  | saved hframe hv =>
      rcases Array.mem_push.mp hframe with hframe | rfl
      · exact .inl (.saved hframe hv)
      · exact .inr (.inr hv)
  | global hv => exact .inl (.global hv)
  | element hslot harray hv => exact .inl (.element hslot harray hv)

end Machine.Holds

/-- **An effect makes no function.**  A compiled function that a machine holds after an effect was
held before, or the effect carries it. -/
theorem Effect.holds_apply {m : Machine} {effect : Effect} {index : UInt16}
    (h : (effect.apply m).Holds (.function (.compiled index))) :
    m.Holds (.function (.compiled index)) ∨ effect.Carries (.function (.compiled index)) := by
  cases effect with
  | setRegister r v =>
      exact h.of_registers rfl rfl rfl fun s hs =>
        (Machine.Holds.of_write hs).imp_left (.register s)
  | setGlobal slot v =>
      cases h with
      | register r hr => exact .inl (.register r hr)
      | saved hframe hv => exact .inl (.saved hframe hv)
      | global hv =>
          rcases Array.mem_or_eq_of_mem_setIfInBounds hv with hv | hv
          · exact .inl (.global hv)
          · exact .inr hv.symm
      | element hslot harray hv => exact .inl (.element hslot harray hv)
  | allocate r size fill =>
      cases h with
      | register s hs =>
          rcases Machine.Holds.of_write hs with hs | hs
          · exact .inl (.register s hs)
          · cases hs
      | saved hframe hv => exact .inl (.saved hframe hv)
      | global hv => exact .inl (.global hv)
      | element hslot harray hv => exact Machine.Holds.of_place hslot harray hv
  | setElement handle place v =>
      refine h.of_heap rfl rfl rfl fun _ hslot _ harray hv =>
        Machine.Holds.of_update ?_ hslot harray hv
      intro old hv
      rcases Array.mem_or_eq_of_mem_setIfInBounds hv with hv | hv
      · exact .inl hv
      · exact .inr hv.symm
  | setRefcount handle count =>
      refine h.of_heap rfl rfl rfl fun _ hslot _ harray hv =>
        Machine.Holds.of_update ?_ hslot harray hv
      intro old hv
      exact .inl hv
  | release handle =>
      refine h.of_heap rfl rfl rfl fun slot hslot array harray hv => ?_
      simp only [apply, Heap.release] at hslot
      obtain ⟨old, hold, rfl | rfl⟩ := Machine.Holds.mem_modify hslot
      · exact .inl (.element hold harray hv)
      · cases harray
  | jump target => exact .inl (h.of_same rfl rfl rfl rfl)
  | proceed => exact .inl h
  | print line r v =>
      exact h.of_registers rfl rfl rfl fun s hs =>
        (Machine.Holds.of_write hs).imp_left (.register s)
  | enter callee size arguments destination saved =>
      exact Machine.Holds.of_enter (fun hzero => by cases hzero) h
  | leave v =>
      have h : (m.leave (some v)).Holds (.function (.compiled index)) := h
      exact h.of_leave.imp_right Option.some.inj

/-! ## What an instruction carries -/

/-- Values that are no function of a program. -/
def Value.isPlain : Value → Bool
  | .function (.compiled _) => false
  | _ => true

namespace Machine

variable {program : Program} {m : Machine} {fields : Fields} {effect : Effect} {index : UInt16}

theorem plain_planArith {α : Type} [Numeric α] (hα : ∀ a : α, (Numeric.toValue a).isPlain = true)
    {op : Arith} {name : String} {r : UInt8} {value : Value}
    (h : m.planArith α op name fields = .ok (.setRegister r value)) : value.isPlain = true := by
  obtain ⟨a, -, h⟩ := bind_eq_ok.mp h
  obtain ⟨b, -, h⟩ := bind_eq_ok.mp h
  obtain ⟨c, -, h⟩ := bind_eq_ok.mp h
  cases h
  exact hα c

theorem plain_planNeg {α : Type} [Numeric α] (hα : ∀ a : α, (Numeric.toValue a).isPlain = true)
    {name : String} {r : UInt8} {value : Value}
    (h : m.planNeg α name fields = .ok (.setRegister r value)) : value.isPlain = true := by
  obtain ⟨a, -, h⟩ := bind_eq_ok.mp h
  cases h
  exact hα _

theorem plain_planCompare {α : Type} [Numeric α] {op : Comparison} {name : String} {r : UInt8}
    {value : Value} (h : m.planCompare α op name fields = .ok (.setRegister r value)) :
    value.isPlain = true := by
  obtain ⟨a, -, h⟩ := bind_eq_ok.mp h
  obtain ⟨b, -, h⟩ := bind_eq_ok.mp h
  cases h
  rfl

theorem plain_constant {type : NumType} {place : UInt16} {value : Value}
    (h : constant program type place = .ok value) : value.isPlain = true := by
  cases type <;> obtain ⟨_, -, h⟩ := bind_eq_ok.mp h <;> cases h <;> rfl

theorem plain_converted {conversion : Conversion} {name : String} {r : UInt8} {value : Value}
    (h : m.converted conversion name r = .ok value) : value.isPlain = true := by
  cases conversion <;> obtain ⟨_, -, h⟩ := bind_eq_ok.mp h <;> cases h <;> rfl

theorem plain_lengthOf {handle : Handle} {value : Value} (h : m.lengthOf handle = .ok value) :
    value.isPlain = true := by
  obtain ⟨_, -, h⟩ := bind_eq_ok.mp h
  cases h
  rfl

/-- An element that was loaded is held in an array. -/
theorem holds_of_load {handle : Handle} {i : Int} {value : Value}
    (h : m.heap.load handle i = .ok value) : m.Holds value := by
  obtain ⟨array, harray, h⟩ := bind_eq_ok.mp h
  obtain ⟨place, hplace, h⟩ := bind_eq_ok.mp h
  cases h
  obtain ⟨slot, hslot, -, hsome⟩ := Heap.get?_eq_some.mp (Heap.get?_of_get harray)
  have hlt := Heap.checkIndex_lt hplace
  refine .element (Array.mem_of_getElem? hslot) hsome ?_
  rw [Array.getD_eq_getD_getElem?, Array.getElem?_eq_getElem hlt]
  exact Array.getElem_mem hlt

/-- A part of the register file is held in registers. -/
theorem holds_of_extract {start stop : Nat} {value : Value}
    (h : value ∈ m.registers.toArray.extract start stop) : m.Holds value := by
  obtain ⟨k, hk, hvalue⟩ := Array.mem_extract_iff_getElem.mp h
  rw [Vector.size_toArray] at hk
  have hr : (UInt8.ofNat (start + k)).toNat = start + k :=
    UInt8.toNat_ofNat_of_lt (show start + k < 256 by omega)
  have hread := Registers.getElem?_toArray m.registers (UInt8.ofNat (start + k))
  rw [hr] at hread
  refine .register (UInt8.ofNat (start + k)) ?_
  rw [← hvalue, ← Option.some.injEq, ← hread, ← Array.getElem?_eq_getElem]

/-- An opcode that yields a value yields a function only if it moves or loads one. -/
theorem plan_yields {op : Opcode} {r : UInt8} {value : Value} (hop : op.yields = true)
    (h : m.plan program op fields = .ok (.setRegister r value)) :
    value.isPlain = true ∨ m.Holds value ∨
      ∃ index target, value = .function (.compiled index) ∧
        program.function? index = some target := by
  cases op with
  | loadBool | loadI32 | loadI64 => cases h; exact .inl rfl
  | loadConst type =>
      obtain ⟨v, hv, h⟩ := bind_eq_ok.mp h
      cases h
      exact .inl (plain_constant hv)
  | loadFunction =>
      simp only [plan] at h
      cases ht : program.function? fields.imm with
      | none => rw [ht] at h; cases h
      | some target =>
          rw [ht] at h
          cases h
          exact .inr (.inr ⟨_, target, rfl, ht⟩)
  | loadNative =>
      obtain ⟨name, -, h⟩ := bind_eq_ok.mp h
      cases hn : Native.ofName? name with
      | none => rw [hn] at h; cases h
      | some native =>
          rw [hn] at h
          cases h
          exact .inl rfl
  | loadGlobal =>
      obtain ⟨slot, -, h⟩ := bind_eq_ok.mp h
      cases h
      rw [Array.getD_eq_getD_getElem?]
      cases hslot : m.globals[slot]? with
      | none => exact .inl rfl
      | some v => exact .inr (.inl (.global (Array.mem_of_getElem? hslot)))
  | move => cases h; exact .inr (.inl (.register fields.rb rfl))
  | convert conversion =>
      obtain ⟨v, hv, h⟩ := bind_eq_ok.mp h
      cases h
      exact .inl (plain_converted hv)
  | arith op type =>
      cases type with
      | i32 => exact .inl (plain_planArith (fun _ => rfl) h)
      | i64 => exact .inl (plain_planArith (fun _ => rfl) h)
      | f32 => exact .inl (plain_planArith (fun _ => rfl) h)
      | f64 => exact .inl (plain_planArith (fun _ => rfl) h)
  | neg type =>
      cases type with
      | i32 => exact .inl (plain_planNeg (fun _ => rfl) h)
      | i64 => exact .inl (plain_planNeg (fun _ => rfl) h)
      | f32 => exact .inl (plain_planNeg (fun _ => rfl) h)
      | f64 => exact .inl (plain_planNeg (fun _ => rfl) h)
  | compare op type => cases type <;> exact .inl (plain_planCompare h)
  | not =>
      obtain ⟨b, -, h⟩ := bind_eq_ok.mp h
      cases h
      exact .inl rfl
  | connect op =>
      obtain ⟨a, -, h⟩ := bind_eq_ok.mp h
      obtain ⟨b, -, h⟩ := bind_eq_ok.mp h
      cases h
      exact .inl rfl
  | arrayGet =>
      obtain ⟨handle, -, h⟩ := bind_eq_ok.mp h
      obtain ⟨i, -, h⟩ := bind_eq_ok.mp h
      obtain ⟨v, hv, h⟩ := bind_eq_ok.mp h
      cases h
      exact .inr (.inl (holds_of_load hv))
  | arrayLen =>
      obtain ⟨handle, -, h⟩ := bind_eq_ok.mp h
      obtain ⟨v, hv, h⟩ := bind_eq_ok.mp h
      cases h
      exact .inl (plain_lengthOf hv)
  | _ => cases hop

/-- A native function gives no function of the program back, unless it prints one. -/
theorem plain_planNative {native : Native} {r : UInt8} {value : Value}
    (h : m.planNative native fields = .ok (.setRegister r value)) : value.isPlain = true := by
  obtain ⟨⟨⟩, -, h⟩ := bind_eq_ok.mp h
  cases native with
  | len =>
      obtain ⟨handle, -, h⟩ := bind_eq_ok.mp h
      obtain ⟨v, hv, h⟩ := bind_eq_ok.mp h
      cases h
      exact plain_lengthOf hv
  | sqrt =>
      obtain ⟨x, -, h⟩ := bind_eq_ok.mp h
      cases h
      rfl
  | print => cases h

/-- A compiled function that an instruction carries was held by the machine, or it is the function
of the program that the instruction loads. -/
theorem plan_carries {op : Opcode} (h : m.plan program op fields = .ok effect)
    (hc : effect.Carries (.function (.compiled index))) :
    m.Holds (.function (.compiled index)) ∨ ∃ target, program.function? index = some target := by
  cases plan_planned h with
  | value v hop =>
      cases hc
      rcases plan_yields hop h with hplain | hholds | ⟨_, target, hvalue, ht⟩
      · cases hplain
      · exact .inl hholds
      · cases hvalue
        exact .inr ⟨target, ht⟩
  | @native native v hn =>
      cases hc
      simp only [plan, Registers.function_of_read hn] at h
      cases plain_planNative h
  | storeGlobal _ => exact .inl (.register _ hc)
  | newArray _ => exact .inl (.register _ hc)
  | arraySet _ _ _ => exact .inl (.register _ hc)
  | print _ hv => exact .inl (.register _ (hv.trans hc))
  | enter _ _ _ _ => exact .inl (hc.elim holds_of_extract holds_of_extract)
  | ret => exact .inl (.register _ hc)
  | refcount | release | jump | proceed => cases hc

end Machine

/-! ## Linked programs -/

/-- A word has an opcode, and what it names is there.  The function that a call enters is not named
by the word but held by the machine. -/
def Program.Links (program : Program) (word : Instruction) : Prop :=
  ∃ op, word.opcode = .ok op ∧
    (op ≠ .call → ∀ m, Machine.Resolves program m (word.fields op.layout) op)

/-- Every name in a program is there. -/
structure Program.Linked (program : Program) : Prop where
  words : ∀ function ∈ program.functions, ∀ word ∈ function.code, program.Links word
  entry : ∃ function, program.function? program.entry = some function

namespace Assembly

theorem Interned.constant {α : Type} [DecidableEq α] [Hashable α] [Program.Pooled α]
    {program : Program} {value : α} {field : UInt32}
    (h : Interned (Program.Pooled.table program) value field) :
    program.constant field.toUInt16 = .ok value := by
  obtain ⟨index, hindex, rfl⟩ := h
  rw [Program.constant, ConstantTable.fetch, UInt16.toUInt16_toUInt32, hindex]

/-- A word that says what a line says names nothing that is not there. -/
theorem Encodes.links {program : Program} {L : String → Nat → Prop} {line : Token × List Token}
    {word : Instruction} (h : Encodes program program.NamedAt L line word) :
    program.Links word := by
  obtain ⟨op, -, hop, hoperands⟩ := h
  refine ⟨op, hop, fun hcall m => ?_⟩
  cases op with
  | loadConst type =>
      obtain ⟨token, -, hd⟩ := getElem?_of_forall₂ hoperands (k := 1) rfl
      cases type with
      | i32 => obtain ⟨n, -, hi⟩ := hd; exact ⟨.i32 n, bind_eq_ok.mpr ⟨n, hi.constant, rfl⟩⟩
      | i64 => obtain ⟨n, -, hi⟩ := hd; exact ⟨.i64 n, bind_eq_ok.mpr ⟨n, hi.constant, rfl⟩⟩
      | f32 => obtain ⟨x, -, hi⟩ := hd; exact ⟨.f32 x, bind_eq_ok.mpr ⟨x, hi.constant, rfl⟩⟩
      | f64 => obtain ⟨x, -, hi⟩ := hd; exact ⟨.f64 x, bind_eq_ok.mpr ⟨x, hi.constant, rfl⟩⟩
  | loadFunction =>
      obtain ⟨token, -, hd⟩ := getElem?_of_forall₂ hoperands (k := 1) rfl
      obtain ⟨index, ⟨target, ht, -⟩, hfield⟩ := hd
      refine ⟨target, ?_⟩
      rw [← ht, ← UInt16.toUInt16_toUInt32 index, ← hfield]
      rfl
  | loadNative =>
      obtain ⟨token, -, hd⟩ := getElem?_of_forall₂ hoperands (k := 1) rfl
      obtain ⟨s, -, hi⟩ := hd
      exact ⟨s, hi.constant⟩
  | call => exact absurd rfl hcall
  | _ => trivial

/-- **Assembled programs are linked.** -/
theorem linked_of_assemble {source file : String} {program : Program}
    (h : assemble source file = .ok program) : program.Linked := by
  obtain ⟨outline, -, hcompiled, -, hentry⟩ := assemble_eq_ok h
  refine ⟨fun function hfunction word hword => ?_, hentry⟩
  obtain ⟨block, -, hblock⟩ := exists_of_mem_right hcompiled (Array.mem_toList_iff.mpr hfunction)
  obtain ⟨line, -, hline⟩ := exists_of_mem_right hblock.code (Array.mem_toList_iff.mpr hword)
  exact hline.links

end Assembly

/-! ## Runs of linked programs -/

/-- Errors that can end the run of a linked program. -/
def Error.isRunError : Error → Bool
  | .budgetExhausted _ => true
  | error => error.isCheck

theorem Error.isRunError_of_isCheck {error : Error} (h : error.isCheck = true) :
    error.isRunError = true := by
  unfold Error.isRunError
  split
  · rfl
  · exact h

namespace Machine

/-- Every function that a machine stands in, goes back to or holds is there, and if it has faulted
then not for want of a name. -/
structure Linked (program : Program) (m : Machine) : Prop where
  function : ∃ function, program.function? m.function = some function
  callers : ∀ frame ∈ m.frames, ∃ function, program.function? frame.function = some function
  values : ∀ index, m.Holds (.function (.compiled index)) →
    ∃ target, program.function? index = some target
  status : ∀ fault, m.status = .faulted fault → fault.error.isRunError = true

variable {program : Program} {m : Machine}

/-- What the next instruction names is there. -/
theorem Linked.resolves (hp : program.Linked) (hm : m.Linked program) {f : Function}
    {i : Instruction} (hi : m.Fetches program f i) :
    ∃ op, i.opcode = .ok op ∧ Resolves program m (i.fields op.layout) op := by
  have hf : f ∈ program.functions := Array.mem_of_getElem? hi.function_eq
  have hword : i ∈ f.code := Array.mem_of_getElem? hi.instruction_eq
  obtain ⟨op, hop, hresolves⟩ := hp.words f hf i hword
  refine ⟨op, hop, ?_⟩
  by_cases hcall : op = .call
  · -- the callee is in a register, so the machine answers for it
    subst hcall
    exact fun callee hc => hm.values callee (.register _ hc)
  · exact hresolves hcall m

/-- A refused instruction of a linked program is refused for its data. -/
theorem Linked.isRunError_of_refused (hp : program.Linked) (hm : m.Linked program) {f : Function}
    {i : Instruction} {error : Error} (hi : m.Fetches program f i)
    (h : m.planWord program i = .error error) : error.isRunError = true := by
  obtain ⟨op, hop, hresolves⟩ := hm.resolves hp hi
  rw [planWord_of_opcode hop] at h
  exact Error.isRunError_of_isCheck (plan_checks hresolves error h)

/-- A machine that goes back to a caller stays linked. -/
theorem Linked.leave (hm : m.Linked program) (running : m.status = .running)
    {returned : Option Value}
    (hreturned : ∀ index, returned = some (.function (.compiled index)) →
      ∃ target, program.function? index = some target) :
    (m.leave returned).Linked program where
  function := by
    cases hback : m.frames.back? with
    | none => simp only [Machine.leave, hback]; exact hm.function
    | some frame =>
        rw [leave_of_back hback]
        exact hm.callers frame (Array.mem_of_back? hback)
  callers frame hframe := by
    rw [leave_frames] at hframe
    exact hm.callers frame (Holds.mem_of_mem_pop hframe)
  values index h := h.of_leave.elim (hm.values index) (hreturned index)
  status fault hfault := by
    cases hback : m.frames.back? with
    | none => simp only [Machine.leave, hback] at hfault; cases hfault
    | some frame =>
        rw [leave_of_back hback] at hfault
        exact absurd (running.symm.trans hfault) (by simp)

/-- A machine that carries an instruction out stays linked. -/
theorem Linked.perform (hm : m.Linked program) (running : m.status = .running) {op : Opcode}
    {fields : Fields} {effect : Effect} (h : m.plan program op fields = .ok effect) :
    (effect.apply m.advanced).Linked program := by
  have hadvanced : m.advanced.Linked program :=
    ⟨hm.function, hm.callers, fun index h => hm.values index (h.of_same rfl rfl rfl rfl), hm.status⟩
  have hcarried : ∀ index, effect.Carries (.function (.compiled index)) →
      ∃ target, program.function? index = some target := by
    intro index hc
    exact (plan_carries h hc).elim (hm.values index) id
  have hvalues : ∀ index, (effect.apply m.advanced).Holds (.function (.compiled index)) →
      ∃ target, program.function? index = some target := by
    intro index hholds
    exact (Effect.holds_apply hholds).elim (hadvanced.values index) (hcarried index)
  cases plan_planned h with
  | enter _ _ ht _ =>
      refine ⟨⟨_, ht⟩, fun frame hframe => ?_, hvalues, hm.status⟩
      rcases Array.mem_push.mp hframe with hframe | rfl
      · exact hm.callers frame hframe
      · exact hm.function
  | ret => exact hadvanced.leave running fun index hr => hcarried index (Option.some.inj hr)
  -- no other effect changes the function, the pending calls or the status
  | value | storeGlobal | newArray | arraySet | refcount | release | jump | proceed | native
  | print => exact ⟨hm.function, hm.callers, hvalues, hm.status⟩

/-- A machine that stops with an error of its data stays linked. -/
theorem Linked.fail (hm : m.Linked program) {error : Error} (h : error.isRunError = true)
    (i : Option Instruction) (executed : Nat) :
    (Machine.fail { m with executed } program i error).2.Linked program where
  function := hm.function
  callers := hm.callers
  values index hholds := hm.values index (hholds.of_same rfl rfl rfl rfl)
  status fault hfault := by
    cases hfault
    exact h

/-- A step of a linked program keeps the machine linked. -/
theorem Linked.step (hp : program.Linked) (hm : m.Linked program) :
    (m.step program).2.Linked program := by
  by_cases running : m.status = .running
  · have ht := step_transition program running
    generalize m.step program = out at ht ⊢
    cases ht with
    | lost hlost =>
        -- a linked machine stands in a function
        obtain ⟨f, hf⟩ := hm.function
        cases hlost.symm.trans hf
    | ended _ _ =>
        rw [stepped_snd]
        exact hm.leave running fun _ h => nomatch h
    | exhausted _ _ => exact hm.fail rfl _ m.executed
    | refused hi _ herror => exact hm.fail (hm.isRunError_of_refused hp hi herror) _ _
    | performed hi _ heffect =>
        rw [stepped_snd]
        obtain ⟨op, hop, h⟩ := bind_eq_ok.mp heffect
        exact hm.perform running h
  · rw [step_of_not_running running]
    exact hm

/-- Along every run of a linked program the machine stays linked. -/
theorem Linked.run (hp : program.Linked) (hm : m.Linked program) (n : Nat) :
    (runFor program n m).Linked program := by
  induction n with
  | zero => exact hm
  | succ n ih =>
      rw [runFor_succ_last]
      exact ih.step hp

theorem read_initial (r : UInt8) : Registers.initial.read r = Value.zero := by
  simp [Registers.initial, Registers.read, Vector.get]

/-- A fresh machine holds nothing but zeros when it starts. -/
theorem linked_start (hp : program.Linked) (memory : Memory) (limits : Limits) :
    ((new memory limits).start program program.entry).Linked program := by
  obtain ⟨f, hf⟩ := hp.entry
  simp only [start, hf]
  refine ⟨⟨f, hf⟩, ?_, ?_, ?_⟩
  · intro frame hframe
    simp at hframe
  · intro index h
    cases h with
    | register r hr =>
        change Registers.initial.read r = _ at hr
        rw [read_initial] at hr
        cases hr
    | saved hframe _ => simp at hframe
    | global hv =>
        simp only [new, growGlobals, Array.empty_append, Array.mem_replicate] at hv
        cases hv.2
    | element hslot _ _ => simp [new, Heap.empty] at hslot
  · intro fault hfault
    cases hfault

/-- **Assembled programs are well formed at run time.**  Along every run of an assembled program
on a fresh machine, each compiled function that is held in a register, a saved window, a global or a
live array is a function of the program, and a fault is never for want of an opcode, a constant or a
function.  To run a program to its end is to make enough steps (`runFunction_eq_runFor`). -/
theorem assembled_run_well_formed {source file : String} {program : Program}
    (h : Assembly.assemble source file = .ok program) (memory : Memory) (limits : Limits)
    (n : Nat) :
    (∀ index, (runFor program n ((new memory limits).start program program.entry)).Holds
        (.function (.compiled index)) → index.toNat < program.functions.size) ∧
    ∀ fault, (runFor program n ((new memory limits).start program program.entry)).status
        = .faulted fault → fault.error.isRunError = true := by
  have hp := Assembly.linked_of_assemble h
  have hm := (linked_start hp memory limits).run hp n
  refine ⟨fun index hholds => ?_, hm.status⟩
  obtain ⟨target, ht⟩ := hm.values index hholds
  exact (Array.getElem?_eq_some_iff.mp ht).1

theorem assembled_run_well_formed_loop :
    Assembly.assemble Assembly.loopSource "loop" = .ok Assembly.loopProgram ∧
    (runFor Assembly.loopProgram 1 ((new .unbounded Limits.default).start Assembly.loopProgram
      Assembly.loopProgram.entry)).Holds (.function (.compiled 1)) ∧
    ∀ memory limits n,
      (∀ index, (runFor Assembly.loopProgram n
          ((new memory limits).start Assembly.loopProgram Assembly.loopProgram.entry)).Holds
          (.function (.compiled index)) →
        index.toNat < Assembly.loopProgram.functions.size) ∧
      ∀ fault, (runFor Assembly.loopProgram n
          ((new memory limits).start Assembly.loopProgram Assembly.loopProgram.entry)).status
          = .faulted fault → fault.error.isRunError = true :=
  ⟨Assembly.assemble_loop, .register 0 (by decide +kernel),
    assembled_run_well_formed Assembly.assemble_loop⟩

end Machine

end RegisterMachine
