import Mathlib
import RegisterMachine.Proofs.Access
import RegisterMachine.Proofs.Decode
import RegisterMachine.Proofs.HeapHistory

/-!
# What an instruction leaves alone

An instruction that stays in its function touches little: one register, or one global, or the array
behind one handle, and the place where the machine stands.  `Footprint` lists what it may touch,
opcode by opcode; all else is as before.

Where the change is made was settled when the instruction was planned, so that each part of the
footprint is a case analysis over `Planned`.  That an array is reached by one handle only is a fact
about the heap, which holds because its parts fit together (`Heap.Valid`), and so in every state
that a machine can get into.
-/

namespace RegisterMachine

namespace Opcode

/-- The opcodes that say where to go on. -/
def isJump : Opcode → Bool
  | .jump | .jumpIf | .jumpIfNot => true
  | _ => false

/-- The opcodes that write no register. -/
def keepsRegisters : Opcode → Bool
  | .storeGlobal | .arraySet | .refInc | .refDec | .destroy | .free | .jump | .jumpIf
  | .jumpIfNot => true
  | _ => false

/-- The opcodes that change the heap. -/
def changesHeap : Opcode → Bool
  | .newArray | .arraySet | .refInc | .refDec | .destroy | .free => true
  | _ => false

theorem keepsRegisters_of_yields {op : Opcode} (h : op.yields = true) :
    op.keepsRegisters = false := by
  cases op with
  | storeGlobal | arraySet | refInc | refDec | destroy | free | jump | jumpIf | jumpIfNot => cases h
  | _ => rfl

end Opcode

/-- Effects that stay in the function. -/
def Effect.staysInside : Effect → Bool
  | .enter .. | .leave _ => false
  | _ => true

namespace Machine

/-- The handle that an instruction allocates or names, `t` being the machine after it. -/
def Touches (op : Opcode) (fields : Fields) (m t : Machine) (handle : Handle) : Prop :=
  if op = .newArray then t.registers.read fields.ra = .array handle
  else op.changesHeap = true ∧ m.registers.read fields.ra = .array handle

/-- What may differ after an instruction that stays in its function. -/
structure Footprint (op : Opcode) (fields : Fields) (m t : Machine) : Prop where
  limits : t.limits = m.limits
  frames : t.frames = m.frames
  function : t.function = m.function
  entry : t.entry = m.entry
  status : t.status = m.status
  returned : t.returned = m.returned
  executed : t.executed = m.executed + 1
  pc : t.pc = m.pc + 1 ∨ op.isJump = true ∧ t.pc = fields.imm.toNat
  registers : ∀ r, t.registers.read r = m.registers.read r ∨
    op.keepsRegisters = false ∧ r = fields.ra
  globalCount : t.globals.size = m.globals.size
  globals : ∀ slot : Nat, t.globals[slot]? = m.globals[slot]? ∨
    op = .storeGlobal ∧ slot = fields.imm.toNat
  heap : t.heap = m.heap ∨ op.changesHeap = true
  arrays : ∀ handle, ¬ Touches op fields m t handle → t.heap.get? handle = m.heap.get? handle
  printed : t.printed = m.printed ∨
    op = .call ∧ m.registers.read fields.rb = .function (.native .print)

variable {program : Program} {m : Machine} {fields : Fields} {op : Opcode} {effect : Effect}

/-! ## The parts of the footprint -/

theorem read_write_or (registers : Registers) (a r : UInt8) (value : Value) :
    (registers.write a value).read r = registers.read r ∨ r = a := by
  by_cases h : a = r
  · exact .inr h.symm
  · exact .inl (registers.read_write_of_ne value h)

/-- Only a return, and a call with a function of the program in register `b`, leave the function. -/
theorem staysInside_of_planned (hp : Planned program m fields op effect) (hret : op ≠ .ret)
    (hcall : ∀ callee, op = .call → m.registers.read fields.rb ≠ .function (.compiled callee)) :
    effect.staysInside = true := by
  cases hp with
  | enter hc => exact absurd hc (hcall _ rfl)
  | ret => exact absurd rfl hret
  | _ => rfl

theorem pc_of_planned (hp : Planned program m fields op effect)
    (hs : effect.staysInside = true) :
    (effect.apply m.advanced).pc = m.pc + 1 ∨
    op.isJump = true ∧ (effect.apply m.advanced).pc = fields.imm.toNat := by
  cases hp with
  | jump hop =>
      rcases hop with rfl | rfl | rfl
      · exact .inr ⟨rfl, rfl⟩
      · exact .inr ⟨rfl, rfl⟩
      · exact .inr ⟨rfl, rfl⟩
  | enter | ret => cases hs
  | _ => exact .inl rfl

theorem registers_of_planned (hp : Planned program m fields op effect)
    (hs : effect.staysInside = true) (r : UInt8) :
    (effect.apply m.advanced).registers.read r = m.registers.read r ∨
    op.keepsRegisters = false ∧ r = fields.ra := by
  cases hp with
  | value v hop =>
      exact (read_write_or _ _ _ v).imp_right fun hr => ⟨Opcode.keepsRegisters_of_yields hop, hr⟩
  | newArray | native | print =>
      exact (read_write_or _ _ _ _).imp_right fun hr => ⟨rfl, hr⟩
  | enter | ret => cases hs
  | _ => exact .inl rfl

theorem globals_of_planned (hp : Planned program m fields op effect)
    (hs : effect.staysInside = true) :
    (effect.apply m.advanced).globals.size = m.globals.size ∧
    ∀ slot : Nat, (effect.apply m.advanced).globals[slot]? = m.globals[slot]? ∨
      op = .storeGlobal ∧ slot = fields.imm.toNat := by
  cases hp with
  | storeGlobal =>
      refine ⟨Array.size_setIfInBounds, fun slot => ?_⟩
      by_cases h : fields.imm.toNat = slot
      · exact .inr ⟨rfl, h.symm⟩
      · exact .inl (Array.getElem?_setIfInBounds_ne h)
  | enter | ret => cases hs
  | _ => exact ⟨rfl, fun _ => .inl rfl⟩

theorem heap_of_planned (hp : Planned program m fields op effect)
    (hs : effect.staysInside = true) :
    (effect.apply m.advanced).heap = m.heap ∨ op.changesHeap = true := by
  cases hp with
  | newArray | arraySet => exact .inr rfl
  | refcount _ hop => rcases hop with rfl | rfl <;> exact .inr rfl
  | release hop => rcases hop with rfl | rfl <;> exact .inr rfl
  | enter | ret => cases hs
  | _ => exact .inl rfl

/-- The handle in register `a` is the one that is touched, unless an array is made. -/
theorem touches_named {t : Machine} {handle : Handle} (hop : op.changesHeap = true)
    (hnew : op ≠ .newArray) (hr : m.registers.read fields.ra = .array handle) :
    Touches op fields m t handle := by
  rw [Touches, if_neg hnew]
  exact ⟨hop, hr⟩

/-- All handles but the one that is allocated or named have the array that they had. -/
theorem arrays_of_planned (hv : m.heap.Valid) (hp : Planned program m fields op effect)
    (hs : effect.staysInside = true) {handle : Handle}
    (ht : ¬ Touches op fields m (effect.apply m.advanced) handle) :
    (effect.apply m.advanced).heap.get? handle = m.heap.get? handle := by
  cases hp with
  | @newArray size hr =>
      have hne : handle ≠ (m.heap.place size (m.registers.read fields.rc)).1 := by
        rintro rfl
        apply ht
        rw [Touches, if_pos rfl]
        exact Registers.read_write_self _ _ _
      exact (congrFun (Heap.get?_place hv hr _).2 handle).trans (Function.update_of_ne hne _ _)
  | @arraySet named _ _ hreg ha =>
      have hne : handle ≠ named := by
        rintro rfl
        exact ht (touches_named rfl (by decide) hreg)
      exact (congrFun (Heap.get?_update ha _) handle).trans (Function.update_of_ne hne _ _)
  | @refcount _ named _ count hop hreg ha =>
      have hchanges : op.changesHeap = true ∧ op ≠ .newArray := by
        rcases hop with rfl | rfl <;> exact ⟨rfl, by decide⟩
      have hne : handle ≠ named := by
        rintro rfl
        exact ht (touches_named hchanges.1 hchanges.2 hreg)
      exact (congrFun (Heap.get?_update ha _) handle).trans (Function.update_of_ne hne _ _)
  | @release _ named _ hop hreg ha =>
      have hchanges : op.changesHeap = true ∧ op ≠ .newArray := by
        rcases hop with rfl | rfl <;> exact ⟨rfl, by decide⟩
      have hne : handle ≠ named := by
        rintro rfl
        exact ht (touches_named hchanges.1 hchanges.2 hreg)
      exact (congrFun (Heap.get?_release ha) handle).trans (Function.update_of_ne hne _ _)
  | enter | ret => cases hs
  | _ => rfl

theorem printed_of_planned (hp : Planned program m fields op effect)
    (hs : effect.staysInside = true) :
    (effect.apply m.advanced).printed = m.printed ∨
    op = .call ∧ m.registers.read fields.rb = .function (.native .print) := by
  cases hp with
  | print hn => exact .inr ⟨rfl, hn⟩
  | enter | ret => cases hs
  | _ => exact .inl rfl

/-- An effect that stays in the function keeps all that calls and returns are about. -/
theorem control_of_planned (hp : Planned program m fields op effect)
    (hs : effect.staysInside = true) {t : Machine} (ht : effect.apply m.advanced = t) :
    t.limits = m.limits ∧ t.frames = m.frames ∧ t.function = m.function ∧ t.entry = m.entry ∧
    t.status = m.status ∧ t.returned = m.returned ∧ t.executed = m.executed + 1 := by
  subst ht
  cases hp with
  | enter | ret => cases hs
  | _ => exact ⟨rfl, rfl, rfl, rfl, rfl, rfl, rfl⟩

theorem footprint_of_planned (hv : m.heap.Valid) (hp : Planned program m fields op effect)
    (hs : effect.staysInside = true) :
    Footprint op fields m (effect.apply m.advanced) := by
  obtain ⟨hlimits, hframes, hfunction, hentry, hstatus, hreturned, hexecuted⟩ :=
    control_of_planned hp hs rfl
  obtain ⟨hcount, hglobals⟩ := globals_of_planned hp hs
  exact ⟨hlimits, hframes, hfunction, hentry, hstatus, hreturned, hexecuted, pc_of_planned hp hs,
    registers_of_planned hp hs, hcount, hglobals, heap_of_planned hp hs,
    fun _ ht => arrays_of_planned hv hp hs ht, printed_of_planned hp hs⟩

/-! ## Steps -/

/-- **Instructions have small footprints.**  Let a machine have got into a running state by any
starts and steps, with any programs.  If a step then performs an instruction that is no return and
no call of a function of the program, the footprint of the instruction is all that changes. -/
theorem step_footprint (memory : Memory) (limits : Limits) (requests : List (Program × Request))
    (program : Program) {f : Function} {i : Instruction} {op : Opcode} :
    let m := requests.foldl (fun m request => m.obey request.1 request.2)
      (Machine.new memory limits)
    m.status = .running → m.Fetches program f i → i.opcode = .ok op →
    (∀ fault, (m.step program).1 ≠ .fault fault) →
    op ≠ .ret →
    (∀ callee, op = .call →
      m.registers.read (i.fields op.layout).rb ≠ .function (.compiled callee)) →
    Footprint op (i.fields op.layout) m (m.step program).2 := by
  intro m running hi hop hok hret hcall
  have hsafe : m.Safe limits := Safe.requests requests (Safe.new memory limits)
  obtain ⟨effect, hplan, hnext⟩ := performed_of_fetches running hi hok
  obtain ⟨op', hop', hp⟩ := planWord_planned hplan
  cases hop.symm.trans hop'
  rw [hnext]
  exact footprint_of_planned hsafe.heap hp (staysInside_of_planned hp hret hcall)

/-- Makes an array of one element and then stores it into itself. -/
def selfStoring : Function :=
  ⟨"main", ⟨"", 0⟩, 0, 0, 2, #[⟨0x02000001⟩, ⟨0x70010000⟩, ⟨0x02000000⟩, ⟨0x72010001⟩]⟩

def selfStore : Program :=
  { Program.empty with functions := #[selfStoring] }

/-- The array goes into itself, so that one handle stands in two fields of the instruction. -/
theorem step_footprint_selfStore :
    let m := [(selfStore, Request.start 0), (selfStore, .step), (selfStore, .step),
      (selfStore, .step)].foldl (fun m request => m.obey request.1 request.2)
        (Machine.new .unbounded Limits.default)
    m.status = .running ∧ (m.step selfStore).1 = .running ∧
    Footprint .arraySet (Instruction.fields ⟨0x72010001⟩ Opcode.arraySet.layout) m
      (m.step selfStore).2 := by
  intro m
  have state : m.status = .running ∧ m.function = 0 ∧ m.pc = 3 := by decide +kernel
  obtain ⟨running, function, pc⟩ := state
  have goesOn : (m.step selfStore).1 = .running := by decide +kernel
  have hi : m.Fetches selfStore selfStoring ⟨0x72010001⟩ := by
    refine ⟨?_, ?_⟩
    · rw [function]; rfl
    · rw [pc]; rfl
  refine ⟨running, goesOn, step_footprint .unbounded Limits.default _ selfStore running hi
    (Instruction.opcode_of_byte rfl) ?_ (by decide) ?_⟩
  · intro fault h
    cases goesOn.symm.trans h
  · intro callee h
    cases h

end Machine

end RegisterMachine
