import Mathlib
import RegisterMachine.Proofs.Effect

/-!
# What each instruction plans

`Planned program m fields op effect` lists, opcode by opcode, the effects that planning can give and
what was checked before.  Everything later that depends on which instruction does what goes through
`plan_planned`; no later proof opens `plan` for that.

| opcodes                                    | effect               |
|--------------------------------------------|----------------------|
| loads, moves, arithmetic, reads of arrays  | sets register `a`    |
| `storeGlobal`                              | sets a global        |
| `newArray`                                 | allocates            |
| `arraySet`                                 | sets an element      |
| `refInc`, `refDec`                         | sets a count         |
| `destroy`, `free`                          | releases             |
| `jump`, `jumpIf`, `jumpIfNot`              | jumps or goes on     |
| `call`                                     | native: sets register `a`, may print; compiled: enters |
| `ret`                                      | leaves               |
-/

namespace RegisterMachine

/-! ## Computations that can fail -/

theorem bind_eq_ok {ε α β : Type} {x : Except ε α} {f : α → Except ε β} {b : β} :
    x >>= f = .ok b ↔ ∃ a, x = .ok a ∧ f a = .ok b := by
  cases x with
  | error e =>
      constructor
      · intro h; exact nomatch h
      · rintro ⟨_, h, _⟩; exact nomatch h
  | ok a =>
      constructor
      · intro h; exact ⟨a, rfl, h⟩
      · rintro ⟨a', h, h'⟩
        cases h
        exact h'

theorem bind_eq_error {α β : Type} {x : Except Error α} {f : α → Except Error β} {e : Error} :
    x >>= f = .error e ↔ x = .error e ∨ ∃ a, x = .ok a ∧ f a = .error e := by
  cases x with
  | error e' =>
      constructor
      · intro h; exact .inl (by cases h; rfl)
      · rintro (h | ⟨_, h, _⟩)
        · cases h; rfl
        · exact nomatch h
  | ok a =>
      constructor
      · intro h; exact .inr ⟨a, rfl, h⟩
      · rintro (h | ⟨a', h, h'⟩)
        · exact nomatch h
        · cases h
          exact h'

theorem map_eq_ok {α β : Type} {x : Except Error α} {f : α → β} {b : β} :
    x.map f = .ok b ↔ ∃ a, x = .ok a ∧ f a = b := by
  cases x with
  | error error =>
      constructor
      · intro h; cases h
      · rintro ⟨_, h, _⟩; cases h
  | ok a =>
      constructor
      · intro h; cases h; exact ⟨a, rfl, rfl⟩
      · rintro ⟨_, h, rfl⟩; cases h; rfl

theorem mapError_eq_ok {α : Type} {f : Error → Error} {x : Except Error α} {a : α}
    (h : x.mapError f = .ok a) : x = .ok a := by
  cases x with
  | error error => cases h
  | ok b => cases h; rfl

/-- A computation that checks something first and has a result has passed the check. -/
theorem check_eq_ok {α : Type} {failed : Prop} [Decidable failed] {error : Error}
    {next : Except Error α} {a : α} :
    (if failed then throw error else next) = .ok a ↔ ¬ failed ∧ next = .ok a := by
  by_cases hf : failed
  · rw [if_pos hf]
    constructor
    · intro h; exact nomatch h
    · intro h; exact absurd hf h.1
  · rw [if_neg hf]
    exact (and_iff_right hf).symm

/-! ## Lists that are related in pairs -/

theorem forall₂_comp {α β γ : Type} {R : α → β → Prop} {S : β → γ → Prop} {T : α → γ → Prop}
    (hT : ∀ a b c, R a b → S b c → T a c) {as : List α} {bs : List β} (h : List.Forall₂ R as bs) :
    ∀ {cs : List γ}, List.Forall₂ S bs cs → List.Forall₂ T as cs := by
  induction h with
  | nil => intro cs h'; cases h'; exact .nil
  | cons hR _ ih =>
      intro cs h'
      cases h' with
      | cons hS h' => exact .cons (hT _ _ _ hR hS) (ih h')

theorem forall₂_mem {α β : Type} {R : α → β → Prop} {as : List α} {bs : List β}
    (h : List.Forall₂ R as bs) : List.Forall₂ (fun a b => a ∈ as ∧ b ∈ bs ∧ R a b) as bs := by
  obtain ⟨hlength, hpairs⟩ := List.forall₂_iff_zip.mp h
  refine List.forall₂_iff_zip.mpr ⟨hlength, fun hpair => ?_⟩
  obtain ⟨ha, hb⟩ := List.of_mem_zip hpair
  exact ⟨ha, hb, hpairs hpair⟩

/-- To every element on the right there is one on the left. -/
theorem exists_of_mem_right {α β : Type} {R : α → β → Prop} {as : List α} {bs : List β}
    (h : List.Forall₂ R as bs) {b : β} (hb : b ∈ bs) : ∃ a ∈ as, R a b := by
  induction h with
  | nil => cases hb
  | cons hR _ ih =>
      rcases List.mem_cons.mp hb with rfl | hb
      · exact ⟨_, List.mem_cons_self, hR⟩
      · obtain ⟨a, ha, hR⟩ := ih hb
        exact ⟨a, List.mem_cons_of_mem _ ha, hR⟩

/-! ## Reading a register of a given type -/

/-- A register that was read as an array holds that array. -/
theorem Registers.read_of_array {registers : Registers} {name : String} {r : UInt8}
    {handle : Handle} (h : registers.array name r = .ok handle) :
    registers.read r = .array handle := by
  simp only [Registers.array, Registers.expect] at h
  cases hv : registers.read r with
  | array handle' => rw [hv] at h; cases h; rfl
  | _ => rw [hv] at h; exact nomatch h

/-- A register that was read as a function holds that function. -/
theorem Registers.read_of_function {registers : Registers} {name : String} {r : UInt8}
    {callable : Callable} (h : registers.function name r = .ok callable) :
    registers.read r = .function callable := by
  simp only [Registers.function, Registers.expect] at h
  cases hv : registers.read r with
  | function callable' => rw [hv] at h; cases h; rfl
  | _ => rw [hv] at h; exact nomatch h

theorem Registers.function_of_read {registers : Registers} {r : UInt8} {callable : Callable}
    (h : registers.read r = .function callable) (name : String) :
    registers.function name r = .ok callable := by
  simp only [Registers.function, Registers.expect, h]

/-! ## Heap checks -/

theorem Heap.get?_of_get {heap : Heap} {handle : Handle} {array : HeapArray}
    (h : heap.get handle = .ok array) : heap.get? handle = some array := by
  rw [Heap.get] at h
  cases hg : heap.get? handle with
  | none => rw [hg] at h; exact nomatch h
  | some array' => rw [hg] at h; cases h; rfl

/-- An index that passed its check is a place of the array. -/
theorem Heap.checkIndex_lt {index : Int} {length place : Nat}
    (h : Heap.checkIndex index length = .ok place) : place < length := by
  rw [Heap.checkIndex] at h
  split at h
  · cases h; omega
  · exact nomatch h

theorem Heap.locate_lt {heap : Heap} {handle : Handle} {index : Int} {place : Nat}
    (h : heap.locate handle index = .ok place) :
    ∃ array, heap.get? handle = some array ∧ place < array.elements.size := by
  obtain ⟨length, hl, hp⟩ := bind_eq_ok.mp h
  obtain ⟨array, ha, hlen⟩ := bind_eq_ok.mp hl
  cases hlen
  exact ⟨array, get?_of_get ha, checkIndex_lt hp⟩

theorem Heap.get?_of_checkFree {heap : Heap} {handle : Handle} {ignore : Bool}
    (h : heap.checkFree handle ignore = .ok ()) : ∃ array, heap.get? handle = some array := by
  rw [Heap.checkFree] at h
  cases hg : heap.get? handle with
  | none => rw [hg] at h; exact nomatch h
  | some array => exact ⟨array, rfl⟩

theorem Heap.get?_of_checkInc {heap : Heap} {handle : Handle} {count : UInt32}
    (h : heap.checkInc handle = .ok count) : ∃ array, heap.get? handle = some array := by
  obtain ⟨array, ha, -⟩ := bind_eq_ok.mp h
  exact ⟨array, get?_of_get ha⟩

theorem Heap.get?_of_checkDec {heap : Heap} {handle : Handle} {count : UInt32}
    (h : heap.checkDec handle = .ok count) : ∃ array, heap.get? handle = some array := by
  obtain ⟨array, ha, -⟩ := bind_eq_ok.mp h
  exact ⟨array, get?_of_get ha⟩

/-! ## The effects of an opcode -/

/-- Opcodes whose only effect is a value in register `a`. -/
def Opcode.yields : Opcode → Bool
  | .loadBool | .loadI32 | .loadI64 | .loadConst _ | .loadFunction | .loadNative | .loadGlobal
  | .move | .convert _ | .arith .. | .neg _ | .compare .. | .not | .connect _ | .arrayGet
  | .arrayLen => true
  | _ => false

/-- `Planned program m fields op effect`: planning `op` can give `effect`. -/
inductive Planned (program : Program) (m : Machine) (fields : Fields) : Opcode → Effect → Prop
  | value {op : Opcode} (value : Value) :
      op.yields = true → Planned program m fields op (.setRegister fields.ra value)
  | storeGlobal :
      fields.imm.toNat < m.globals.size →
      Planned program m fields .storeGlobal
        (.setGlobal fields.imm.toNat (m.registers.read fields.ra))
  | newArray {size : Nat} :
      m.heap.refusal? size = none →
      Planned program m fields .newArray (.allocate fields.ra size (m.registers.read fields.rc))
  | arraySet {handle : Handle} {array : HeapArray} {place : Nat} :
      m.registers.read fields.ra = .array handle → m.heap.get? handle = some array →
      place < array.elements.size →
      Planned program m fields .arraySet
        (.setElement handle place (m.registers.read fields.rc))
  | refcount {op : Opcode} {handle : Handle} {array : HeapArray} (count : UInt32) :
      op = .refInc ∨ op = .refDec →
      m.registers.read fields.ra = .array handle → m.heap.get? handle = some array →
      Planned program m fields op (.setRefcount handle count)
  | release {op : Opcode} {handle : Handle} {array : HeapArray} :
      op = .destroy ∨ op = .free →
      m.registers.read fields.ra = .array handle → m.heap.get? handle = some array →
      Planned program m fields op (.release handle)
  | jump {op : Opcode} :
      op = .jump ∨ op = .jumpIf ∨ op = .jumpIfNot →
      Planned program m fields op (.jump fields.imm.toNat)
  | proceed {op : Opcode} :
      op = .jumpIf ∨ op = .jumpIfNot → Planned program m fields op .proceed
  | native {native : Native} (value : Value) :
      m.registers.read fields.rb = .function (.native native) →
      Planned program m fields .call (.setRegister fields.ra value)
  | print {value : Value} :
      m.registers.read fields.rb = .function (.native .print) →
      m.registers.read fields.rc = value →
      Planned program m fields .call (.print (m.heap.render value) fields.ra value)
  | enter {callee : UInt16} {target : Function} :
      m.registers.read fields.rb = .function (.compiled callee) →
      m.frames.size < m.limits.maxCallDepth →
      program.function? callee = some target →
      fields.rc.toNat + target.paramCount.toNat ≤ registerCapacity →
      Planned program m fields .call
        (.enter callee target.registerCount.toNat
          (m.registers.range fields.rc target.paramCount.toNat) fields.ra
          (m.registers.window (Machine.windowSize program m.function)))
  | ret : Planned program m fields .ret (.leave (m.registers.read fields.ra))

/-- A call with a compiled function in register `b` can only enter that function. -/
theorem Planned.of_compiled {program : Program} {m : Machine} {fields : Fields} {effect : Effect}
    {callee : UInt16} (h : Planned program m fields .call effect)
    (hc : m.registers.read fields.rb = .function (.compiled callee)) :
    ∃ target, program.function? callee = some target ∧
      effect = .enter callee target.registerCount.toNat
        (m.registers.range fields.rc target.paramCount.toNat) fields.ra
        (m.registers.window (Machine.windowSize program m.function)) := by
  cases h with
  | value _ hop => exact nomatch hop
  | refcount _ hop => simp at hop
  | release hop => simp at hop
  | jump hop => simp at hop
  | proceed hop => simp at hop
  | native _ hn => cases hc.symm.trans hn
  | print hn _ => cases hc.symm.trans hn
  | enter hc' _ ht _ =>
      cases hc.symm.trans hc'
      exact ⟨_, ht, rfl⟩

/-- Computations that can only end with register `r` set. -/
def Sets (r : UInt8) (x : Except Error Effect) : Prop :=
  ∀ effect, x = .ok effect → ∃ value, effect = .setRegister r value

theorem Sets.ok {r : UInt8} (value : Value) : Sets r (.ok (.setRegister r value)) := by
  intro effect h
  cases h
  exact ⟨value, rfl⟩

theorem Sets.error {r : UInt8} (error : Error) : Sets r (.error error) :=
  fun _ h => nomatch h

theorem Sets.bind {α : Type} {r : UInt8} {x : Except Error α} {f : α → Except Error Effect}
    (h : ∀ a, Sets r (f a)) : Sets r (x >>= f) := by
  intro effect hx
  obtain ⟨a, -, ha⟩ := bind_eq_ok.mp hx
  exact h a effect ha

theorem Sets.planned {program : Program} {m : Machine} {fields : Fields} {op : Opcode}
    {x : Except Error Effect} {effect : Effect} (hs : Sets fields.ra x) (h : x = .ok effect)
    (hop : op.yields = true) : Planned program m fields op effect := by
  obtain ⟨value, rfl⟩ := hs effect h
  exact .value value hop

namespace Machine

variable {program : Program} {m : Machine} {fields : Fields} {effect : Effect}

theorem sets_planArith (α : Type) [Numeric α] (op : Arith) (name : String) :
    Sets fields.ra (m.planArith α op name fields) :=
  .bind fun _ => .bind fun _ => .bind fun _ => .ok _

theorem sets_planNeg (α : Type) [Numeric α] (name : String) :
    Sets fields.ra (m.planNeg α name fields) :=
  .bind fun _ => .ok _

theorem sets_planCompare (α : Type) [Numeric α] (op : Comparison) (name : String) :
    Sets fields.ra (m.planCompare α op name fields) :=
  .bind fun _ => .bind fun _ => .ok _

/-- A call of a native function sets register `a`; only `print` does more. -/
theorem planNative_planned {native : Native}
    (hn : m.registers.read fields.rb = .function (.native native))
    (h : m.planNative native fields = .ok effect) : Planned program m fields .call effect := by
  obtain ⟨-, -, h⟩ := bind_eq_ok.mp h
  cases native with
  | len =>
      obtain ⟨handle, -, h⟩ := bind_eq_ok.mp h
      obtain ⟨length, -, h⟩ := bind_eq_ok.mp h
      cases h
      exact .native length hn
  | sqrt =>
      obtain ⟨x, -, h⟩ := bind_eq_ok.mp h
      cases h
      exact .native _ hn
  | print =>
      cases h
      exact .print hn rfl

theorem checkArguments_le {name : String} {count : Nat} {first : UInt8}
    (h : checkArguments name count first = .ok ()) : first.toNat + count ≤ registerCapacity := by
  rw [checkArguments] at h
  split at h
  · exact nomatch h
  · omega

/-- Native functions take one argument, which is always there. -/
theorem checkArguments_native (native : Native) (first : UInt8) :
    checkArguments native.name native.arity first = .ok () := by
  have hlt := first.toNat_lt
  have harity : native.arity = 1 := by cases native <;> rfl
  rw [checkArguments, if_neg]
  rw [harity, registerCapacity]
  omega

/-- A call of a compiled function enters it, once depth and arguments are checked. -/
theorem planCompiled_planned {callee : UInt16}
    (hc : m.registers.read fields.rb = .function (.compiled callee))
    (h : m.planCompiled program callee fields = .ok effect) :
    Planned program m fields .call effect := by
  simp only [planCompiled] at h
  split at h
  · cases h
  · rename_i hdepth
    cases ht : program.function? callee with
    | none => rw [ht] at h; cases h
    | some target =>
        rw [ht] at h
        obtain ⟨⟨⟩, hargs, h⟩ := bind_eq_ok.mp h
        cases h
        exact .enter hc (by omega) ht (checkArguments_le hargs)

/-- Once depth and arguments are in order, a call of a compiled function is planned. -/
theorem plan_call_compiled {callee : UInt16} {target : Function}
    (hc : m.registers.read fields.rb = .function (.compiled callee))
    (hdepth : m.frames.size < m.limits.maxCallDepth)
    (ht : program.function? callee = some target)
    (hargs : fields.rc.toNat + target.paramCount.toNat ≤ registerCapacity) :
    m.plan program .call fields
      = .ok (.enter callee target.registerCount.toNat
          (m.registers.range fields.rc target.paramCount.toNat) fields.ra
          (m.registers.window (windowSize program m.function))) := by
  have hcheck : checkArguments target.name target.paramCount.toNat fields.rc = .ok () := by
    rw [checkArguments, if_neg (by omega)]
  simp only [plan, Registers.function_of_read hc]
  show m.planCompiled program callee fields = _
  rw [planCompiled, if_neg (by omega), ht]
  simp only [hcheck]
  rfl

/-- Planning gives only the effects listed for the opcode. -/
theorem plan_planned {op : Opcode} (h : m.plan program op fields = .ok effect) :
    Planned program m fields op effect := by
  cases op with
  | loadBool => exact (Sets.ok _).planned h rfl
  | loadI32 => exact (Sets.ok _).planned h rfl
  | loadI64 => exact (Sets.ok _).planned h rfl
  | loadConst type => exact (Sets.bind fun _ => .ok _).planned h rfl
  | loadFunction =>
      simp only [plan] at h
      split at h
      · exact (Sets.ok _).planned h rfl
      · cases h
  | loadNative =>
      have hs : Sets fields.ra (m.plan program .loadNative fields) := by
        refine .bind fun name => ?_
        cases Native.ofName? name with
        | some native => exact .ok _
        | none => exact .error _
      exact hs.planned h rfl
  | loadGlobal => exact (Sets.bind fun _ => .ok _).planned h rfl
  | storeGlobal =>
      obtain ⟨slot, hslot, h⟩ := bind_eq_ok.mp h
      rw [globalSlot] at hslot
      split at hslot
      · cases hslot; cases h
        exact .storeGlobal ‹_›
      · cases hslot
  | move => exact (Sets.ok _).planned h rfl
  | convert conversion => exact (Sets.bind fun _ => .ok _).planned h rfl
  | arith op type => cases type <;> exact (sets_planArith _ _ _).planned h rfl
  | neg type => cases type <;> exact (sets_planNeg _ _).planned h rfl
  | compare op type => cases type <;> exact (sets_planCompare _ _ _).planned h rfl
  | not => exact (Sets.bind fun _ => .ok _).planned h rfl
  | connect op => exact (Sets.bind fun _ => .bind fun _ => .ok _).planned h rfl
  | newArray =>
      obtain ⟨length, -, h⟩ := bind_eq_ok.mp h
      simp only at h
      split at h
      · cases h
      · cases hr : m.heap.refusal? length.toInt.toNat with
        | some error => rw [hr] at h; cases h
        | none => rw [hr] at h; cases h; exact .newArray hr
  | arrayGet =>
      exact (Sets.bind fun _ => .bind fun _ => .bind fun _ => .ok _).planned h rfl
  | arraySet =>
      obtain ⟨handle, hh, h⟩ := bind_eq_ok.mp h
      obtain ⟨index, -, h⟩ := bind_eq_ok.mp h
      obtain ⟨place, hp, h⟩ := bind_eq_ok.mp h
      obtain ⟨array, ha, hlt⟩ := Heap.locate_lt hp
      cases h
      exact .arraySet (Registers.read_of_array hh) ha hlt
  | arrayLen => exact (Sets.bind fun _ => .bind fun _ => .ok _).planned h rfl
  | refInc =>
      obtain ⟨handle, hh, h⟩ := bind_eq_ok.mp h
      obtain ⟨count, hc, h⟩ := bind_eq_ok.mp h
      obtain ⟨array, ha⟩ := Heap.get?_of_checkInc hc
      cases h
      exact .refcount count (.inl rfl) (Registers.read_of_array hh) ha
  | refDec =>
      obtain ⟨handle, hh, h⟩ := bind_eq_ok.mp h
      obtain ⟨count, hc, h⟩ := bind_eq_ok.mp h
      obtain ⟨array, ha⟩ := Heap.get?_of_checkDec hc
      cases h
      exact .refcount count (.inr rfl) (Registers.read_of_array hh) ha
  | destroy =>
      obtain ⟨handle, hh, h⟩ := bind_eq_ok.mp h
      obtain ⟨⟨⟩, hc, h⟩ := bind_eq_ok.mp h
      obtain ⟨array, ha⟩ := Heap.get?_of_checkFree hc
      cases h
      exact .release (.inl rfl) (Registers.read_of_array hh) ha
  | free =>
      obtain ⟨handle, hh, h⟩ := bind_eq_ok.mp h
      obtain ⟨⟨⟩, hc, h⟩ := bind_eq_ok.mp h
      obtain ⟨array, ha⟩ := Heap.get?_of_checkFree hc
      cases h
      exact .release (.inr rfl) (Registers.read_of_array hh) ha
  | jump => cases h; exact .jump (.inl rfl)
  | jumpIf =>
      obtain ⟨taken, -, h⟩ := bind_eq_ok.mp h
      cases taken
      · cases h; exact .proceed (.inl rfl)
      · cases h; exact .jump (.inr (.inl rfl))
  | jumpIfNot =>
      obtain ⟨skipped, -, h⟩ := bind_eq_ok.mp h
      cases skipped
      · cases h; exact .jump (.inr (.inr rfl))
      · cases h; exact .proceed (.inr rfl)
  | call =>
      obtain ⟨callable, hc, h⟩ := bind_eq_ok.mp h
      cases callable with
      | native native => exact planNative_planned (Registers.read_of_function hc) h
      | compiled callee => exact planCompiled_planned (Registers.read_of_function hc) h
  | ret => cases h; exact .ret

end Machine

end RegisterMachine
