import Mathlib
import RegisterMachine.Proofs.Heap
import RegisterMachine.Proofs.Registers
import RegisterMachine.Proofs.Rendering
import RegisterMachine.Proofs.Step

/-!
# Every access is in range

The running machine never looks whether a slice, an index or a difference is in range: where it is
not, its operations quietly do less.  Nor does it look how deep it recurses when it prints an array.
Here is the same machine with the looking, on a host whose stack holds so many nested calls: `step?`
makes every access in a checked form and is `none` as soon as one fails, as soon as the register
file no longer has 256 entries, or as soon as printing nests deeper than the stack.

For any program at all, no access is ever out of range, and a step that prints nothing always ends.
Printing takes a call for each array that is open and one for what stands inside (`Picture.calls`),
and nothing but the heap's limit bounds how many that are.  `step_ends_iff` says exactly when a step
ends: the stack must hold the calls that the printed value takes, of which there is at most one more
than there are live arrays.

| access                               | checked by                           |
|--------------------------------------|--------------------------------------|
| arguments of a call                  | `Registers.range?`                   |
| caller's window, saved and restored  | `Registers.window?`, `restore?`      |
| callee's window                      | `Registers.enter?`                   |
| a global                             | `Machine.plan?`, `Effect.perform?`   |
| a slot from the free list            | `Heap.place?`                        |
| an element of an array               | `Heap.load?`, `Heap.setElement?`     |
| elements taken off the count         | `Heap.release?`                      |
| a call for a nested array            | `Heap.renderOn?`                     |
-/

namespace RegisterMachine

/-! ## Checked slices -/

/-- The part of an array from `start` up to `stop`, if it is one. -/
def slice? (xs : Array Value) (start stop : Nat) : Option (Array Value) :=
  if start ≤ stop ∧ stop ≤ xs.size then some (xs.extract start stop) else none

/-- The array with `ys` in place of its first elements, if there are as many. -/
def overwrite? (xs ys : Array Value) : Option (Array Value) :=
  if ys.size ≤ xs.size then some (ys ++ xs.extract ys.size xs.size) else none

theorem overwrite?_eq_some (xs ys : Array Value) (h : ys.size ≤ xs.size) :
    ∃ zs, overwrite? xs ys = some zs ∧ zs.size = xs.size ∧
      ∀ i, zs[i]? = if i < ys.size then ys[i]? else xs[i]? := by
  refine ⟨ys ++ xs.extract ys.size xs.size, if_pos h, ?_, ?_⟩
  · simp; omega
  · intro i
    rw [Array.getElem?_append]
    split
    · rfl
    · rw [Array.getElem?_extract]
      split
      · congr 1; omega
      · rw [Array.getElem?_eq_none]; omega

namespace Registers

/-- An array as the register file, if it has 256 entries. -/
def ofArray? (xs : Array Value) : Option Registers :=
  if h : xs.size = 256 then some ⟨xs, h⟩ else none

/-- The values of `count` registers from `first` on, if there are so many. -/
def range? (registers : Registers) (first : UInt8) (count : Nat) : Option (Array Value) :=
  slice? registers.toArray first.toNat (first.toNat + count)

/-- A copy of the lowest `count` registers, 256 at most. -/
def window? (registers : Registers) (count : Nat) : Option (Array Value) :=
  slice? registers.toArray 0 (min count 256)

/-- Writes a saved window back, if it is no longer than the file. -/
def restore? (registers : Registers) (saved : Array Value) : Option Registers := do
  ofArray? (← overwrite? registers.toArray saved)

/-- Resets the lowest registers and writes the arguments over them, if they fit. -/
def enter? (registers : Registers) (size : Nat) (arguments : Array Value) : Option Registers := do
  let count := min (max size arguments.size) 256
  let reset ← overwrite? registers.toArray (Array.replicate count Value.zero)
  ofArray? (← overwrite? reset arguments)

theorem range?_eq {registers : Registers} {first : UInt8} {count : Nat}
    (h : first.toNat + count ≤ 256) :
    registers.range? first count = some (registers.range first count) :=
  if_pos ⟨by omega, by simpa using h⟩

theorem window?_eq (registers : Registers) (count : Nat) :
    registers.window? count = some (registers.window count) :=
  if_pos ⟨by omega, by simp⟩

/-- An array that holds in each place what a file holds there is that file. -/
theorem ofArray?_eq {xs : Array Value} {registers : Registers} (hsize : xs.size = 256)
    (h : ∀ r : UInt8, xs[r.toNat]? = some (registers.read r)) :
    ofArray? xs = some registers := by
  have heq : xs = registers.toArray := by
    apply Array.ext_getElem?
    intro i
    by_cases hi : i < 256
    · have hr : (UInt8.ofNat i).toNat = i := UInt8.toNat_ofNat_of_lt hi
      rw [← hr, getElem?_toArray, h]
    · rw [Array.getElem?_eq_none (by omega), Array.getElem?_eq_none (by simp; omega)]
  subst heq
  exact dif_pos hsize

theorem restore?_eq {saved : Array Value} (registers : Registers) (h : saved.size ≤ 256) :
    registers.restore? saved = some (registers.restore saved) := by
  obtain ⟨zs, hzs, hsize, hget⟩ :=
    overwrite?_eq_some registers.toArray saved (by simpa using h)
  rw [restore?, hzs]
  refine ofArray?_eq (by simpa using hsize) ?_
  intro r
  rw [hget, read_restore, getElem?_toArray]
  by_cases hr : r.toNat < saved.size
  · rw [if_pos hr, Array.getElem?_eq_getElem hr]
    rfl
  · rw [if_neg hr, Array.getElem?_eq_none (Nat.le_of_not_lt hr)]
    rfl

theorem enter?_eq {arguments : Array Value} (registers : Registers) (size : Nat)
    (h : arguments.size ≤ 256) :
    registers.enter? size arguments = some (registers.enter size arguments) := by
  obtain ⟨reset, hreset, hrsize, hrget⟩ :=
    overwrite?_eq_some registers.toArray
      (Array.replicate (min (max size arguments.size) 256) Value.zero) (by simp)
  rw [Vector.size_toArray] at hrsize
  obtain ⟨zs, hzs, hsize, hget⟩ :=
    overwrite?_eq_some reset arguments (by omega)
  simp only [enter?, hreset, Option.bind_eq_bind, Option.bind_some, hzs]
  refine ofArray?_eq (by omega) ?_
  intro r
  have hr256 : r.toNat < 256 := r.toNat_lt
  rw [hget, read_enter]
  by_cases hr : r.toNat < arguments.size
  · rw [if_pos hr, Array.getElem?_eq_getElem hr]
    rfl
  · rw [if_neg hr, Array.getElem?_eq_none (Nat.le_of_not_lt hr), hrget, getElem?_toArray,
      Array.size_replicate, Array.getElem?_replicate]
    by_cases hw : r.toNat < max size arguments.size
    · rw [if_pos (by omega), if_pos (by omega), if_pos hw]
      rfl
    · rw [if_neg (by omega), if_neg hw]
      rfl

end Registers

/-! ## Checked printing -/

namespace Picture

mutual

/-- How many calls are nested while the picture is printed: one for each array around it and one for
what stands in them. -/
def calls : Picture → Nat
  | plain _ | repeated _ | freed _ => 1
  | opened _ elements => maxCalls elements + 1

def maxCalls : List Picture → Nat
  | [] => 0
  | part :: rest => max (calls part) (maxCalls rest)

end

mutual

theorem calls_le_depth : ∀ picture : Picture, picture.calls ≤ picture.depth + 1
  | plain _ => Nat.le_refl 1
  | repeated _ => Nat.le_refl 1
  | freed _ => Nat.le_refl 1
  | opened _ elements => Nat.succ_le_succ (maxCalls_le_maxDepth elements)

theorem maxCalls_le_maxDepth : ∀ parts : List Picture, maxCalls parts ≤ maxDepth parts + 1
  | [] => Nat.zero_le 1
  | part :: rest => by
      have hpart := calls_le_depth part
      have hrest := maxCalls_le_maxDepth rest
      rw [maxCalls, maxDepth]
      omega

end

end Picture

namespace Heap

/-- Appends values to a text as long as the stack suffices. -/
def appendAll? (append : String → Value → Option String) (text : String) :
    List Value → Option String
  | [] => some text
  | [value] => append text value
  | value :: rest => do appendAll? append ((← append text value) ++ ", ") rest

/-- Appends a value that stands inside the arrays with the given keys to a text, on a stack that
holds so many nested calls. -/
def renderOn? (heap : Heap) : Nat → Std.TreeSet Nat → String → Value → Option String
  | 0, _, _, _ => none
  | stack + 1, keys, text, .array handle =>
    if keys.contains handle.key then some (text ++ "[...]")
    else
      match heap.get? handle with
      | none => some (text ++ "<freed array #" ++ toString handle.index ++ ">")
      | some array => do
        let opened ← appendAll? (heap.renderOn? stack (keys.insert handle.key)) (text ++ "[")
          array.elements.toList
        return opened ++ "]"
  | _ + 1, _, text, value => some (text ++ value.text)

def render? (heap : Heap) (stack : Nat) (value : Value) : Option String :=
  heap.renderOn? stack ∅ "" value

variable {heap : Heap} {path : List Handle} {value : Value} {picture : Picture}

theorem appendAll?_eq {append : String → Value → Option String} {stack : Nat}
    {values : List Value} {parts : List Picture}
    (h : List.Forall₂ (fun value part => ∀ text, append text value
      = if part.calls ≤ stack then some (text ++ part.text) else none) values parts) :
    ∀ text, appendAll? append text values
      = if Picture.maxCalls parts ≤ stack
        then some (text ++ ", ".intercalate (Picture.texts parts)) else none := by
  induction h with
  | nil => intro text; simp [appendAll?, Picture.texts, Picture.maxCalls]
  | @cons value part values parts hfirst hrest ih =>
      intro text
      cases hrest with
      | nil => simp [appendAll?, Picture.texts, Picture.maxCalls, hfirst]
      | cons =>
          rw [appendAll?, hfirst]
          · by_cases hpart : part.calls ≤ stack
            · simp [hpart, ih, Picture.texts, Picture.maxCalls, String.append_assoc]
            · simp [hpart, Picture.maxCalls]
          · exact List.cons_ne_nil _ _

/-- A value is printed if the stack holds the calls that its picture takes, and only then. -/
theorem Shows.renderOn?_eq (h : heap.Shows path value picture) :
    ∀ (stack : Nat) {keys : Std.TreeSet Nat}, Tracks keys path → ∀ text,
      heap.renderOn? stack keys text value
        = if picture.calls ≤ stack then some (text ++ picture.text) else none := by
  induction h using Shows.induction with
  | plain path value hplain =>
      intro stack keys _ text
      cases stack with
      | zero => simp [renderOn?, Picture.calls]
      | succ stack =>
          cases value with
          | array handle => cases hplain
          | _ => simp [renderOn?, Picture.calls, Picture.text]
  | repeated path handle hmem =>
      intro stack keys hkeys text
      cases stack with
      | zero => simp [renderOn?, Picture.calls]
      | succ stack => simp [renderOn?, Picture.calls, Picture.text, (hkeys handle).mpr hmem]
  | freed path handle hnew hdead =>
      intro stack keys hkeys text
      cases stack with
      | zero => simp [renderOn?, Picture.calls]
      | succ stack =>
          simp [renderOn?, Picture.calls, Picture.text, hkeys.contains_eq_false hnew, hdead,
            String.append_assoc]
  | opened path handle array elements hnew hget hshown ih =>
      intro stack keys hkeys text
      cases stack with
      | zero => simp [renderOn?, Picture.calls]
      | succ stack =>
          have hinner : List.Forall₂ (fun value part => ∀ text,
              heap.renderOn? stack (keys.insert handle.key) text value
                = if part.calls ≤ stack then some (text ++ part.text) else none)
              array.elements.toList elements := by
            refine ih.imp fun element part hpart => ?_
            obtain ⟨-, ih⟩ := hpart
            exact ih stack (hkeys.insert handle)
          rw [renderOn?, hkeys.contains_eq_false hnew, hget]
          simp only [Bool.false_eq_true, if_false, appendAll?_eq hinner, Picture.calls,
            Nat.succ_le_succ_iff]
          by_cases hstack : Picture.maxCalls elements ≤ stack
          · simp [hstack, Picture.text, String.append_assoc]
          · simp [hstack]

theorem render?_eq (h : heap.Shows [] value picture) (stack : Nat) :
    heap.render? stack value
      = if picture.calls ≤ stack then some (heap.render value) else none := by
  rw [render?, h.renderOn?_eq stack .empty, render_of_shows h, String.empty_append]

-- Two arrays are open where the first of them comes again.
example : circles.render? 3 (.array ⟨0, 0⟩) = some "[[[...]]]" ∧
    circles.render? 2 (.array ⟨0, 0⟩) = none := by
  decide +kernel

end Heap

/-! ## The checked machine -/

/-- A computation that can fail with an error; it is `none` if an access was out of range or the
stack was not enough. -/
abbrev Guarded (α : Type) := ExceptT Error Option α

namespace Guarded

variable {α β : Type}

/-- A computation that makes no such access. -/
def lift (x : Except Error α) : Guarded α := ExceptT.mk (some x)

/-- An access. -/
def access (x : Option α) : Guarded α := ExceptT.mk (x.map .ok)

theorem lift_bind {x : Except Error α} {f : α → Guarded β} {g : α → Except Error β}
    (h : ∀ a, x = .ok a → f a = lift (g a)) : (lift x >>= f) = lift (x >>= g) := by
  cases x with
  | error e => rfl
  | ok a => exact h a rfl

theorem access_bind {x : Option α} {a : α} (h : x = some a) (f : α → Guarded β) :
    (access x >>= f) = f a := by
  subst h
  rfl

end Guarded

open Guarded in
/-- An element of an array. -/
def Heap.load? (heap : Heap) (handle : Handle) (index : Int) : Guarded Value := do
  let array ← lift (heap.get handle)
  let place ← lift (Heap.checkIndex index array.elements.size)
  access array.elements[place]?

/-- Puts a new array into a slot: one from the free list must be there, and a new one must have an
index. -/
def Heap.place? (heap : Heap) (size : Nat) (fill : Value) : Option (Handle × Heap) :=
  match heap.free with
  | index :: _ => do
    guard (index.toNat < heap.slots.size)
    return heap.place size fill
  | [] => do
    guard (heap.slots.size < UInt32.size)
    return heap.place size fill

/-- Empties a slot: its length must not exceed the count that it is taken off. -/
def Heap.release? (heap : Heap) (handle : Handle) : Option Heap := do
  let array ← heap.get? handle
  guard (array.elements.size ≤ heap.liveElements)
  return heap.release handle

/-- Sets an element, which must be one. -/
def Heap.setElement? (heap : Heap) (handle : Handle) (place : Nat) (value : Value) :
    Option Heap := do
  let array ← heap.get? handle
  guard (place < array.elements.size)
  return heap.setElement handle place value

namespace Machine

open Guarded

/-- Goes back to the caller; its saved window must fit into the file. -/
def leave? (m : Machine) (value : Option Value) : Option Machine :=
  match m.frames.back? with
  | some frame => do
    let registers ← m.registers.restore? frame.saved
    return { m with
      registers := match value with
        | some value => registers.write frame.destination value
        | none => registers
      frames := m.frames.pop
      function := frame.function
      pc := frame.returnPc }
  | none => some (m.leave value)

/-- A call of a function of the program. -/
def planCompiled? (m : Machine) (program : Program) (callee : UInt16) (fields : Fields) :
    Guarded Effect :=
  if m.limits.maxCallDepth ≤ m.frames.size then
    throw (.callStackOverflow (m.frames.size + 1))
  else
    match program.function? callee with
    | none => throw (.invalidFunction callee)
    | some target => do
      let count := target.paramCount.toNat
      lift (checkArguments target.name count fields.rc)
      let arguments ← access (m.registers.range? fields.rc count)
      let saved ← access (m.registers.window? (windowSize program m.function))
      return .enter callee target.registerCount.toNat arguments fields.ra saved

/-- A call of a native function, of which only printing needs the stack. -/
def planNative? (m : Machine) (stack : Nat) (native : Native) (fields : Fields) : Guarded Effect :=
  match native with
  | .print => do
    lift (checkArguments native.name native.arity fields.rc)
    let value := m.registers.read fields.rc
    let line ← access (m.heap.render? stack value)
    return .print line fields.ra value
  | native => lift (m.planNative native fields)

/-- What an instruction is going to do.  Where no case is given, the instruction reads nothing but
single registers, which a byte cannot miss. -/
def plan? (m : Machine) (stack : Nat) (program : Program) (op : Opcode) (fields : Fields) :
    Guarded Effect :=
  match op with
  | .loadGlobal => do
    let slot ← lift (m.globalSlot fields.imm)
    let value ← access m.globals[slot]?
    return .setRegister fields.ra value
  | .arrayGet => do
    let handle ← lift (m.registers.array op.mnemonic fields.rb)
    let index ← lift (m.registers.int op.mnemonic fields.rc)
    return .setRegister fields.ra (← m.heap.load? handle index.toInt)
  | .call => do
    match ← lift (m.registers.function op.mnemonic fields.rb) with
    | .native native => m.planNative? stack native fields
    | .compiled callee => m.planCompiled? program callee fields
  | op => lift (m.plan program op fields)

/-- What a word is going to do. -/
def planWord? (m : Machine) (stack : Nat) (program : Program) (instruction : Instruction) :
    Guarded Effect := do
  let op ← lift instruction.opcode
  m.plan? stack program op (instruction.fields op.layout)

end Machine

/-- Carries an effect out with every access checked. -/
def Effect.perform? (m : Machine) : Effect → Option Machine
  | setGlobal slot value => do
    guard (slot < m.globals.size)
    return (setGlobal slot value).apply m
  | allocate r size fill => do
    let (handle, heap) ← m.heap.place? size fill
    return { m with heap, registers := m.registers.write r (.array handle) }
  | setElement handle place value => do
    return { m with heap := ← m.heap.setElement? handle place value }
  | release handle => do
    return { m with heap := ← m.heap.release? handle }
  | enter callee size arguments destination saved => do
    return { m with
      frames := m.frames.push ⟨m.pc, m.function, destination, saved⟩
      registers := ← m.registers.enter? size arguments
      function := callee
      pc := 0 }
  | leave value => m.leave? (some value)
  | effect => some (effect.apply m)

namespace Machine

/-- Carries an instruction out with every access checked. -/
def execute? (m : Machine) (stack : Nat) (program : Program) (instruction : Instruction) :
    Option (StepResult × Machine) :=
  if m.isExhausted then some (m.fail program instruction (.budgetExhausted m.executed))
  else do
    match ← (m.planWord? stack program instruction).run with
    | .error error =>
      return { m with executed := m.executed + 1 }.fail program instruction error
    | .ok effect => return (← effect.perform? m.advanced).stepped

/-- One step with every access checked: `none` if one is out of range, or if the stack does not hold
the calls that printing nests. -/
def step? (m : Machine) (stack : Nat) (program : Program) : Option (StepResult × Machine) :=
  match m.status with
  | .running =>
    match program.function? m.function with
    | none => some (m.fail program none (.invalidFunction m.function))
    | some function =>
      match function.instruction? m.pc with
      | none => do return (← m.leave? none).stepped
      | some instruction => m.execute? stack program instruction
  | _ => some (m.step program)

end Machine

/-! ## Planning stays in range

For accesses the checks that planning makes anyway are enough; no fact about the machine is needed.
For the stack there is no check. -/

theorem Heap.load?_eq (heap : Heap) (handle : Handle) (index : Int) :
    heap.load? handle index = Guarded.lift (heap.load handle index) := by
  refine Guarded.lift_bind fun array _ => Guarded.lift_bind fun place hp => ?_
  have hlt := checkIndex_lt hp
  rw [Array.getElem?_eq_getElem hlt, Array.getD_eq_getD_getElem?, Array.getElem?_eq_getElem hlt]
  rfl

namespace Machine

variable {program : Program} {m : Machine}

theorem globalSlot_lt {slot : UInt16} {place : Nat} (h : m.globalSlot slot = .ok place) :
    place < m.globals.size := by
  rw [globalSlot] at h
  split at h
  · cases h
    assumption
  · cases h

theorem planCompiled?_eq (callee : UInt16) (fields : Fields) :
    m.planCompiled? program callee fields
      = Guarded.lift (m.planCompiled program callee fields) := by
  rw [planCompiled?, planCompiled]
  by_cases hd : m.limits.maxCallDepth ≤ m.frames.size
  · simp only [if_pos hd]
    rfl
  · simp only [if_neg hd]
    cases program.function? callee with
    | none => rfl
    | some target =>
        refine Guarded.lift_bind fun _ hargs => ?_
        have hin := checkArguments_le hargs
        rw [Guarded.access_bind (Registers.range?_eq hin),
          Guarded.access_bind (Registers.window?_eq _ _)]
        rfl

theorem planNative?_eq {stack : Nat} {native : Native} {fields : Fields}
    (hstack : native = .print → ∀ picture,
      m.heap.Shows [] (m.registers.read fields.rc) picture → picture.calls ≤ stack) :
    m.planNative? stack native fields = Guarded.lift (m.planNative native fields) := by
  cases native with
  | print =>
      obtain ⟨picture, hshows, -⟩ := Heap.exists_picture m.heap (m.registers.read fields.rc)
      have hrender := (Heap.render?_eq hshows stack).trans (if_pos (hstack rfl picture hshows))
      exact Guarded.lift_bind fun _ _ => Guarded.access_bind hrender _
  | _ => rfl

theorem plan?_eq {stack : Nat} (op : Opcode) {fields : Fields}
    (hstack : op = .call → m.registers.read fields.rb = .function (.native .print) →
      ∀ picture, m.heap.Shows [] (m.registers.read fields.rc) picture → picture.calls ≤ stack) :
    m.plan? stack program op fields = Guarded.lift (m.plan program op fields) := by
  cases op with
  | loadGlobal =>
      refine Guarded.lift_bind fun slot hs => ?_
      have hlt := globalSlot_lt hs
      rw [Guarded.access_bind (Array.getElem?_eq_getElem hlt), Array.getD_eq_getD_getElem?,
        Array.getElem?_eq_getElem hlt]
      rfl
  | arrayGet =>
      refine Guarded.lift_bind fun handle _ => Guarded.lift_bind fun index _ => ?_
      rw [Heap.load?_eq]
      exact Guarded.lift_bind fun _ _ => rfl
  | call =>
      refine Guarded.lift_bind fun callable hcallable => ?_
      have hread := Registers.read_of_function hcallable
      cases callable with
      | native native => exact planNative?_eq fun hprint => hstack rfl (hprint ▸ hread)
      | compiled callee => exact planCompiled?_eq callee fields
  | _ => rfl

/-- The next step prints the value with this picture. -/
def Prints (m : Machine) (program : Program) (picture : Picture) : Prop :=
  ∃ i, m.Attempts program i .call ∧
    m.registers.read (i.fields Opcode.call.layout).rb = .function (.native .print) ∧
    m.heap.Shows [] (m.registers.read (i.fields Opcode.call.layout).rc) picture

/-- A machine prints nothing that nests deeper than its live arrays. -/
theorem Prints.calls_le {picture : Picture} (h : m.Prints program picture) :
    picture.calls ≤ m.heap.liveArrays + 1 := by
  obtain ⟨i, -, -, hshows⟩ := h
  obtain ⟨other, hother, hdepth⟩ := Heap.exists_picture m.heap _
  obtain rfl := hshows.unique other hother
  exact (Picture.calls_le_depth other).trans (Nat.succ_le_succ hdepth)

/-- If the stack does not hold the calls of what is printed, the step does not end. -/
theorem Prints.step?_eq_none {picture : Picture} {stack : Nat} (h : m.Prints program picture)
    (hstack : stack < picture.calls) : m.step? stack program = none := by
  obtain ⟨i, hi, hcallee, hshows⟩ := h
  obtain ⟨f, hf⟩ := hi.fetches
  have hrender := (Heap.render?_eq hshows stack).trans (if_neg (Nat.not_le.mpr hstack))
  have hplan : m.planWord? stack program i = ExceptT.mk none := by
    rw [planWord?, hi.opcode]
    show m.plan? stack program .call (i.fields Opcode.call.layout) = _
    rw [plan?, Registers.function_of_read hcallee]
    show m.planNative? stack .print (i.fields Opcode.call.layout) = _
    rw [planNative?, checkArguments_native]
    show (Guarded.access (m.heap.render? stack _) >>= _ : Guarded Effect) = _
    rw [hrender]
    rfl
  rw [step?, hi.running]
  simp only [hf.function_eq, hf.instruction_eq, execute?, hi.budget, hplan]
  rfl

/-! ## Machines whose accesses are in range -/

/-- What keeps the accesses of an effect in range: the heap's parts fit together and every saved
window fits into the file.  With it, the pending calls stay within the limit. -/
structure Safe (limits : Limits) (m : Machine) : Prop where
  limits_eq : m.limits = limits
  heap : m.heap.Valid
  saved : ∀ frame ∈ m.frames, frame.saved.size ≤ 256
  depth : m.frames.size ≤ limits.maxCallDepth

namespace Safe

variable {limits : Limits}

theorem new (memory : Memory) (limits : Limits) : Safe limits (Machine.new memory limits) where
  limits_eq := rfl
  heap := .empty _ _
  saved := by simp [Machine.new]
  depth := Nat.zero_le _

theorem start (h : m.Safe limits) (index : UInt16) : (m.start program index).Safe limits := by
  rw [Machine.start]
  split <;> exact ⟨h.limits_eq, h.heap, by simp, Nat.zero_le _⟩

theorem advanced (h : m.Safe limits) : m.advanced.Safe limits :=
  ⟨h.limits_eq, h.heap, h.saved, h.depth⟩

theorem leave (h : m.Safe limits) (value : Option Value) : (m.leave value).Safe limits := by
  simp only [Machine.leave]
  cases m.frames.back? with
  | none => exact ⟨h.limits_eq, h.heap, h.saved, h.depth⟩
  | some frame =>
      refine ⟨h.limits_eq, h.heap, ?_, ?_⟩
      · intro frame' hf
        rw [← Array.mem_toList_iff, Array.toList_pop] at hf
        exact h.saved frame' (Array.mem_toList_iff.mp (List.mem_of_mem_dropLast hf))
      · have := h.depth
        simp only [Array.size_pop]
        omega

/-- An effect that was planned keeps the machine safe. -/
theorem perform (h : m.Safe limits) {fields : Fields} {op : Opcode} {effect : Effect}
    (hp : Planned program m fields op effect) : (effect.apply m.advanced).Safe limits := by
  cases hp with
  | newArray hr => exact ⟨h.limits_eq, h.heap.place hr _, h.saved, h.depth⟩
  | arraySet _ ha _ => exact ⟨h.limits_eq, h.heap.setElement ha _ _, h.saved, h.depth⟩
  | refcount count _ _ ha => exact ⟨h.limits_eq, h.heap.setRefcount ha count, h.saved, h.depth⟩
  | release _ _ ha => exact ⟨h.limits_eq, h.heap.release ha, h.saved, h.depth⟩
  | enter _ hd _ _ =>
      refine ⟨h.limits_eq, h.heap, ?_, ?_⟩
      · intro frame hf
        rcases Array.mem_push.mp hf with hf | rfl
        · exact h.saved frame hf
        · simp
      · rw [h.limits_eq] at hd
        rw [Effect.apply_frames]
        simpa [Machine.advanced] using hd
  | ret => exact h.advanced.leave (some _)
  | _ => exact ⟨h.limits_eq, h.heap, h.saved, h.depth⟩

theorem step (h : m.Safe limits) : (m.step program).2.Safe limits := by
  by_cases running : m.status = .running
  · have ht := step_transition program running
    generalize m.step program = out at ht ⊢
    cases ht with
    | lost _ => exact ⟨h.limits_eq, h.heap, h.saved, h.depth⟩
    | ended _ _ =>
        rw [stepped_snd]
        exact h.leave none
    | exhausted _ _ => exact ⟨h.limits_eq, h.heap, h.saved, h.depth⟩
    | refused _ _ _ => exact ⟨h.limits_eq, h.heap, h.saved, h.depth⟩
    | performed _ _ hp =>
        obtain ⟨op, -, hplanned⟩ := planWord_planned hp
        rw [stepped_snd]
        exact h.perform hplanned
  · rw [step_of_not_running running]
    exact h

end Safe

end Machine

/-! ## Carrying an effect out stays in range -/

theorem guard_bind {α : Type} {p : Prop} [Decidable p] (h : p) (x : Option α) :
    (do guard p; x) = x := by
  rw [guard, if_pos h]
  rfl

namespace Heap.Valid

variable {heap : Heap}

theorem place?_eq (h : heap.Valid) {size : Nat} (hr : heap.refusal? size = none) (fill : Value) :
    heap.place? size fill = some (heap.place size fill) := by
  rw [Heap.place?]
  cases hf : heap.free with
  | cons index rest =>
      obtain ⟨slot, hs, -⟩ := h.slot_of_free hf
      exact guard_bind (Array.getElem?_eq_some_iff.mp hs).1 _
  | nil => exact guard_bind ((fits_of_refusal? hr).2 hf) _

-- Without the invariant the check can fail: here the free list names a slot that is not there.
example : Heap.place? ⟨#[], [3], 0, 8, .unbounded⟩ 1 Value.zero = none := rfl

theorem release?_eq (h : heap.Valid) {handle : Handle} {array : HeapArray}
    (ha : heap.get? handle = some array) :
    heap.release? handle = some (heap.release handle) := by
  rw [Heap.release?, ha]
  exact guard_bind (h.size_le_live ha) _

end Heap.Valid

theorem Heap.setElement?_eq {heap : Heap} {handle : Handle} {array : HeapArray} {place : Nat}
    (ha : heap.get? handle = some array) (hp : place < array.elements.size) (value : Value) :
    heap.setElement? handle place value = some (heap.setElement handle place value) := by
  rw [Heap.setElement?, ha]
  exact guard_bind hp _

namespace Machine.Safe

variable {program : Program} {limits : Limits} {m : Machine}

theorem leave?_eq (h : m.Safe limits) (value : Option Value) :
    m.leave? value = some (m.leave value) := by
  simp only [Machine.leave?, Machine.leave]
  cases hb : m.frames.back? with
  | none => simp
  | some frame =>
      have hsaved := h.saved frame (Array.mem_of_back? hb)
      simp only [Registers.restore?_eq _ hsaved]
      rfl

theorem perform?_eq (h : m.Safe limits) {fields : Fields} {op : Opcode} {effect : Effect}
    (hp : Planned program m fields op effect) :
    effect.perform? m.advanced = some (effect.apply m.advanced) := by
  cases hp with
  | storeGlobal hs => exact guard_bind hs _
  | newArray hr =>
      rw [Effect.perform?, h.advanced.heap.place?_eq hr]
      rfl
  | arraySet _ ha hp =>
      have hset := Heap.setElement?_eq ha hp (m.registers.read fields.rc)
      rw [Effect.perform?, show m.advanced.heap = m.heap from rfl, hset]
      rfl
  | release _ _ ha =>
      rw [Effect.perform?, h.advanced.heap.release?_eq ha]
      rfl
  | enter _ _ _ hargs =>
      rw [Effect.perform?, Registers.enter?_eq]
      · rfl
      · rw [Registers.size_range hargs]
        exact Nat.le_trans (Nat.le_add_left _ _) hargs
  | ret => exact h.advanced.leave?_eq (some _)
  | _ => rfl

theorem execute?_eq (h : m.Safe limits) {stack : Nat} (running : m.status = .running)
    {f : Function} {instruction : Instruction} (hi : m.Fetches program f instruction)
    (hstack : ∀ picture, m.Prints program picture → picture.calls ≤ stack) :
    m.execute? stack program instruction = some (m.execute program instruction) := by
  rw [Machine.execute?, Machine.execute]
  by_cases hx : m.isExhausted = true
  · rw [if_pos hx, if_pos hx]
  · have hword : m.planWord? stack program instruction
        = Guarded.lift (m.planWord program instruction) := by
      refine Guarded.lift_bind fun op hop => plan?_eq op fun hcall hread picture hshows => ?_
      subst hcall
      exact hstack picture
        ⟨instruction, ⟨running, ⟨f, hi⟩, Bool.eq_false_iff.mpr hx, hop⟩, hread, hshows⟩
    rw [if_neg hx, if_neg hx, hword]
    cases hp : m.planWord program instruction with
    | error error => rfl
    | ok effect =>
        obtain ⟨op, -, hplanned⟩ := planWord_planned hp
        show (do return (← effect.perform? m.advanced).stepped) = some _
        rw [h.perform?_eq hplanned]
        rfl

/-- In a safe machine no access of a step is out of range. -/
theorem step?_eq (h : m.Safe limits) {stack : Nat}
    (hstack : ∀ picture, m.Prints program picture → picture.calls ≤ stack) :
    m.step? stack program = some (m.step program) := by
  rw [Machine.step?]
  cases hs : m.status with
  | running =>
      rw [step_eq, stepByPlan, hs]
      cases hf : program.function? m.function with
      | none => rfl
      | some function =>
          cases hi : function.instruction? m.pc with
          | none =>
              simp only [hi, h.leave?_eq]
              rfl
          | some instruction =>
              simp only [hi]
              exact h.execute?_eq hs ⟨hf, hi⟩ hstack
  | _ => rfl

/-- Either a step ends as it should, or the stack is not enough for it. -/
theorem step?_cases (h : m.Safe limits) (stack : Nat) (program : Program) :
    ((∀ picture, m.Prints program picture → picture.calls ≤ stack) ∧
      m.step? stack program = some (m.step program)) ∨
    (∃ picture, m.Prints program picture ∧ stack < picture.calls) ∧
      m.step? stack program = none := by
  by_cases hstack : ∀ picture, m.Prints program picture → picture.calls ≤ stack
  · exact .inl ⟨hstack, h.step?_eq hstack⟩
  · push Not at hstack
    obtain ⟨picture, hprints, hlt⟩ := hstack
    exact .inr ⟨⟨picture, hprints, hlt⟩, hprints.step?_eq_none hlt⟩

end Machine.Safe

/-! ## Every history -/

/-- What a host can ask of a machine. -/
inductive Request where
  | start (index : UInt16)
  | step

namespace Machine

/-- Does what is asked. -/
def obey (program : Program) (m : Machine) : Request → Machine
  | .start index => m.start program index
  | .step => (m.step program).2

theorem Safe.obey {program : Program} {limits : Limits} {m : Machine} (h : m.Safe limits) :
    ∀ request : Request, (m.obey program request).Safe limits
  | .start index => h.start index
  | .step => h.step

/-- What holds of a machine and is kept by everything that can be asked of it holds after any
requests, with whatever programs. -/
theorem holds_after {P : Machine → Prop}
    (hobey : ∀ {m : Machine} (program : Program) (request : Request),
      P m → P (m.obey program request))
    (requests : List (Program × Request)) :
    ∀ {m : Machine}, P m →
      P (requests.foldl (fun m request => m.obey request.1 request.2) m) := by
  induction requests with
  | nil => intro m h; exact h
  | cons request rest ih => intro m h; exact ih (hobey request.1 request.2 h)

theorem Safe.requests {limits : Limits} (requests : List (Program × Request)) {m : Machine}
    (h : m.Safe limits) :
    (requests.foldl (fun m request => m.obey request.1 request.2) m).Safe limits :=
  holds_after (fun _ request h => h.obey request) requests h

/-- **Accesses are in range, and steps end where the stack suffices.**  Nothing is asked of the
programs: register and parameter counts, instruction words and constant indices may be anything.
After any requests, a step makes no access out of range; it ends exactly if the host's stack holds
the calls of what it prints, if it prints at all, and these are at most one more than the live
arrays. -/
theorem step_ends_iff (memory : Memory) (limits : Limits) (requests : List (Program × Request))
    (program : Program) (stack : Nat) :
    let m := requests.foldl (fun m request => m.obey request.1 request.2)
      (Machine.new memory limits)
    m.registers.toArray.size = 256 ∧
    (∀ frame ∈ m.frames, frame.saved.size ≤ 256) ∧
    m.frames.size ≤ limits.maxCallDepth ∧
    (m.step? stack program = some (m.step program) ↔
      ∀ picture, m.Prints program picture → picture.calls ≤ stack) ∧
    (m.step? stack program = none ↔
      ∃ picture, m.Prints program picture ∧ stack < picture.calls) ∧
    ∀ picture, m.Prints program picture → picture.calls ≤ m.heap.liveArrays + 1 := by
  intro m
  have hsafe : m.Safe limits := Safe.requests requests (Safe.new memory limits)
  refine ⟨m.registers.size_toArray, hsafe.saved, hsafe.depth, ?_⟩
  obtain ⟨hall, heq⟩ | ⟨⟨picture, hprints, hlt⟩, heq⟩ := hsafe.step?_cases stack program
  · refine ⟨⟨fun _ => hall, fun _ => heq⟩, ⟨fun hnone => ?_, ?_⟩, fun _ hp => hp.calls_le⟩
    · cases heq.symm.trans hnone
    · rintro ⟨picture, hprints, hlt⟩
      exact absurd (hall picture hprints) (Nat.not_le.mpr hlt)
  · refine ⟨⟨fun hsome => ?_, fun hall => ?_⟩, ⟨fun _ => ⟨picture, hprints, hlt⟩, fun _ => heq⟩,
      fun _ hp => hp.calls_le⟩
    · cases heq.symm.trans hsome
    · exact absurd (hall picture hprints) (Nat.not_le.mpr hlt)

end Machine

end RegisterMachine
