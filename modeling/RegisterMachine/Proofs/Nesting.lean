import Mathlib
import RegisterMachine.Proofs.Access
import RegisterMachine.Proofs.ArrayBounds
import RegisterMachine.Proofs.Persistence

/-!
# Printing takes as much stack as there is

A loop that puts one array around another makes a value whose printing nests as many calls as the
loop has made arrays, and one more.  `nesting rounds` is such a program: it makes four arrays in
each round, and prints the last one at the end.  Nothing but the heap's limit stops it, so with the limit
that a machine has unless told otherwise it takes millions of nested calls to print the value.

The loop keeps `Nested`: where the machine stands, how many arrays there are, each around the one
before it, and how many rounds are left.  There is one lemma for each instruction of the loop; a
round is put together from them (`Nested.round`), and the loop from rounds (`Nested.rounds_left`).
-/

namespace RegisterMachine

/-! ## Arrays around arrays -/

/-- The innermost value, or the array that was made last of so many. -/
def nest : Nat → Value
  | 0 => .i32 0
  | n + 1 => .array ⟨UInt32.ofNat n, 0⟩

/-- The picture of `nest`. -/
def Picture.nest : Nat → Picture
  | 0 => .plain (.i32 0)
  | n + 1 => .opened ⟨UInt32.ofNat n, 0⟩ [Picture.nest n]

theorem Picture.calls_nest : ∀ n, (Picture.nest n).calls = n + 1
  | 0 => rfl
  | n + 1 => by
      rw [Picture.nest, Picture.calls, Picture.maxCalls, Picture.maxCalls, calls_nest n,
        Nat.max_eq_left (Nat.zero_le _)]

namespace Heap

/-- A heap with nothing but `count` arrays, each around the one before it. -/
structure IsNest (limit count : Nat) (heap : Heap) : Prop where
  valid : heap.Valid
  free : heap.free = []
  slots : heap.slots.size = count
  live : heap.liveElements = count
  limit_eq : heap.limit = limit
  memory : heap.memory = .unbounded
  arrays : ∀ i < count, heap.get? ⟨UInt32.ofNat i, 0⟩ = some ⟨1, #[nest i]⟩

namespace IsNest

variable {limit count : Nat} {heap : Heap}

theorem empty (limit : Nat) : IsNest limit 0 (Heap.empty .unbounded limit) :=
  ⟨.empty _ _, rfl, rfl, rfl, rfl, rfl, fun i hi => absurd hi (Nat.not_lt_zero i)⟩

/-- There is room for one array more. -/
theorem refusal? (h : IsNest limit count heap) (hcount : count < limit)
    (hslots : count < UInt32.size) : heap.refusal? 1 = none := by
  rw [Heap.refusal?, if_neg]
  rintro (hl | hr | ⟨-, hfull⟩)
  · rw [h.limit_eq, h.live] at hl
    omega
  · rw [h.memory] at hr
    cases hr
  · rw [h.slots] at hfull
    omega

/-- An array around the last one. -/
theorem place (h : IsNest limit count heap) (hcount : count < limit)
    (hslots : count < UInt32.size) :
    (heap.place 1 (nest count)).1 = ⟨UInt32.ofNat count, 0⟩ ∧
    IsNest limit (count + 1) (heap.place 1 (nest count)).2 := by
  have hr := h.refusal? hcount hslots
  have hplace : heap.place 1 (nest count) = (⟨UInt32.ofNat count, 0⟩,
      { heap with
        slots := heap.slots.push ⟨0, some ⟨1, #[nest count]⟩⟩
        liveElements := count + 1 }) := by
    rw [Heap.place, h.free, h.slots, h.live]
    rfl
  have hget := (get?_place h.valid hr (nest count)).2
  refine ⟨congrArg Prod.fst hplace, h.valid.place hr _, ?_, ?_, ?_, ?_, ?_, fun i hi => ?_⟩
  · rw [hplace]; exact h.free
  · rw [hplace, Array.size_push, h.slots]
  · rw [hplace]
  · rw [hplace]; exact h.limit_eq
  · rw [hplace]; exact h.memory
  · rw [hget, hplace, Function.update_apply]
    split
    · rename_i heq
      have hindex := congrArg UInt32.toNat (congrArg Handle.index heq)
      simp only at hindex
      rw [UInt32.toNat_ofNat_of_lt' (by omega), UInt32.toNat_ofNat_of_lt' hslots] at hindex
      rw [hindex]
      rfl
    · rename_i hne
      refine h.arrays i (Nat.lt_of_le_of_ne (Nat.le_of_lt_succ hi) ?_)
      rintro rfl
      exact hne rfl

/-- Inside other arrays of the heap only, an array shows all that it holds. -/
theorem shows (h : IsNest limit count heap) (hslots : count ≤ UInt32.size) :
    ∀ n ≤ count, ∀ path : List Handle, (∀ handle ∈ path, n ≤ handle.index.toNat) →
      heap.Shows path (nest n) (.nest n)
  | 0, _, _, _ => .plain rfl
  | n + 1, hn, path, hpath => by
      have hindex : (UInt32.ofNat n).toNat = n := UInt32.toNat_ofNat_of_lt' (by omega)
      refine .elements (fun hmem => ?_) (h.arrays n hn) (.cons ?_ .nil)
      · have hle := hpath _ hmem
        simp only [hindex] at hle
        omega
      · refine shows h hslots n (by omega) _ (List.forall_mem_cons.mpr ⟨hindex.ge, ?_⟩)
        exact fun handle hmem => Nat.le_of_succ_le (hpath handle hmem)

end IsNest

end Heap

/-! ## The loop -/

/-- The loop.
```
       LOAD_CONST_I32 r0, k0
       LOAD_I32 r1, 1
       LOAD_NATIVE r4, k0
again: NEW_ARRAY r2, r1, r2       four times
       SUB_I32 r0, r0, r1
       GT_I32 r5, r0, r3
       JUMP_IF r5, again
       CALL r6, r4, r2
       RET r0
``` -/
def nestingCode : Function :=
  ⟨"main", ⟨"<source>", 1⟩, 0, 0, 7,
    #[⟨0x04000000⟩, ⟨0x02010001⟩, ⟨0x09040000⟩, ⟨0x70020102⟩, ⟨0x70020102⟩, ⟨0x70020102⟩,
      ⟨0x70020102⟩, ⟨0x21000001⟩, ⟨0x42050003⟩, ⟨0x91050003⟩, ⟨0x93060402⟩, ⟨0x94000000⟩]⟩

/-- A program that makes `4 * rounds` arrays, one around the other, and prints the last. -/
def nesting (rounds : Nat) : Program :=
  { Program.empty with
    functions := #[nestingCode]
    i32Constants := .ofEntries #[Int32.ofNat rounds]
    strings := .ofEntries #["print"] }

namespace Machine

/-- The machine stands at `place`, has made `count` arrays and has `left` rounds to go. -/
structure Nested (limit place count : Nat) (left : Int32) (m : Machine) : Prop where
  running : m.status = .running
  function : m.function = 0
  pc : m.pc = place
  budget : m.limits.budget = none
  left_eq : m.registers.read 0 = .i32 left
  one : m.registers.read 1 = .i32 1
  value : m.registers.read 2 = nest count
  zero : m.registers.read 3 = .i32 0
  print : m.registers.read 4 = .function (.native .print)
  heap : m.heap.IsNest limit count

/-- A running machine without a budget attempts what stands at its place. -/
theorem attempts_nesting {rounds : Nat} {m : Machine} {i : Instruction} {op : Opcode}
    (running : m.status = .running) (hfunction : m.function = 0) (hbudget : m.limits.budget = none)
    (hi : nestingCode.instruction? m.pc = some i) (hop : i.opcode = .ok op) :
    m.Attempts (nesting rounds) i op := by
  refine ⟨running, ⟨nestingCode, ?_, hi⟩, ?_, hop⟩
  · rw [hfunction]; rfl
  · rw [isExhausted, hbudget]

namespace Nested

variable {limit place count : Nat} {left : Int32} {m : Machine} (rounds : Nat)

theorem attempts (h : Nested limit place count left m) {i : Instruction} {op : Opcode}
    (hi : nestingCode.instruction? place = some i) (hop : i.opcode = .ok op) :
    m.Attempts (nesting rounds) i op :=
  attempts_nesting h.running h.function h.budget (h.pc.symm ▸ hi) hop

/-- `NEW_ARRAY r2, r1, r2` -/
theorem newArray (h : Nested limit place count left m) (hcount : count < limit)
    (hslots : count < UInt32.size) (hi : nestingCode.instruction? place = some ⟨0x70020102⟩) :
    Nested limit (place + 1) (count + 1) left (m.step (nesting rounds)).2 := by
  have hplan : m.plan (nesting rounds) .newArray (Instruction.fields ⟨0x70020102⟩ .three)
      = .ok (.allocate 2 1 (nest count)) := by
    have hone : m.registers.int Opcode.newArray.mnemonic 1 = .ok 1 := Registers.int_of_read h.one _
    show (m.registers.int Opcode.newArray.mnemonic 1 >>= _) = _
    have hfits : m.heap.refusal? (1 : Int32).toInt.toNat = none := h.heap.refusal? hcount hslots
    simp only [hone, bind, Except.bind, hfits, ← h.value]
    rfl
  obtain ⟨hhandle, hheap⟩ := h.heap.place hcount hslots
  rw [(h.attempts rounds hi (Instruction.opcode_of_byte rfl)).step_of_plan hplan rfl]
  refine ⟨h.running, h.function, congrArg (· + 1) h.pc, h.budget, ?_, ?_, ?_, ?_, ?_, hheap⟩
  · exact (Registers.read_write_of_ne _ _ (by decide)).trans h.left_eq
  · exact (Registers.read_write_of_ne _ _ (by decide)).trans h.one
  · exact (Registers.read_write_self _ _ _).trans (congrArg Value.array hhandle)
  · exact (Registers.read_write_of_ne _ _ (by decide)).trans h.zero
  · exact (Registers.read_write_of_ne _ _ (by decide)).trans h.print

/-- A register is written that neither the arrays nor the calls need. -/
theorem write (h : Nested limit place count left m) {r : UInt8} (hr : r ∉ [1, 2, 3, 4])
    {value : Value} {left' : Int32} (hleft : (m.registers.write r value).read 0 = .i32 left') :
    Nested limit (place + 1) count left' (m.advanced.write r value) := by
  simp only [List.mem_cons, List.not_mem_nil, or_false, not_or] at hr
  obtain ⟨hr₁, hr₂, hr₃, hr₄⟩ := hr
  refine ⟨h.running, h.function, congrArg (· + 1) h.pc, h.budget, hleft, ?_, ?_, ?_, ?_, h.heap⟩
  · exact (Registers.read_write_of_ne _ _ hr₁).trans h.one
  · exact (Registers.read_write_of_ne _ _ hr₂).trans h.value
  · exact (Registers.read_write_of_ne _ _ hr₃).trans h.zero
  · exact (Registers.read_write_of_ne _ _ hr₄).trans h.print

theorem numberIn_of_read {r : UInt8} {n : Int32} (h : m.registers.read r = .i32 n)
    (name : String) : m.numberIn Int32 name r = .ok n := by
  rw [numberIn, Registers.expect, h]
  rfl

/-- `SUB_I32 r0, r0, r1` -/
theorem subtract (h : Nested limit 7 count left m) :
    Nested limit 8 count (left - 1) (m.step (nesting rounds)).2 := by
  have hplan : m.plan (nesting rounds) (.arith .sub .i32) (Instruction.fields ⟨0x21000001⟩ .three)
      = .ok (.setRegister 0 (.i32 (left - 1))) := by
    show (m.numberIn Int32 _ 0 >>= fun a => m.numberIn Int32 _ 1 >>= _) = _
    rw [numberIn_of_read h.left_eq, numberIn_of_read h.one]
    rfl
  rw [(h.attempts rounds rfl (Instruction.opcode_of_byte rfl)).step_of_plan hplan rfl]
  exact h.write (by decide) (Registers.read_write_self _ _ _)

/-- `GT_I32 r5, r0, r3` -/
theorem compare (h : Nested limit 8 count left m) :
    Nested limit 9 count left (m.step (nesting rounds)).2 ∧
    (m.step (nesting rounds)).2.registers.read 5 = .bool (0 < left) := by
  have hplan : m.plan (nesting rounds) (.compare .gt .i32) (Instruction.fields ⟨0x42050003⟩ .three)
      = .ok (.setRegister 5 (.bool (0 < left))) := by
    show (m.numberIn Int32 _ 0 >>= fun a => m.numberIn Int32 _ 3 >>= _) = _
    rw [numberIn_of_read h.left_eq, numberIn_of_read h.zero]
    rfl
  rw [(h.attempts rounds rfl (Instruction.opcode_of_byte rfl)).step_of_plan hplan rfl]
  refine ⟨h.write (by decide) ?_, Registers.read_write_self _ _ _⟩
  exact (Registers.read_write_of_ne _ _ (by decide)).trans h.left_eq

/-- `JUMP_IF r5, 3` -/
theorem branch (h : Nested limit 9 count left m) {again : Bool}
    (hagain : m.registers.read 5 = .bool again) :
    Nested limit (if again then 3 else 10) count left (m.step (nesting rounds)).2 := by
  have hplan : m.plan (nesting rounds) .jumpIf (Instruction.fields ⟨0x91050003⟩ .two)
      = .ok (if again then .jump 3 else .proceed) := by
    have hbool : m.registers.bool Opcode.jumpIf.mnemonic 5 = .ok again := by
      rw [Registers.bool, Registers.expect, hagain]
    show (m.registers.bool Opcode.jumpIf.mnemonic 5 >>= _) = _
    rw [hbool]
    rfl
  cases again with
  | true =>
      rw [(h.attempts rounds rfl (Instruction.opcode_of_byte rfl)).step_of_plan hplan rfl]
      exact { h with pc := rfl }
  | false =>
      rw [(h.attempts rounds rfl (Instruction.opcode_of_byte rfl)).step_of_plan hplan rfl]
      exact { h with pc := congrArg (· + 1) h.pc }

/-- One round: four arrays more. -/
theorem round (h : Nested limit 3 count left m) (hlimit : count + 4 ≤ limit)
    (hslots : count + 4 ≤ UInt32.size) :
    Nested limit (if 0 < left - 1 then 3 else 10) (count + 4) (left - 1)
      (runFor (nesting rounds) 7 m) := by
  have h₁ := h.newArray rounds (by omega) (by omega) rfl
  have h₂ := h₁.newArray rounds (by omega) (by omega) rfl
  have h₃ := h₂.newArray rounds (by omega) (by omega) rfl
  have h₄ := h₃.newArray rounds (by omega) (by omega) rfl
  obtain ⟨h₅, hagain⟩ := (h₄.subtract rounds).compare rounds
  simpa only [runFor_succ, runFor_zero, decide_eq_true_eq] using h₅.branch rounds hagain

/-- All rounds that are left. -/
theorem rounds_left (n : Nat) :
    ∀ {count : Nat} {m : Machine}, Nested limit 3 count (Int32.ofNat (n + 1)) m → n + 1 < 2 ^ 31 →
      count + 4 * (n + 1) ≤ limit → count + 4 * (n + 1) ≤ UInt32.size →
      Nested limit 10 (count + 4 * (n + 1)) 0 (runFor (nesting rounds) (7 * (n + 1)) m) := by
  induction n with
  | zero =>
      intro count m h _ hlimit hslots
      exact h.round rounds hlimit hslots
  | succ n ih =>
      intro count m h hn hlimit hslots
      have hleft : Int32.ofNat (n + 1 + 1) - 1 = Int32.ofNat (n + 1) := by
        rw [Int32.ofNat_add]
        simp
      have hpos : 0 < Int32.ofNat (n + 1) := by
        rw [Int32.lt_iff_toInt_lt, Int32.toInt_ofNat_of_lt (by omega)]
        simp
      have hround := h.round rounds (by omega) (by omega)
      rw [hleft, if_pos hpos] at hround
      have hrest := ih hround (by omega) (by omega) (by omega)
      rwa [← runFor_add, Nat.add_assoc, show 4 + 4 * (n + 1) = 4 * (n + 1 + 1) by omega,
        show 7 + 7 * (n + 1) = 7 * (n + 1 + 1) by omega] at hrest

end Nested

/-- Where the loop begins: the first three instructions have loaded three registers. -/
theorem nested_start {limits : Limits} (hbudget : limits.budget = none) (rounds : Nat) :
    Nested limits.heapLimit 3 0 (Int32.ofNat rounds) (runFor (nesting rounds) 3
      ((Machine.new .unbounded limits).start (nesting rounds) 0)) := by
  let m₀ := (Machine.new .unbounded limits).start (nesting rounds) 0
  let m₁ := m₀.advanced.write 0 (.i32 (Int32.ofNat rounds))
  let m₂ := m₁.advanced.write 1 (.i32 1)
  let m₃ := m₂.advanced.write 4 (.function (.native .print))
  have h₀ : m₀.step (nesting rounds) = (.running, m₁) := by
    have hi : m₀.Attempts (nesting rounds) ⟨0x04000000⟩ (.loadConst .i32) :=
      attempts_nesting rfl rfl hbudget rfl (Instruction.opcode_of_byte rfl)
    have hplan : m₀.plan (nesting rounds) (.loadConst .i32) (Instruction.fields ⟨0x04000000⟩ .two)
        = .ok (.setRegister 0 (.i32 (Int32.ofNat rounds))) := rfl
    exact hi.step_of_plan hplan rfl
  have h₁ : m₁.step (nesting rounds) = (.running, m₂) := by
    have hi : m₁.Attempts (nesting rounds) ⟨0x02010001⟩ .loadI32 :=
      attempts_nesting rfl rfl hbudget rfl (Instruction.opcode_of_byte rfl)
    have hplan : m₁.plan (nesting rounds) .loadI32 (Instruction.fields ⟨0x02010001⟩ .two)
        = .ok (.setRegister 1 (.i32 1)) := rfl
    exact hi.step_of_plan hplan rfl
  have h₂ : m₂.step (nesting rounds) = (.running, m₃) := by
    have hi : m₂.Attempts (nesting rounds) ⟨0x09040000⟩ .loadNative :=
      attempts_nesting rfl rfl hbudget rfl (Instruction.opcode_of_byte rfl)
    have hplan : m₂.plan (nesting rounds) .loadNative (Instruction.fields ⟨0x09040000⟩ .two)
        = .ok (.setRegister 4 (.function (.native .print))) := rfl
    exact hi.step_of_plan hplan rfl
  have hrun : runFor (nesting rounds) 3 m₀ = m₃ := by
    rw [runFor_succ, h₀, runFor_succ, h₁, runFor_succ, h₂, runFor_zero]
  rw [hrun]
  exact ⟨rfl, rfl, rfl, hbudget, rfl, rfl, rfl, rfl, rfl, .empty _⟩

/-- The value is printed that the loop has made. -/
theorem Nested.prints {limit count : Nat} {left : Int32} {m : Machine}
    (h : Nested limit 10 count left m) (hslots : count ≤ UInt32.size) (rounds : Nat) :
    m.Prints (nesting rounds) (.nest count) := by
  refine ⟨⟨0x93060402⟩, h.attempts rounds rfl (Instruction.opcode_of_byte rfl), h.print, ?_⟩
  show m.heap.Shows [] (m.registers.read 2) _
  rw [h.value]
  exact h.heap.shows hslots count (Nat.le_refl _) [] (List.forall_mem_nil _)

/-! ## A run on a stack that is too small -/

/-- So many steps on a host whose stack holds `stack` nested calls: `none` once a step does not
end. -/
def run? (program : Program) (stack : Nat) : Nat → Machine → Option Machine
  | 0, m => some m
  | n + 1, m => do run? program stack n (← m.step? stack program).2

/-- If a step of a run does not end on this stack, nor does the run. -/
theorem Safe.run?_eq_none {program : Program} {limits : Limits} {stack : Nat} (n : Nat) :
    ∀ {m : Machine}, m.Safe limits → (runFor program n m).step? stack program = none →
      run? program stack (n + 1) m = none := by
  induction n with
  | zero =>
      intro m _ h
      rw [run?, show m.step? stack program = none from h]
      rfl
  | succ n ih =>
      intro m hsafe h
      rw [run?]
      obtain ⟨-, heq⟩ | ⟨-, heq⟩ := hsafe.step?_cases stack program
      · rw [heq]
        rw [runFor_succ] at h
        exact ih hsafe.step h
      · rw [heq]
        rfl

/-- On a stack with no more than one call for each array, the run of `nesting` does not end. -/
theorem run?_nesting {limits : Limits} (hbudget : limits.budget = none) {rounds stack : Nat}
    (hrounds : 0 < rounds) (hsmall : rounds < 2 ^ 29) (hlimit : 4 * rounds ≤ limits.heapLimit)
    (hstack : stack ≤ 4 * rounds) :
    run? (nesting rounds) stack (7 * rounds + 4)
      ((Machine.new .unbounded limits).start (nesting rounds) 0) = none := by
  obtain ⟨n, rfl⟩ : ∃ n, rounds = n + 1 := ⟨rounds - 1, by omega⟩
  have hslots : 0 + 4 * (n + 1) ≤ UInt32.size := by
    show _ ≤ 2 ^ 32
    omega
  have hloop := (nested_start hbudget (n + 1)).rounds_left (n + 1) n (by omega) (by omega) hslots
  rw [← runFor_add] at hloop
  have hlt : stack < (Picture.nest (0 + 4 * (n + 1))).calls := by
    rw [Picture.calls_nest]
    omega
  have hnone := (hloop.prints hslots (n + 1)).step?_eq_none hlt
  have hsafe : Safe limits ((Machine.new .unbounded limits).start (nesting (n + 1)) 0) :=
    (Safe.new .unbounded limits).start 0
  rw [show 7 * (n + 1) + 4 = 3 + 7 * (n + 1) + 1 by omega]
  exact hsafe.run?_eq_none _ hnone

/-- **A program that is too much for the stack.**  The program of two million rounds can be stored
and loaded.  With the limits that a machine has unless told otherwise, its run does not end on a
stack that holds eight million nested calls or less. -/
theorem deep_printing_overflows :
    (∃ bytes, Program.ofBytes bytes = .ok (nesting 2000000)) ∧
    ∀ stack ≤ 8000000, run? (nesting 2000000) stack 14000004
      ((Machine.new .unbounded Limits.default).start (nesting 2000000) 0) = none := by
  refine ⟨⟨_, Program.ofBytes_toBytes ?_ ?_ (.inr (by decide))⟩, fun stack hstack => ?_⟩
  · exact ⟨by decide, ⟨rfl, by decide⟩, .empty, .empty, .empty, ⟨rfl, by decide⟩⟩
  · refine ⟨fun f hf => ?_, fun s hs => ?_⟩
    · rw [Array.mem_singleton.mp hf]
      exact ⟨by decide, by decide, by decide⟩
    · rw [Array.mem_singleton.mp hs]
      decide
  · exact run?_nesting rfl (by decide) (by decide) (by decide) hstack

end Machine

end RegisterMachine
