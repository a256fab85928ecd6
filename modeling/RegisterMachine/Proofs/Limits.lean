import Mathlib
import RegisterMachine.Proofs.Heap
import RegisterMachine.Proofs.Step

/-!
# Limits are transparent

A machine with higher limits does the same, step for step, as long as the lower limits are not what
stops it.  The limits are read in three places only: the budget before an instruction is carried
out, the depth before a function is entered, and the room on the heap before an array is made; each
of them fails with an error of its own.  So a step that does not end in one of these errors is the
same under higher limits (`step_withLimits`), and so is a run (`runFor_withLimits`).

The memory that arrays are made in is the same for both runs and otherwise any.  Whether it has room
for an array depends on the live elements and not on the limits, so nothing is assumed of it.
-/

namespace RegisterMachine

/-- No limit of `low` is above that of `high`; to have no budget is the highest. -/
structure Limits.AtMost (low high : Limits) : Prop where
  depth : low.maxCallDepth ≤ high.maxCallDepth
  budget : ∀ b, high.budget = some b → ∃ a, low.budget = some a ∧ a ≤ b
  heap : low.heapLimit ≤ high.heapLimit

/-- Errors that another limit could have spared. -/
def Error.isLimit : Error → Bool
  | .budgetExhausted _ | .callStackOverflow _ | .outOfMemory _ => true
  | _ => false

/-- Computations that fail for other reasons than limits. -/
def Unlimited {α : Type} (x : Except Error α) : Prop :=
  ∀ error, x = .error error → error.isLimit = false

/-- Two computations with the same first part are the same if they go on alike. -/
theorem Unlimited.bind_congr {α β : Type} {x : Except Error α} {f g : α → Except Error β}
    (h : Unlimited (x >>= f)) (hfg : ∀ a, Unlimited (f a) → g a = f a) : x >>= g = x >>= f := by
  cases x with
  | error error => rfl
  | ok a => exact hfg a h

/-! ## The heap under another limit -/

/-- The same heap with another limit. -/
def Heap.withLimit (heap : Heap) (limit : Nat) : Heap := { heap with limit }

namespace Heap

variable {heap : Heap} {limit : Nat}

theorem get?_withLimit (handle : Handle) :
    (heap.withLimit limit).get? handle = heap.get? handle := rfl

theorem renderWithin_withLimit (room : Nat) :
    (heap.withLimit limit).renderWithin room = heap.renderWithin room := by
  induction room with
  | zero =>
      funext path text value
      cases value with
      | array handle => simp only [renderWithin, get?_withLimit]
      | _ => simp only [renderWithin]
  | succ room ih =>
      funext path text value
      cases value with
      | array handle => simp only [renderWithin, get?_withLimit, ih]
      | _ => simp only [renderWithin]

theorem render_withLimit (value : Value) :
    (heap.withLimit limit).render value = heap.render value := by
  rw [render, renderWithin_withLimit]
  rfl

/-- What fits under a limit fits under a higher one. -/
theorem refusal?_withLimit (hle : heap.limit ≤ limit) {size : Nat}
    (h : heap.refusal? size = none) : (heap.withLimit limit).refusal? size = none := by
  rw [refusal?] at h ⊢
  split at h
  · cases h
  · rename_i hn
    rw [if_neg]
    simp only [not_or, Nat.not_lt] at hn ⊢
    exact ⟨hn.1.trans hle, hn.2⟩

theorem isLimit_of_refusal? {size : Nat} {error : Error} (h : heap.refusal? size = some error) :
    error.isLimit = true := by
  rw [refusal?] at h
  split at h
  · cases h; rfl
  · cases h

theorem place_withLimit (size : Nat) (fill : Value) :
    (heap.withLimit limit).place size fill
      = ((heap.place size fill).1, (heap.place size fill).2.withLimit limit) := by
  cases hf : heap.free with
  | nil => simp only [place, withLimit, hf]
  | cons index rest => simp only [place, withLimit, hf]

end Heap

namespace Machine

variable {program : Program} {m : Machine} {limits : Limits}

/-! ## Machines under other limits -/

/-- The same machine with other limits. -/
def withLimits (m : Machine) (limits : Limits) : Machine :=
  { m with limits, heap := m.heap.withLimit limits.heapLimit }

/-- The machine and its heap have these limits. -/
structure Bounded (limits : Limits) (m : Machine) : Prop where
  limits_eq : m.limits = limits
  heap_eq : m.heap.limit = limits.heapLimit

/-- The run was not stopped by a limit. -/
def WithinLimits (m : Machine) : Prop :=
  ∀ fault, m.status = .faulted fault → fault.error.isLimit = false

theorem leave_withLimits (value : Option Value) :
    (m.withLimits limits).leave value = (m.leave value).withLimits limits := by
  cases hb : m.frames.back? with
  | none => simp only [leave, withLimits, hb]
  | some frame => simp only [leave, withLimits, hb]

theorem apply_withLimits (effect : Effect) :
    effect.apply (m.withLimits limits) = (effect.apply m).withLimits limits := by
  cases effect with
  | allocate r size fill => simp only [Effect.apply, withLimits, Heap.place_withLimit]
  | leave value => exact leave_withLimits (some value)
  | _ => rfl

theorem stepped_withLimits :
    (m.withLimits limits).stepped = (m.stepped.1, m.stepped.2.withLimits limits) := by
  cases hs : m.status <;> simp only [stepped, withLimits, hs]

/-! ## Planning under higher limits -/

section Plan

variable {fields : Fields}

theorem planNative_withLimits (native : Native) :
    (m.withLimits limits).planNative native fields = m.planNative native fields := by
  cases native with
  | print => simp only [planNative, withLimits, Heap.render_withLimit]
  | _ => rfl

/-- A call that is not too deep is not too deep under higher limits. -/
theorem planCompiled_withLimits (hle : m.limits.AtMost limits) {callee : UInt16}
    (h : Unlimited (m.planCompiled program callee fields)) :
    (m.withLimits limits).planCompiled program callee fields
      = m.planCompiled program callee fields := by
  by_cases hd : m.limits.maxCallDepth ≤ m.frames.size
  · have herror : m.planCompiled program callee fields
        = .error (.callStackOverflow (m.frames.size + 1)) := if_pos hd
    cases h _ herror
  · have hd' : ¬ limits.maxCallDepth ≤ m.frames.size := fun hn => hd (hle.depth.trans hn)
    have hsame : (m.withLimits limits).planCompiled program callee fields = _ := if_neg hd'
    exact hsame.trans (if_neg hd).symm

/-- What is planned, or why not, is the same under higher limits unless the reason is a limit. -/
theorem plan_withLimits (hle : m.limits.AtMost limits) (hheap : m.heap.limit ≤ limits.heapLimit)
    {op : Opcode} (h : Unlimited (m.plan program op fields)) :
    (m.withLimits limits).plan program op fields = m.plan program op fields := by
  cases op with
  | newArray =>
      refine h.bind_congr fun length h => ?_
      by_cases hneg : length.toInt < 0
      · simp only [hneg]
        rfl
      · simp only [hneg, if_false] at h ⊢
        cases hr : m.heap.refusal? length.toInt.toNat with
        | none => simp only [withLimits, Heap.refusal?_withLimit hheap hr]
        | some error =>
            rw [hr] at h
            cases (Heap.isLimit_of_refusal? hr).symm.trans (h error rfl)
  | call =>
      refine h.bind_congr fun callable h => ?_
      cases callable with
      | native native => exact planNative_withLimits native
      | compiled callee => exact planCompiled_withLimits hle h
  | arith op type => cases type <;> rfl
  | neg type => cases type <;> rfl
  | compare op type => cases type <;> rfl
  | _ => rfl

theorem planWord_withLimits (hle : m.limits.AtMost limits)
    (hheap : m.heap.limit ≤ limits.heapLimit) {instruction : Instruction}
    (h : Unlimited (m.planWord program instruction)) :
    (m.withLimits limits).planWord program instruction = m.planWord program instruction :=
  h.bind_congr fun _ h => plan_withLimits hle hheap h

end Plan

/-! ## Steps under higher limits -/

theorem isExhausted_eq_false :
    m.isExhausted = false ↔ ∀ b, m.limits.budget = some b → m.executed < b := by
  rw [isExhausted]
  cases m.limits.budget with
  | none => simp
  | some a => simp

/-- Who has not used up a budget has not used up a higher one. -/
theorem isExhausted_withLimits (hle : m.limits.AtMost limits) (h : m.isExhausted = false) :
    (m.withLimits limits).isExhausted = false := by
  rw [isExhausted_eq_false] at h ⊢
  intro b hb
  obtain ⟨a, ha, hab⟩ := hle.budget b hb
  exact (h a ha).trans_le hab

theorem execute_withLimits (hle : m.limits.AtMost limits) (hheap : m.heap.limit ≤ limits.heapLimit)
    {instruction : Instruction} (h : (m.execute program instruction).2.WithinLimits) :
    (m.withLimits limits).execute program instruction
      = ((m.execute program instruction).1,
          (m.execute program instruction).2.withLimits limits) := by
  by_cases hx : m.isExhausted = true
  · rw [execute, if_pos hx] at h
    cases h _ rfl
  · have hx' := isExhausted_withLimits hle (Bool.not_eq_true _ ▸ hx)
    rw [execute, if_neg hx] at h
    rw [execute, execute, if_neg hx, if_neg (Bool.not_eq_true _ ▸ hx')]
    cases hp : m.planWord program instruction with
    | error error =>
        rw [hp] at h
        have hplan : Unlimited (m.planWord program instruction) := by
          intro error' he
          cases hp.symm.trans he
          exact h _ rfl
        rw [planWord_withLimits hle hheap hplan, hp]
        rfl
    | ok effect =>
        have hplan : Unlimited (m.planWord program instruction) := by
          intro error' he
          cases hp.symm.trans he
        rw [planWord_withLimits hle hheap hplan, hp]
        exact (congrArg stepped (apply_withLimits (m := m.advanced) effect)).trans
          stepped_withLimits

/-- A step that no limit stops is the same under higher limits. -/
theorem step_withLimits (hle : m.limits.AtMost limits) (hheap : m.heap.limit ≤ limits.heapLimit)
    (h : (m.step program).2.WithinLimits) :
    (m.withLimits limits).step program
      = ((m.step program).1, (m.step program).2.withLimits limits) := by
  cases hs : m.status with
  | running =>
      have hs' : (m.withLimits limits).status = .running := hs
      rw [step_eq, stepByPlan, hs] at h
      rw [step_eq, step_eq, stepByPlan, stepByPlan, hs, hs',
        show (m.withLimits limits).function = m.function from rfl,
        show (m.withLimits limits).pc = m.pc from rfl]
      cases hf : program.function? m.function with
      | none => rfl
      | some f =>
          simp only [hf] at h ⊢
          cases hi : f.instruction? m.pc with
          | none =>
              simp only
              rw [leave_withLimits, stepped_withLimits]
          | some i =>
              simp only [hi] at h ⊢
              exact execute_withLimits hle hheap h
  | _ => simp only [step, withLimits, hs]

/-! ## Runs under higher limits -/

theorem Bounded.leave (h : m.Bounded limits) (value : Option Value) :
    (m.leave value).Bounded limits := by
  cases hb : m.frames.back? with
  | none =>
      simp only [Machine.leave, hb]
      exact ⟨h.limits_eq, h.heap_eq⟩
  | some frame =>
      rw [leave_of_back hb]
      exact ⟨h.limits_eq, h.heap_eq⟩

theorem Bounded.apply (h : m.Bounded limits) (effect : Effect) :
    (effect.apply m).Bounded limits := by
  cases effect with
  | allocate r size fill => exact ⟨h.limits_eq, (Heap.limit_place _ size fill).trans h.heap_eq⟩
  | leave value => exact h.leave (some value)
  | _ => exact ⟨h.limits_eq, h.heap_eq⟩

/-- No step changes the limits. -/
theorem Bounded.step (h : m.Bounded limits) : (m.step program).2.Bounded limits := by
  by_cases running : m.status = .running
  · have ht := step_transition program running
    generalize m.step program = out at ht ⊢
    cases ht with
    | ended _ _ =>
        rw [stepped_snd]
        exact h.leave none
    | performed _ _ _ =>
        have hadvanced : m.advanced.Bounded limits := ⟨h.limits_eq, h.heap_eq⟩
        rw [stepped_snd]
        exact hadvanced.apply _
    | _ => exact ⟨h.limits_eq, h.heap_eq⟩
  · rw [step_of_not_running running]
    exact h

/-- A run that was stopped by a limit stays so. -/
theorem WithinLimits.of_runFor {n : Nat} (h : (runFor program n m).WithinLimits) :
    m.WithinLimits := by
  intro fault hfault
  have hs : m.status ≠ .running := by
    rw [hfault]
    exact fun h => nomatch h
  rw [runFor_of_not_running hs] at h
  exact h fault hfault

/-- A run that no limit stops is the same under higher limits, step for step. -/
theorem runFor_withLimits {low high : Limits} (hle : low.AtMost high) (n : Nat) :
    ∀ {m : Machine}, m.Bounded low → (runFor program n m).WithinLimits →
      runFor program n (m.withLimits high) = (runFor program n m).withLimits high := by
  induction n with
  | zero => intro m _ _; rfl
  | succ n ih =>
      intro m hm hn
      rw [runFor_succ] at hn
      rw [runFor_succ, runFor_succ, step_withLimits (hm.limits_eq ▸ hle)
        (hm.heap_eq ▸ hle.heap) hn.of_runFor]
      exact ih hm.step hn

theorem start_withLimits (index : UInt16) :
    (m.withLimits limits).start program index = (m.start program index).withLimits limits := by
  cases hf : program.function? index with
  | none =>
      simp only [start, withLimits, hf]
      rfl
  | some f => simp only [start, withLimits, hf]

theorem Bounded.start (h : m.Bounded limits) (index : UInt16) :
    (m.start program index).Bounded limits := by
  rw [Machine.start]
  split <;> exact ⟨h.limits_eq, h.heap_eq⟩

/-- Two machines that differ in their limits only. -/
structure SameButLimits (m t : Machine) : Prop where
  outcome : t.outcome = m.outcome
  status : t.status = m.status
  returned : t.returned = m.returned
  registers : t.registers = m.registers
  frames : t.frames = m.frames
  slots : t.heap.slots = m.heap.slots
  free : t.heap.free = m.heap.free
  liveElements : t.heap.liveElements = m.heap.liveElements
  globals : t.globals = m.globals
  function : t.function = m.function
  entry : t.entry = m.entry
  pc : t.pc = m.pc
  printed : t.printed = m.printed
  executed : t.executed = m.executed

theorem sameButLimits_withLimits (m : Machine) (limits : Limits) :
    m.SameButLimits (m.withLimits limits) :=
  ⟨rfl, rfl, rfl, rfl, rfl, rfl, rfl, rfl, rfl, rfl, rfl, rfl, rfl, rfl⟩

/-- On a fresh machine a run that no limit stops is the same under higher limits. -/
theorem runFor_new_sameButLimits {low high : Limits} (hle : low.AtMost high) (memory : Memory)
    (index : UInt16) (n : Nat)
    (h : (runFor program n ((Machine.new memory low).start program index)).WithinLimits) :
    (runFor program n ((Machine.new memory low).start program index)).SameButLimits
      (runFor program n ((Machine.new memory high).start program index)) := by
  have hnew : (Machine.new memory low).Bounded low := ⟨rfl, rfl⟩
  have hrun := runFor_withLimits hle n (hnew.start index) h
  rw [← start_withLimits] at hrun
  have hhigh : (Machine.new memory low).withLimits high = Machine.new memory high := rfl
  rw [← hhigh, hrun]
  exact sameButLimits_withLimits _ _

/-- **Limits are transparent.**  If no limit stops a run on a fresh machine, then under higher
limits the run has the same outcome and leaves the same machine, the limits apart: after any number
of steps, and in particular at its end. -/
theorem limits_transparent (memory : Memory) (program : Program) (index : UInt16)
    {low high : Limits} (hle : low.AtMost high) :
    (∀ n, (runFor program n ((Machine.new memory low).start program index)).WithinLimits →
      (runFor program n ((Machine.new memory low).start program index)).SameButLimits
        (runFor program n ((Machine.new memory high).start program index))) ∧
    (((Machine.new memory low).runFunction program index).WithinLimits →
      ((Machine.new memory low).runFunction program index).SameButLimits
        ((Machine.new memory high).runFunction program index)) := by
  refine ⟨fun n h => runFor_new_sameButLimits hle memory index n h, fun h => ?_⟩
  rw [runFunction_eq_runFor] at h
  rw [runFunction_eq_runFor, runFunction_eq_runFor]
  exact runFor_new_sameButLimits hle memory index _ h

/-- A program that needs all of its limits.  The first function makes an array of two elements,
calls the second one and returns the array:
`LOAD_I32 r0, 2; NEW_ARRAY r1, r0, r0; LOAD_FUNCTION r2, 1; CALL r3, r2, r0; RET r1`. -/
def frugalProgram : Program :=
  { Program.empty with
    functions := #[
      ⟨"main", ⟨"", 0⟩, 0, 0, 4,
        #[⟨0x02000002⟩, ⟨0x70010000⟩, ⟨0x08020001⟩, ⟨0x93030200⟩, ⟨0x94000001⟩]⟩,
      ⟨"same", ⟨"", 0⟩, 1, 0, 1, #[⟨0x94000000⟩]⟩] }

/-- Just enough for `frugalProgram`. -/
def frugalLimits : Limits := ⟨1, some 6, 2⟩

theorem limits_transparent_frugal :
    let start limits := (Machine.new .unbounded limits).start frugalProgram 0
    frugalLimits.AtMost Limits.default ∧
    (runFor frugalProgram 6 (start frugalLimits)).status = .halted ∧
    (runFor frugalProgram 6 (start frugalLimits)).SameButLimits
      (runFor frugalProgram 6 (start Limits.default)) := by
  intro start
  have hle : frugalLimits.AtMost Limits.default := by
    refine ⟨by decide, ?_, by decide⟩
    intro b hb
    cases hb
  have hstatus : (runFor frugalProgram 6 (start frugalLimits)).status = .halted := by
    decide +kernel
  refine ⟨hle, hstatus, (limits_transparent .unbounded frugalProgram 0 hle).1 6 ?_⟩
  intro fault hfault
  cases hstatus.symm.trans hfault

end Machine

end RegisterMachine
