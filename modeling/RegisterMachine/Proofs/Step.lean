import Mathlib
import RegisterMachine.Proofs.Plan

/-!
# What a step can be

`Transition program m` lists the five ways in which a step of a running machine ends: the machine
stands in no function, it has reached the end of its function, the budget is used up, the
instruction is refused, or the instruction is performed.  `step_transition` says that there is no
other way, and every statement about all steps is a case analysis over it.

A run is `runFor`.  A machine that does not run stays as it is, so `runFor program (n + 1)` is one
more step after `runFor program n`, whether or not the run is over.
-/

namespace RegisterMachine

namespace Machine

/-- The machine stands in `function` at `instruction`. -/
structure Fetches (program : Program) (m : Machine) (function : Function)
    (instruction : Instruction) : Prop where
  function_eq : program.function? m.function = some function
  instruction_eq : function.instruction? m.pc = some instruction

/-- The ways in which a step of a running machine can end: what it says and the next state. -/
inductive Transition (program : Program) (m : Machine) : StepResult × Machine → Prop
  | lost : program.function? m.function = none →
      Transition program m (m.fail program none (.invalidFunction m.function))
  | ended {f : Function} : program.function? m.function = some f →
      f.instruction? m.pc = none → Transition program m (m.leave none).stepped
  | exhausted {f : Function} {i : Instruction} : m.Fetches program f i →
      m.isExhausted = true →
      Transition program m (m.fail program (some i) (.budgetExhausted m.executed))
  | refused {f : Function} {i : Instruction} {error : Error} : m.Fetches program f i →
      m.isExhausted = false → m.planWord program i = .error error →
      Transition program m
        (fail { m with executed := m.executed + 1 } program (some i) error)
  | performed {f : Function} {i : Instruction} {effect : Effect} : m.Fetches program f i →
      m.isExhausted = false → m.planWord program i = .ok effect →
      Transition program m (effect.apply m.advanced).stepped

variable {program : Program} {m : Machine}

/-- Every step of a running machine is one of the five. -/
theorem step_transition (program : Program) (running : m.status = .running) :
    Transition program m (m.step program) := by
  rw [step_eq, stepByPlan, running]
  cases hf : program.function? m.function with
  | none => exact .lost hf
  | some f =>
      cases hi : f.instruction? m.pc with
      | none =>
          simp only [hi]
          exact .ended hf hi
      | some i =>
          simp only [hi, execute]
          split
          · exact .exhausted ⟨hf, hi⟩ ‹_›
          · rename_i hx
            rw [Bool.not_eq_true] at hx
            cases hp : m.planWord program i with
            | error error => exact .refused ⟨hf, hi⟩ hx hp
            | ok effect => exact .performed ⟨hf, hi⟩ hx hp

/-- At the end of its function the machine goes back to the caller. -/
theorem step_of_ended (running : m.status = .running) {f : Function}
    (hf : program.function? m.function = some f) (hi : f.instruction? m.pc = none) :
    m.step program = (m.leave none).stepped := by
  rw [step_eq, stepByPlan, running]
  simp only [hf, hi]

/-- Within the budget, a planned effect is carried out. -/
theorem step_of_planned (running : m.status = .running) {f : Function} {i : Instruction}
    (hi : m.Fetches program f i) (hx : m.isExhausted = false) {effect : Effect}
    (hp : m.planWord program i = .ok effect) :
    m.step program = (effect.apply m.advanced).stepped := by
  rw [step_eq, stepByPlan, running]
  simp only [hi.function_eq, hi.instruction_eq, execute, hx, hp]
  rfl

theorem planWord_of_opcode {i : Instruction} {op : Opcode} (h : i.opcode = .ok op) :
    m.planWord program i = m.plan program op (i.fields op.layout) := by
  rw [planWord, h]
  rfl

/-- A planned word has an opcode, and its effect is one of those listed for it. -/
theorem planWord_planned {i : Instruction} {effect : Effect}
    (h : m.planWord program i = .ok effect) :
    ∃ op, i.opcode = .ok op ∧ Planned program m (i.fields op.layout) op effect := by
  obtain ⟨op, hop, hp⟩ := bind_eq_ok.mp h
  exact ⟨op, hop, plan_planned hp⟩

/-- Only `ret` leaves a function. -/
theorem opcode_of_leave {i : Instruction} {value : Value}
    (h : m.planWord program i = .ok (.leave value)) : i.opcode = .ok .ret := by
  obtain ⟨op, hop, hp⟩ := planWord_planned h
  cases hp
  exact hop

/-! ## One attempt -/

/-- The next step is an attempt at `i`, whose opcode is `op`: the machine stands there and its budget
is not used up. -/
structure Attempts (program : Program) (m : Machine) (i : Instruction) (op : Opcode) : Prop where
  running : m.status = .running
  fetches : ∃ f, m.Fetches program f i
  budget : m.isExhausted = false
  opcode : i.opcode = .ok op

namespace Attempts

variable {i : Instruction} {op : Opcode}

/-- A planned effect is carried out, and unless it leaves the function the run goes on. -/
theorem step_of_plan (h : m.Attempts program i op) {effect : Effect}
    (hplan : m.plan program op (i.fields op.layout) = .ok effect)
    (hstatus : (effect.apply m.advanced).status = m.status) :
    m.step program = (.running, effect.apply m.advanced) := by
  obtain ⟨f, hf⟩ := h.fetches
  rw [step_of_planned h.running hf h.budget ((planWord_of_opcode h.opcode).trans hplan), stepped,
    hstatus, h.running]

/-- An instruction that is refused faults where the machine stands. -/
theorem step_of_error (h : m.Attempts program i op) {error : Error}
    (hplan : m.plan program op (i.fields op.layout) = .error error) :
    (m.step program).1 = .fault (m.faultAt program (some i) error) := by
  obtain ⟨f, hf⟩ := h.fetches
  rw [step_eq, stepByPlan, h.running]
  simp only [hf.function_eq, hf.instruction_eq, execute, h.budget, planWord_of_opcode h.opcode,
    hplan]
  rfl

end Attempts

/-! ## Machines that do not run -/

theorem step_of_not_running (h : m.status ≠ .running) : (m.step program).2 = m := by
  rw [step]
  cases hs : m.status with
  | running => exact absurd hs h
  | _ => rfl

@[simp] theorem stepped_snd : m.stepped.2 = m := by
  rw [stepped]
  split <;> rfl

/-- A step that did not fail says nothing but whether the machine still runs. -/
theorem stepped_fst_ne_fault (fault : Fault) : m.stepped.1 ≠ .fault fault := by
  rw [stepped]
  split <;> exact fun h => nomatch h

/-- A step that stands at an instruction and does not fault performs it. -/
theorem performed_of_fetches (running : m.status = .running) {f : Function} {i : Instruction}
    (hi : m.Fetches program f i) (hok : ∀ fault, (m.step program).1 ≠ .fault fault) :
    ∃ effect, m.planWord program i = .ok effect ∧
      (m.step program).2 = effect.apply m.advanced := by
  have ht := step_transition program running
  generalize m.step program = out at ht hok ⊢
  cases ht with
  | lost hf => cases hf.symm.trans hi.function_eq
  | ended hf hn =>
      cases hf.symm.trans hi.function_eq
      cases hn.symm.trans hi.instruction_eq
  | exhausted => exact absurd rfl (hok _)
  | refused => exact absurd rfl (hok _)
  | performed hi' _ hp =>
      cases hi'.function_eq.symm.trans hi.function_eq
      cases hi'.instruction_eq.symm.trans hi.instruction_eq
      exact ⟨_, hp, stepped_snd⟩

/-! ## Runs -/

@[simp] theorem runFor_zero : runFor program 0 m = m := rfl

theorem runFor_of_not_running (h : m.status ≠ .running) : ∀ n, runFor program n m = m
  | 0 => rfl
  | n + 1 => by
      rw [runFor]
      cases hs : m.status with
      | running => exact absurd hs h
      | _ => rfl

/-- The first step of a run. -/
theorem runFor_succ (n : Nat) :
    runFor program (n + 1) m = runFor program n (m.step program).2 := by
  by_cases h : m.status = .running
  · rw [runFor, h]
  · rw [step_of_not_running h, runFor_of_not_running h, runFor_of_not_running h]

/-- The last step of a run. -/
theorem runFor_succ_last : ∀ (n : Nat) (m : Machine),
    runFor program (n + 1) m = ((runFor program n m).step program).2
  | 0, m => by rw [runFor_succ, runFor_zero, runFor_zero]
  | n + 1, m => by
      rw [runFor_succ, runFor_succ_last n (m.step program).2, ← runFor_succ]

theorem runFor_add (n k : Nat) :
    ∀ m : Machine, runFor program (n + k) m = runFor program k (runFor program n m) := by
  induction n with
  | zero => intro m; rw [Nat.zero_add, runFor_zero]
  | succ n ih => intro m; rw [Nat.succ_add, runFor_succ, ih, runFor_succ]

theorem runStrides_eq_runFor (n : Nat) :
    ∀ m : Machine, runStrides program n m = runFor program (n * stride) m := by
  induction n with
  | zero => intro m; rw [Nat.zero_mul]; rfl
  | succ n ih =>
      intro m
      by_cases hs : m.status = .running
      · rw [runStrides, hs, Nat.succ_mul, Nat.add_comm, runFor_add]
        exact ih _
      · rw [runFor_of_not_running hs, runStrides]
        cases h : m.status with
        | running => exact absurd h hs
        | _ => rfl

/-- To run a function is to start it and to make very many steps. -/
theorem runFunction_eq_runFor (index : UInt16) :
    m.runFunction program index
      = runFor program (enoughStrides * stride) (m.start program index) :=
  runStrides_eq_runFor _ _

/-- A run that has stopped makes no more steps. -/
theorem runFor_of_stopped {n k : Nat} (h : (runFor program n m).status ≠ .running) (hk : n ≤ k) :
    runFor program k m = runFor program n m := by
  obtain ⟨d, rfl⟩ := Nat.exists_eq_add_of_le hk
  rw [runFor_add, runFor_of_not_running h]

theorem runFunction_of_stopped {index : UInt16} {n : Nat}
    (h : (runFor program n (m.start program index)).status ≠ .running)
    (hn : n ≤ enoughStrides * stride) :
    m.runFunction program index = runFor program n (m.start program index) := by
  rw [runFunction_eq_runFor, runFor_of_stopped h hn]

/-! ## Starts -/

theorem start_executed (program : Program) (index : UInt16) :
    (m.start program index).executed = 0 := by
  rw [start]
  split <;> rfl

theorem start_frames (program : Program) (index : UInt16) :
    (m.start program index).frames = #[] := by
  rw [start]
  split <;> rfl

theorem start_limits (program : Program) (index : UInt16) :
    (m.start program index).limits = m.limits := by
  rw [start]
  split <;> rfl

theorem start_registers (program : Program) (index : UInt16) :
    (m.start program index).registers = m.registers := by
  rw [start]
  split <;> rfl

theorem start_heap (program : Program) (index : UInt16) :
    (m.start program index).heap = m.heap := by
  rw [start]
  split <;> rfl

/-- Starting a run adds globals and leaves those that are there. -/
theorem start_globals (program : Program) (index : UInt16) {k : Nat} (hk : k < m.globals.size) :
    (m.start program index).globals[k]? = m.globals[k]? := by
  have hgrow : (growGlobals m.globals program.globalCount.toNat)[k]? = m.globals[k]? :=
    Array.getElem?_append_left hk
  rw [start]
  split <;> exact hgrow

theorem start_entry (program : Program) (index : UInt16) :
    (m.start program index).entry = index := by
  rw [start]
  split <;> rfl

/-! ## Pending calls -/

/-- A return with a call pending. -/
theorem leave_of_back {frame : Frame} (h : m.frames.back? = some frame) (value : Option Value) :
    m.leave value
      = { m with
          registers := match value with
            | some value => (m.registers.restore frame.saved).write frame.destination value
            | none => m.registers.restore frame.saved
          frames := m.frames.pop
          function := frame.function
          pc := frame.returnPc } := by
  cases value with
  | none => simp only [leave, h]
  | some value => simp only [leave, h]

theorem leave_frames (value : Option Value) : (m.leave value).frames = m.frames.pop := by
  cases h : m.frames.back? with
  | some frame => rw [leave_of_back h]
  | none =>
      simp only [leave, h]
      rw [Array.back?_eq_none_iff] at h
      simp [h]

theorem leave_limits (value : Option Value) : (m.leave value).limits = m.limits := by
  cases hb : m.frames.back? with
  | none => simp only [leave, hb]
  | some frame => rw [leave_of_back hb]

theorem leave_executed (value : Option Value) : (m.leave value).executed = m.executed := by
  cases hb : m.frames.back? with
  | none => simp only [leave, hb]
  | some frame => rw [leave_of_back hb]

/-- A return ends the run exactly if no call is pending. -/
theorem leave_status (value : Option Value) :
    (m.leave value).status = m.status ∧ m.frames.size ≠ 0 ∨
    (m.leave value).status = .halted ∧ m.frames.size = 0 := by
  cases hb : m.frames.back? with
  | none =>
      right
      rw [Array.back?_eq_none_iff] at hb
      simp [leave, hb]
  | some frame =>
      left
      refine ⟨by rw [leave_of_back hb], ?_⟩
      intro hsize
      rw [Array.eq_empty_of_size_eq_zero hsize] at hb
      cases hb

theorem leave_entry (value : Option Value) : (m.leave value).entry = m.entry := by
  cases hb : m.frames.back? with
  | none => simp only [leave, hb]
  | some frame => rw [leave_of_back hb]

end Machine

/-- Only an effect that enters or leaves a function changes the pending calls. -/
theorem Effect.apply_frames (effect : Effect) (m : Machine) :
    (effect.apply m).frames
      = match effect with
        | .enter _ _ _ destination saved =>
            m.frames.push ⟨m.pc, m.function, destination, saved⟩
        | .leave _ => m.frames.pop
        | _ => m.frames := by
  cases effect with
  | leave value => exact Machine.leave_frames (some value)
  | _ => rfl

namespace Effect

variable (effect : Effect) (m : Machine)

theorem apply_limits : (effect.apply m).limits = m.limits := by
  cases effect with
  | leave value => exact Machine.leave_limits _
  | _ => rfl

theorem apply_executed : (effect.apply m).executed = m.executed := by
  cases effect with
  | leave value => exact Machine.leave_executed _
  | _ => rfl

/-- An effect lets the run go on, or ends it with no call pending. -/
theorem apply_status :
    (effect.apply m).status = m.status ∨
    (effect.apply m).status = .halted ∧ (effect.apply m).frames = #[] := by
  cases effect with
  | leave value =>
      obtain ⟨hs, -⟩ | ⟨hs, hsize⟩ := Machine.leave_status (m := m) (some value)
      · exact .inl hs
      · refine .inr ⟨hs, ?_⟩
        rw [apply_frames, Array.eq_empty_of_size_eq_zero hsize]
        rfl
  | _ => exact .inl rfl

theorem apply_frames_size_le : (effect.apply m).frames.size ≤ m.frames.size + 1 := by
  rw [apply_frames]
  cases effect with
  | enter => simp
  | leave => simp; omega
  | _ => exact Nat.le_succ _

end Effect

end RegisterMachine
