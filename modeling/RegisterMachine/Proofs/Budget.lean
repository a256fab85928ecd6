import Mathlib
import RegisterMachine.Proofs.Faults
import RegisterMachine.Proofs.Limits

/-!
# A budget bounds every run

To reach the end of a function is a step that executes nothing: it is not counted and the budget is
not asked.  So the budget alone does not bound the number of steps.  What does is that such a step
takes away a pending call, and that only an instruction puts one there: with `2 * (b - executed)`
for the instructions that are left, one for each pending call and one to stop, every step of a
running machine leaves less (`step_stepsLeft_lt`).

A run that is stopped for want of budget was running before, so no limit had stopped it until then,
and up to there it is the run without a budget (`runFor_withLimits`).
-/

namespace RegisterMachine

namespace Limits

/-- The limits with a budget of `b`. -/
def budgeted (limits : Limits) (b : Nat) : Limits := { limits with budget := some b }

/-- The limits without a budget. -/
def unbudgeted (limits : Limits) : Limits := { limits with budget := none }

theorem budgeted_atMost_unbudgeted (limits : Limits) (b : Nat) :
    (limits.budgeted b).AtMost limits.unbudgeted where
  depth := Nat.le_refl _
  budget := by
    intro _ h
    cases h
  heap := Nat.le_refl _

end Limits

namespace Machine

variable {program : Program} {m : Machine} {b : Nat}

/-! ## Every step leaves fewer steps -/

/-- The machine has the budget `b` and has not executed more. -/
structure WithinBudget (b : Nat) (m : Machine) : Prop where
  budget : m.limits.budget = some b
  executed_le : m.executed ≤ b

/-- Steps that a machine with the budget `b` can still make. -/
def stepsLeft (b : Nat) (m : Machine) : Nat :=
  if m.status = .running then 2 * (b - m.executed) + m.frames.size + 1 else 0

theorem stepsLeft_of_running (running : m.status = .running) :
    m.stepsLeft b = 2 * (b - m.executed) + m.frames.size + 1 :=
  if_pos running

theorem stepsLeft_of_not_running (h : m.status ≠ .running) : m.stepsLeft b = 0 :=
  if_neg h

theorem stepsLeft_le : m.stepsLeft b ≤ 2 * (b - m.executed) + m.frames.size + 1 := by
  rw [stepsLeft]
  split
  · exact Nat.le_refl _
  · exact Nat.zero_le _

theorem WithinBudget.isExhausted (h : m.WithinBudget b) :
    m.isExhausted = decide (b ≤ m.executed) := by
  rw [Machine.isExhausted, h.budget]

theorem WithinBudget.executed_lt (h : m.WithinBudget b) (hx : m.isExhausted = false) :
    m.executed < b := by
  rw [h.isExhausted, decide_eq_false_iff_not] at hx
  omega

/-- No step goes past the budget. -/
theorem WithinBudget.step (h : m.WithinBudget b) : (m.step program).2.WithinBudget b := by
  by_cases running : m.status = .running
  · have ht := step_transition program running
    generalize m.step program = out at ht ⊢
    cases ht with
    | lost _ => exact ⟨h.budget, h.executed_le⟩
    | ended _ _ =>
        rw [stepped_snd]
        exact ⟨by rw [leave_limits, h.budget], by rw [leave_executed]; exact h.executed_le⟩
    | exhausted _ _ => exact ⟨h.budget, h.executed_le⟩
    | refused _ hx _ => exact ⟨h.budget, h.executed_lt hx⟩
    | performed _ hx _ =>
        rw [stepped_snd]
        refine ⟨by rw [Effect.apply_limits]; exact h.budget, ?_⟩
        rw [Effect.apply_executed]
        exact h.executed_lt hx
  · rw [step_of_not_running running]
    exact h

/-- An instruction uses up two of the steps that are left and adds at most one by a call; the end of
a function uses up one; every other step is the last. -/
theorem step_stepsLeft_lt (h : m.WithinBudget b) (running : m.status = .running) :
    (m.step program).2.stepsLeft b < m.stepsLeft b := by
  rw [stepsLeft_of_running running]
  have stopped : ∀ t : Machine, t.status ≠ .running →
      t.stepsLeft b < 2 * (b - m.executed) + m.frames.size + 1 := by
    intro t ht
    rw [stepsLeft_of_not_running ht]
    exact Nat.succ_pos _
  have ht := step_transition program running
  generalize m.step program = out at ht ⊢
  cases ht with
  | ended _ _ =>
      rw [stepped_snd]
      obtain ⟨-, hsize⟩ | ⟨hs, -⟩ := leave_status (m := m) none
      · have hle := stepsLeft_le (m := m.leave none) (b := b)
        rw [leave_executed, leave_frames, Array.size_pop] at hle
        omega
      · exact stopped _ (by rw [hs]; exact Status.noConfusion)
  | @performed f i effect _ hx _ =>
      rw [stepped_snd]
      have hlt := h.executed_lt hx
      have hframes : (effect.apply m.advanced).frames.size ≤ m.frames.size + 1 :=
        effect.apply_frames_size_le m.advanced
      have hexecuted : (effect.apply m.advanced).executed = m.executed + 1 :=
        effect.apply_executed m.advanced
      have hle := stepsLeft_le (m := effect.apply m.advanced) (b := b)
      rw [hexecuted] at hle
      omega
  | lost _ => exact stopped _ Status.noConfusion
  | exhausted _ _ => exact stopped _ Status.noConfusion
  | refused _ _ _ => exact stopped _ Status.noConfusion

/-- A machine within its budget stops after as many steps as it has left, or before. -/
theorem exists_stop (program : Program) (h : m.WithinBudget b) :
    ∃ n ≤ m.stepsLeft b, (∀ k < n, (runFor program k m).status = .running) ∧
      (runFor program n m).status ≠ .running := by
  induction hs : m.stepsLeft b using Nat.strong_induction_on generalizing m with
  | _ s ih =>
      by_cases running : m.status = .running
      · have hlt : (m.step program).2.stepsLeft b < m.stepsLeft b := step_stepsLeft_lt h running
        obtain ⟨n, hn, before, after⟩ := ih _ (hs ▸ hlt) h.step rfl
        refine ⟨n + 1, by omega, ?_, ?_⟩
        · intro k hk
          cases k with
          | zero => exact running
          | succ k =>
              rw [runFor_succ]
              exact before k (by omega)
        · rw [runFor_succ]
          exact after
      · exact ⟨0, Nat.zero_le _, fun k hk => absurd hk (Nat.not_lt_zero k), running⟩

theorem WithinBudget.runFor (h : m.WithinBudget b) (n : Nat) :
    (runFor program n m).WithinBudget b := by
  induction n with
  | zero => exact h
  | succ n ih =>
      rw [runFor_succ_last]
      exact ih.step

theorem WithinBudget.start (h : m.limits.budget = some b) (program : Program) (index : UInt16) :
    (m.start program index).WithinBudget b :=
  ⟨by rw [start_limits, h], by rw [start_executed]; exact Nat.zero_le b⟩

/-! ## The end of a budget -/

/-- Only a step that finds the budget used up faults for want of it; it changes nothing else. -/
theorem step_budgetExhausted (running : m.status = .running) {fault : Fault} {count : Nat}
    (hs : (m.step program).2.status = .faulted fault)
    (he : fault.error = .budgetExhausted count) :
    (∃ f i, m.Fetches program f i) ∧ m.isExhausted = true ∧ count = m.executed ∧
      (m.step program).2 = { m with status := .faulted fault } := by
  have ht := step_transition program running
  generalize m.step program = out at ht hs ⊢
  cases ht with
  | lost _ =>
      cases hs
      cases he
  | ended _ _ =>
      rw [stepped_snd] at hs
      obtain ⟨hl, -⟩ | ⟨hl, -⟩ := leave_status (m := m) none
      · cases running.symm.trans (hl.symm.trans hs)
      · cases hl.symm.trans hs
  | exhausted hi hx =>
      cases hs
      cases he
      exact ⟨⟨_, _, hi⟩, hx, rfl, rfl⟩
  | @refused f i error _ _ hp =>
      cases hs
      have hr := planWord_refuses i error hp
      rw [show error = .budgetExhausted count from he] at hr
      cases hr
  | @performed f i effect _ _ _ =>
      rw [stepped_snd] at hs
      obtain hl | ⟨hl, -⟩ := effect.apply_status m.advanced
      · cases running.symm.trans (hl.symm.trans hs)
      · cases hl.symm.trans hs

/-- Within the budget an instruction is counted, whether or not it is refused. -/
theorem step_executed_of_fetches (running : m.status = .running) {f : Function} {i : Instruction}
    (hi : m.Fetches program f i) (hx : m.isExhausted = false) :
    (m.step program).2.executed = m.executed + 1 := by
  have ht := step_transition program running
  generalize m.step program = out at ht ⊢
  cases ht with
  | lost hf => cases hi.function_eq.symm.trans hf
  | ended hf hn =>
      cases hi.function_eq.symm.trans hf
      cases hi.instruction_eq.symm.trans hn
  | exhausted _ hx' => cases hx.symm.trans hx'
  | refused _ _ _ => rfl
  | performed _ _ _ =>
      rw [stepped_snd, Effect.apply_executed]
      rfl

/-- At the end of a function nothing is counted, and no budget is asked for. -/
theorem step_executed_of_ended (running : m.status = .running) {f : Function}
    (hf : program.function? m.function = some f) (hi : f.instruction? m.pc = none) :
    (m.step program).2.executed = m.executed ∧ ∀ fault, (m.step program).1 ≠ .fault fault := by
  rw [step_of_ended running hf hi, stepped_snd, leave_executed]
  exact ⟨rfl, stepped_fst_ne_fault⟩

theorem start_budgetExhausted {index : UInt16} {fault : Fault} {count : Nat}
    (hs : (m.start program index).status = .faulted fault) :
    fault.error ≠ .budgetExhausted count := by
  rw [start] at hs
  split at hs
  · cases hs
  · cases hs
    show ite _ _ _ ≠ _
    split <;> exact Error.noConfusion

theorem withLimits_withLimits (low high : Limits) :
    (m.withLimits low).withLimits high = m.withLimits high := rfl

theorem Bounded.withLimits_eq {limits : Limits} (h : m.Bounded limits) :
    m.withLimits limits = m := by
  rw [withLimits, Heap.withLimit, ← h.heap_eq, ← h.limits_eq]

theorem Bounded.runFor {limits : Limits} (h : m.Bounded limits) (n : Nat) :
    (runFor program n m).Bounded limits := by
  induction n with
  | zero => exact h
  | succ n ih =>
      rw [runFor_succ_last]
      exact ih.step

theorem withinLimits_of_running (running : m.status = .running) : m.WithinLimits := by
  intro fault hfault
  cases running.symm.trans hfault

/-! ## Main statement -/

/-- A run that used up its budget of `b`, seen beside `free`, a state of the run without a budget:
that one stands before its instruction number `b + 1`, and but for limits and status the two are the
same. -/
structure StopsBefore (program : Program) (limits : Limits) (b : Nat) (fault : Fault)
    (final free : Machine) : Prop where
  running : free.status = .running
  fetches : ∃ f i, free.Fetches program f i
  executed : free.executed = b
  next : (free.step program).2.executed = b + 1
  state : final = { free.withLimits (limits.budgeted b) with status := .faulted fault }

/-- The last state before the budget was found used up is one of the run without a budget. -/
theorem stopsBefore_of_exhausted {limits : Limits} {n : Nat} {index : UInt16} {fault : Fault}
    {count : Nat}
    (before : ∀ k < n, (runFor program k
      ((m.withLimits (limits.budgeted b)).start program index)).status = .running)
    (hs : (runFor program n
      ((m.withLimits (limits.budgeted b)).start program index)).status = .faulted fault)
    (he : fault.error = .budgetExhausted count) :
    count = b ∧ ∃ k, StopsBefore program limits b fault
      (runFor program n ((m.withLimits (limits.budgeted b)).start program index))
      (runFor program k ((m.withLimits limits.unbudgeted).start program index)) := by
  cases n with
  | zero => exact absurd he (start_budgetExhausted hs)
  | succ k =>
      have running := before k (Nat.lt_succ_self k)
      have hstart : ((m.withLimits (limits.budgeted b)).start program index).WithinBudget b :=
        .start rfl program index
      have hm : (m.withLimits (limits.budgeted b)).Bounded (limits.budgeted b) := ⟨rfl, rfl⟩
      have hwithin : (runFor program k
          ((m.withLimits (limits.budgeted b)).start program index)).WithinBudget b :=
        hstart.runFor k
      have hbounded : (runFor program k
          ((m.withLimits (limits.budgeted b)).start program index)).Bounded (limits.budgeted b) :=
        (hm.start index).runFor k
      -- the machine was running until here, so the run without a budget has made the same steps
      have hfree := runFor_withLimits (limits.budgeted_atMost_unbudgeted b) k (hm.start index)
        (withinLimits_of_running running)
      rw [← start_withLimits, withLimits_withLimits] at hfree
      rw [runFor_succ_last] at hs ⊢
      generalize runFor program k ((m.withLimits (limits.budgeted b)).start program index) = s
        at running hwithin hbounded hfree hs ⊢
      obtain ⟨⟨f, i, hi⟩, hx, rfl, hstep⟩ := step_budgetExhausted running hs he
      rw [hwithin.isExhausted, decide_eq_true_iff] at hx
      have hexecuted := Nat.le_antisymm hwithin.executed_le hx
      refine ⟨hexecuted, k, ?_⟩
      rw [hfree]
      have hi' : (s.withLimits limits.unbudgeted).Fetches program f i :=
        ⟨hi.function_eq, hi.instruction_eq⟩
      refine ⟨running, ⟨f, i, hi'⟩, hexecuted, ?_, ?_⟩
      · have hnext := step_executed_of_fetches (m := s.withLimits limits.unbudgeted) running hi' rfl
        exact hnext.trans (congrArg (· + 1) hexecuted)
      · rw [hstep, withLimits_withLimits, hbounded.withLimits_eq]

/-- **A budget bounds every run.**  Whatever the program and the state of the machine before, a run
with the budget `b` stops after at most `2 * b + 1` steps and has then executed at most `b`
instructions, although the end of a function is neither counted nor checked.  If it was the budget
that stopped it, exactly `b` instructions were executed, and but for the fault the machine is the
one that the run without a budget reaches right before instruction number `b + 1`. -/
theorem budget_bounds_run (program : Program) (index : UInt16) (m : Machine) (limits : Limits)
    (b : UInt64) :
    let budgeted := m.withLimits (limits.budgeted b.toNat)
    let start := budgeted.start program index
    let final := budgeted.runFunction program index
    (∃ n ≤ 2 * b.toNat + 1, (∀ k < n, (runFor program k start).status = .running) ∧
      (runFor program n start).status ≠ .running ∧ final = runFor program n start) ∧
    final.executed ≤ b.toNat ∧
    (∀ k f, (runFor program k start).status = .running →
      program.function? (runFor program k start).function = some f →
      f.instruction? (runFor program k start).pc = none →
      (runFor program (k + 1) start).executed = (runFor program k start).executed ∧
        ∀ fault, ((runFor program k start).step program).1 ≠ .fault fault) ∧
    ∀ fault count, final.status = .faulted fault → fault.error = .budgetExhausted count →
      count = b.toNat ∧ final.executed = b.toNat ∧
      ∃ k, StopsBefore program limits b.toNat fault final
        (runFor program k ((m.withLimits limits.unbudgeted).start program index)) := by
  intro budgeted start final
  have hstart : start.WithinBudget b.toNat := .start rfl program index
  obtain ⟨n, hn, before, after⟩ := exists_stop program hstart
  have hn' : n ≤ 2 * b.toNat + 1 := by
    have hle := stepsLeft_le (m := start) (b := b.toNat)
    rw [start_executed, start_frames] at hle
    simpa using hn.trans hle
  have hb : b.toNat < 2 ^ 64 := b.toNat_lt
  have hrun : final = runFor program n start :=
    runFunction_of_stopped after (by unfold enoughStrides stride; omega)
  rw [hrun]
  refine ⟨⟨n, hn', before, after, rfl⟩, (hstart.runFor n).executed_le, ?_, ?_⟩
  · intro k f running hf hi
    rw [runFor_succ_last]
    exact step_executed_of_ended running hf hi
  · intro fault count hs he
    obtain ⟨hcount, k, hstops⟩ := stopsBefore_of_exhausted before hs he
    refine ⟨hcount, ?_, k, hstops⟩
    rw [hstops.state]
    exact hstops.executed

/-! ## A loop with a call

The first function is `CALL r0, r1, r0; JUMP 0` with the second one in `r1`, which has no
instructions: each time around there are two instructions and one end of a function. -/

def loopingProgram : Program :=
  { Program.empty with
    functions := #[⟨"main", ⟨"", 0⟩, 0, 0, 2, #[⟨0x93000100⟩, ⟨0x90000000⟩]⟩,
      ⟨"nothing", ⟨"", 0⟩, 0, 0, 0, #[]⟩] }

def loopingMachine : Machine :=
  { Machine.new .unbounded Limits.default with
    registers := Registers.initial.write 1 (.function (.compiled 1)) }

/-- With a budget of three the loop stops at its second jump, the end of the function in `r1` being
passed twice. -/
theorem budget_bounds_run_looping :
    let final := (loopingMachine.withLimits (Limits.default.budgeted 3)).runFunction
      loopingProgram 0
    ∃ fault, final.status = .faulted fault ∧ fault.error = .budgetExhausted 3 ∧ final.pc = 1 ∧
      ∃ k, StopsBefore loopingProgram Limits.default 3 fault final
        (runFor loopingProgram k
          ((loopingMachine.withLimits Limits.default.unbudgeted).start loopingProgram 0)) := by
  intro final
  have stopped : (runFor loopingProgram 6
        ((loopingMachine.withLimits (Limits.default.budgeted 3)).start loopingProgram 0)).status
          = .faulted ⟨.budgetExhausted 3, 1, "main", some ⟨0x90000000⟩⟩ ∧
      (runFor loopingProgram 6
        ((loopingMachine.withLimits (Limits.default.budgeted 3)).start loopingProgram 0)).pc
          = 1 := by
    decide +kernel
  have hrun : final = runFor loopingProgram 6
      ((loopingMachine.withLimits (Limits.default.budgeted 3)).start loopingProgram 0) :=
    runFunction_of_stopped (by rw [stopped.1]; exact Status.noConfusion) (by decide)
  have hstatus := hrun ▸ stopped.1
  refine ⟨_, hstatus, rfl, hrun ▸ stopped.2, ?_⟩
  exact ((budget_bounds_run loopingProgram 0 loopingMachine Limits.default 3).2.2.2 _ _ hstatus
    rfl).2.2

-- The bound is reached: one call, the end of the callee, the end of the caller.
example :
    let program : Program :=
      { Program.empty with
        functions := #[⟨"main", ⟨"", 0⟩, 0, 0, 2, #[⟨0x93000100⟩]⟩,
          ⟨"nothing", ⟨"", 0⟩, 0, 0, 0, #[]⟩] }
    let start := (loopingMachine.withLimits (Limits.default.budgeted 1)).start program 0
    (runFor program 2 start).status = .running ∧ (runFor program 3 start).status = .halted := by
  decide +kernel

end Machine

end RegisterMachine
