import Mathlib
import RegisterMachine.Proofs.Decode
import RegisterMachine.Proofs.Registers
import RegisterMachine.Proofs.Step

/-!
# Calls and returns

All functions share one register file, and every callee overwrites it.  What makes a call look
local to its caller is the stack of pending calls: a step pushes one frame, pops one or leaves the
stack alone, so as long as a call is pending its frame and everything below it stay as they are.
When the call returns, its frame gives the caller back its place and its window.

The main statement is `call_stack_discipline`.  It asks nothing of the machine that calls, so it
holds in particular of every state that a run can reach, and nothing of the program: register
counts and parameter counts may be any numbers, and the words may be any words.
-/

namespace RegisterMachine

namespace Machine

variable {program : Program} {m : Machine}

/-! ## Returns -/

/-- The next step returns from the present function, with a value or without. -/
inductive Returns (program : Program) (m : Machine) : Option Value → Prop
  | ended {f : Function} : m.status = .running → program.function? m.function = some f →
      f.instruction? m.pc = none → Returns program m none
  | ret {f : Function} {i : Instruction} : m.status = .running → m.Fetches program f i →
      m.isExhausted = false → i.opcode = .ok .ret →
      Returns program m (some (m.registers.read (i.fields Opcode.ret.layout).ra))

/-- A step that returns leaves the function; it may have counted one instruction before. -/
theorem Returns.step_eq {value : Option Value} (h : m.Returns program value) :
    ∃ pc executed, (m.step program).2 = leave { m with pc, executed } value := by
  cases h with
  | ended running hf hi =>
      refine ⟨m.pc, m.executed, ?_⟩
      rw [step_of_ended running hf hi, stepped_snd]
  | @ret f i running hi hx hop =>
      refine ⟨m.pc + 1, m.executed + 1, ?_⟩
      rw [step_of_planned running hi hx (planWord_of_opcode hop), stepped_snd]
      rfl

/-- What a step does to the pending calls: it pops the last one exactly if it returns. -/
theorem step_frames (program : Program) (m : Machine) :
    (∃ value, m.Returns program value) ∧ (m.step program).2.frames = m.frames.pop ∨
    (m.step program).2.frames = m.frames ∨
    ∃ frame, (m.step program).2.frames = m.frames.push frame := by
  by_cases running : m.status = .running
  · have ht := step_transition program running
    generalize m.step program = out at ht ⊢
    cases ht with
    | lost _ => exact .inr (.inl rfl)
    | ended hf hi =>
        refine .inl ⟨⟨_, .ended running hf hi⟩, ?_⟩
        rw [stepped_snd, leave_frames]
    | exhausted _ _ => exact .inr (.inl rfl)
    | refused _ _ _ => exact .inr (.inl rfl)
    | @performed f i effect hi hx hp =>
        rw [stepped_snd, Effect.apply_frames]
        cases effect with
        | leave value =>
            refine .inl ⟨⟨_, .ret running hi hx ?_⟩, rfl⟩
            exact opcode_of_leave hp
        | enter => exact .inr (.inr ⟨_, rfl⟩)
        | _ => exact .inr (.inl rfl)
  · rw [step_of_not_running running]
    exact .inr (.inl rfl)

/-! ## Pending calls -/

/-- A step that leaves the stack at least as high as `base` leaves `base` at its bottom. -/
theorem step_keeps_bottom {base : Array Frame} (h : base.toList <+: m.frames.toList)
    (hs : base.size ≤ (m.step program).2.frames.size) :
    base.toList <+: (m.step program).2.frames.toList := by
  obtain ⟨-, hf⟩ | hf | ⟨frame, hf⟩ := step_frames program m
  · rw [hf] at hs ⊢
    rw [Array.toList_pop]
    refine List.prefix_of_prefix_length_le h (List.dropLast_prefix _) ?_
    simpa using hs
  · rw [hf]; exact h
  · rw [hf, Array.toList_push]
    exact h.trans (List.prefix_append _ _)

/-- As long as a stack stays at least as high as `base`, `base` stays at its bottom. -/
theorem runFor_keeps_bottom {base : Array Frame} (h : base.toList <+: m.frames.toList) :
    ∀ n, (∀ k ≤ n, base.size ≤ (runFor program k m).frames.size) →
      base.toList <+: (runFor program n m).frames.toList := by
  intro n
  induction n with
  | zero => intro _; exact h
  | succ n ih =>
      intro hs
      have hn := hs (n + 1) (Nat.le_refl _)
      rw [runFor_succ_last] at hn ⊢
      exact step_keeps_bottom (ih fun k hk => hs k (by omega)) hn

theorem extract_of_bottom {base frames : Array Frame} (h : base.toList <+: frames.toList) :
    frames.extract 0 base.size = base := by
  apply Array.toList_inj.mp
  simpa using (List.prefix_iff_eq_take.mp h).symm

theorem eq_of_bottom {base frames : Array Frame} (h : base.toList <+: frames.toList)
    (hs : frames.size = base.size) : frames = base := by
  apply Array.toList_inj.mp
  exact (h.eq_of_length (by simpa using hs.symm)).symm

/-! ## A call of a compiled function -/

/-- The machine stands at a `call` of the compiled function `callee`, and the call succeeds. -/
structure CallsCompiled (program : Program) (m : Machine) (caller : Function) (fields : Fields)
    (callee : UInt16) : Prop where
  running : m.status = .running
  fetches : ∃ i, m.Fetches program caller i ∧ i.opcode = .ok .call ∧
    i.fields Opcode.call.layout = fields
  compiled : m.registers.read fields.rb = .function (.compiled callee)
  succeeds : ∀ fault, (m.step program).1 ≠ .fault fault

/-- The frame that a call pushes: where the caller goes on, and its window. -/
def callFrame (m : Machine) (caller : Function) (fields : Fields) : Frame :=
  ⟨m.pc + 1, m.function, fields.ra, m.registers.window caller.registerCount.toNat⟩

theorem windowSize_of_function {index : UInt16} {f : Function}
    (h : program.function? index = some f) :
    windowSize program index = f.registerCount.toNat := by
  rw [windowSize, h]

/-- Within the budget, a call with depth and arguments in order succeeds. -/
theorem CallsCompiled.of_checks {caller : Function} {i : Instruction} {callee : UInt16}
    {target : Function} (running : m.status = .running) (hi : m.Fetches program caller i)
    (hx : m.isExhausted = false) (hop : i.opcode = .ok .call)
    (hc : m.registers.read (i.fields Opcode.call.layout).rb = .function (.compiled callee))
    (hdepth : m.frames.size < m.limits.maxCallDepth)
    (ht : program.function? callee = some target)
    (hargs : (i.fields Opcode.call.layout).rc.toNat + target.paramCount.toNat
      ≤ registerCapacity) :
    m.CallsCompiled program caller (i.fields Opcode.call.layout) callee := by
  refine ⟨running, ⟨i, hi, hop, rfl⟩, hc, ?_⟩
  intro fault
  have hp := (planWord_of_opcode hop).trans (plan_call_compiled hc hdepth ht hargs)
  rw [step_of_planned running hi hx hp]
  exact stepped_fst_ne_fault fault

theorem CallsCompiled.frames_eq {caller : Function} {fields : Fields} {callee : UInt16}
    (call : m.CallsCompiled program caller fields callee) :
    (m.step program).2.frames = m.frames.push (m.callFrame caller fields) := by
  obtain ⟨i, hi, hop, rfl⟩ := call.fetches
  obtain ⟨effect, hp, hnext⟩ := performed_of_fetches call.running hi call.succeeds
  rw [planWord_of_opcode hop] at hp
  obtain ⟨target, -, rfl⟩ := (plan_planned hp).of_compiled call.compiled
  rw [hnext, Effect.apply_frames, windowSize_of_function hi.function_eq]
  rfl

/-- How the caller goes on after a call that returned `value`, if anything: as before the call,
but behind it, and with the value in the destination. -/
structure Resumes (m : Machine) (caller : Function) (destination : UInt8)
    (value : Option Value) (t : Machine) : Prop where
  status : t.status = .running
  frames : t.frames = m.frames
  function : t.function = m.function
  pc : t.pc = m.pc + 1
  returned : ∀ v, value = some v → t.registers.read destination = v
  window : ∀ r : UInt8, r.toNat < min 256 caller.registerCount.toNat →
    value = none ∨ r ≠ destination → t.registers.read r = m.registers.read r

theorem Returns.running {value : Option Value} (h : m.Returns program value) :
    m.status = .running := by
  cases h with
  | ended running _ _ => exact running
  | ret running _ _ _ => exact running

/-- A return that finds the frame of a call on top of the stack resumes the caller. -/
theorem Returns.resumes {s : Machine} {caller : Function} {fields : Fields} {value : Option Value}
    (h : s.Returns program value) (hs : s.frames = m.frames.push (m.callFrame caller fields)) :
    m.Resumes caller fields.ra value (s.step program).2 := by
  obtain ⟨pc, executed, hstep⟩ := h.step_eq
  have hb : s.frames.back? = some (m.callFrame caller fields) := by rw [hs, Array.back?_push]
  rw [hstep, leave_of_back (m := { s with pc, executed }) hb]
  refine ⟨h.running, by simp [hs], rfl, rfl, ?_, ?_⟩
  · rintro v rfl
    exact Registers.read_write_self _ _ _
  · intro r hr hv
    have hw : (s.registers.restore (m.callFrame caller fields).saved).read r
        = m.registers.read r := by
      rw [callFrame, Registers.read_restore_window, if_pos (by omega)]
    cases value with
    | none => exact hw
    | some v =>
        have hne : fields.ra ≠ r := by
          rcases hv with hv | hv
          · exact nomatch hv
          · exact fun h => hv h.symm
        exact (Registers.read_write_of_ne _ v hne).trans hw

/-- **Call and return.**  A successful call of a compiled function pushes its frame.  However the
run goes on, as long as the stack is higher than before the call that frame and all below it are
unchanged.  The call ends by a return out of its own frame and in no other way, and then the caller
goes on behind the call with its stack, its function and its window. -/
theorem call_stack_discipline {caller : Function} {fields : Fields} {callee : UInt16}
    (call : m.CallsCompiled program caller fields callee) :
    (runFor program 1 m).frames = m.frames.push (m.callFrame caller fields) ∧
    ∀ n, (∀ k ≤ n, m.frames.size < (runFor program (k + 1) m).frames.size) →
      (runFor program (n + 1) m).frames.extract 0 (m.frames.size + 1)
        = m.frames.push (m.callFrame caller fields) ∧
      ((runFor program (n + 2) m).frames.size ≤ m.frames.size ↔
        (runFor program (n + 1) m).frames.size = m.frames.size + 1 ∧
          ∃ value, (runFor program (n + 1) m).Returns program value) ∧
      ∀ value, (runFor program (n + 1) m).frames.size = m.frames.size + 1 →
        (runFor program (n + 1) m).Returns program value →
        m.Resumes caller fields.ra value (runFor program (n + 2) m) := by
  have pushed : (runFor program 1 m).frames = m.frames.push (m.callFrame caller fields) := by
    rw [runFor_succ_last, runFor_zero]
    exact call.frames_eq
  refine ⟨pushed, ?_⟩
  intro n pending
  have below : (m.frames.push (m.callFrame caller fields)).toList
      <+: (runFor program (n + 1) m).frames.toList := by
    rw [runFor_succ]
    refine runFor_keeps_bottom (by rw [call.frames_eq]) n fun k hk => ?_
    have := pending k hk
    rw [runFor_succ] at this
    simpa using this
  have hsize : (m.frames.push (m.callFrame caller fields)).size = m.frames.size + 1 := by simp
  refine ⟨?_, ?_, ?_⟩
  · rw [← hsize]
    exact extract_of_bottom below
  · have hn := pending n (Nat.le_refl n)
    rw [runFor_succ_last (n + 1)]
    constructor
    · intro hlow
      obtain ⟨hret, hf⟩ | hf | ⟨frame, hf⟩ := step_frames program (runFor program (n + 1) m)
      · rw [hf, Array.size_pop] at hlow
        exact ⟨by omega, hret⟩
      · rw [hf] at hlow; omega
      · rw [hf, Array.size_push] at hlow; omega
    · rintro ⟨htop, value, hret⟩
      have htop' := eq_of_bottom below (htop.trans hsize.symm)
      rw [(hret.resumes htop').frames]
  · intro value htop hret
    rw [runFor_succ_last (n + 1)]
    exact hret.resumes (eq_of_bottom below (htop.trans hsize.symm))

/-! ## A callee that overwrites its caller's registers

The caller is `CALL r2, r1, r0; RET r2` with 7 in `r0` and the callee in `r1`; the callee is
`LOAD_I32 r1, 9; RET r0`. -/

def overwritingCaller : Function :=
  ⟨"main", ⟨"", 0⟩, 0, 0, 3, #[⟨0x93020100⟩, ⟨0x94000002⟩]⟩

def overwritingCallee : Function :=
  ⟨"overwrite", ⟨"", 0⟩, 1, 0, 2, #[⟨0x02010009⟩, ⟨0x94000000⟩]⟩

def overwritingProgram : Program :=
  { Program.empty with functions := #[overwritingCaller, overwritingCallee] }

def overwritingMachine : Machine :=
  { Machine.new .unbounded Limits.default with
    registers := (Registers.initial.write 0 (.i32 7)).write 1 (.function (.compiled 1))
    status := .running }

theorem call_stack_discipline_overwriting :
    overwritingMachine.CallsCompiled overwritingProgram overwritingCaller ⟨2, 1, 0⟩ 1 ∧
    overwritingMachine.Resumes overwritingCaller 2 (some (.i32 7))
      (runFor overwritingProgram 3 overwritingMachine) := by
  have succeeds : (overwritingMachine.step overwritingProgram).1 = .running := by decide +kernel
  have call : overwritingMachine.CallsCompiled overwritingProgram overwritingCaller
      ⟨2, 1, 0⟩ 1 := by
    refine ⟨rfl, ⟨⟨0x93020100⟩, ⟨rfl, rfl⟩, Instruction.opcode_of_byte rfl, rfl⟩, ?_, ?_⟩
    · exact Registers.read_write_self _ _ _
    · intro fault h
      cases succeeds.symm.trans h
  have inside : (runFor overwritingProgram 2 overwritingMachine).status = .running ∧
      (runFor overwritingProgram 2 overwritingMachine).frames.size = 1 ∧
      (runFor overwritingProgram 2 overwritingMachine).function = 1 ∧
      (runFor overwritingProgram 2 overwritingMachine).pc = 1 ∧
      (runFor overwritingProgram 2 overwritingMachine).isExhausted = false ∧
      (runFor overwritingProgram 2 overwritingMachine).registers.read 0 = .i32 7 := by
    decide +kernel
  obtain ⟨running, size, function, pc, budget, argument⟩ := inside
  obtain ⟨pushed, rest⟩ := call_stack_discipline call
  refine ⟨call, (rest 1 ?_).2.2 _ size ?_⟩
  · intro k hk
    obtain rfl | rfl : k = 0 ∨ k = 1 := by omega
    · rw [pushed]
      exact Nat.zero_lt_one
    · rw [size]
      exact Nat.zero_lt_one
  · have hi : (runFor overwritingProgram 2 overwritingMachine).Fetches overwritingProgram
        overwritingCallee ⟨0x94000000⟩ := by
      refine ⟨?_, ?_⟩
      · rw [function]; rfl
      · rw [pc]; rfl
    have hret := Returns.ret running hi budget (Instruction.opcode_of_byte rfl)
    rw [← argument]
    exact hret

end Machine

end RegisterMachine
