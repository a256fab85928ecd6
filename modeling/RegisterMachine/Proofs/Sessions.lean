import Mathlib
import RegisterMachine.Proofs.Calls

/-!
# Sessions

A session is runs one after another on one machine.  The window of the function that a run started
in is in one of two places: in the registers as long as no call is pending, else in the frame of the
outermost call (`EntryWindow`).  A run that halts has no call pending, but one that fails in a
callee has, and starting the next run drops the frames without a look at them.

So what a session finds in its registers after the next start is the window of the entry function if
no call is pending; if one is, it is what the callee left there.
-/

namespace RegisterMachine.Machine

variable {program : Program} {m : Machine}

/-- Runs functions one after another. -/
def session (m : Machine) (runs : List (Program × UInt16)) : Machine :=
  runs.foldl (fun m run => m.runFunction run.1 run.2) m

theorem session_concat (m : Machine) (runs : List (Program × UInt16)) (program : Program)
    (index : UInt16) :
    m.session (runs ++ [(program, index)]) = (m.session runs).runFunction program index :=
  List.foldl_concat _ _ _ _

/-! ## Where the window of the entry function is -/

/-- Without pending calls the entry function is executing; with some, the outermost one was made by
it and has saved its whole window. -/
structure EntryWindow (program : Program) (m : Machine) : Prop where
  executing : m.frames = #[] → m.function = m.entry
  outermost : ∀ frame, m.frames[0]? = some frame →
    frame.function = m.entry ∧ frame.saved.size = min (windowSize program m.entry) 256

namespace EntryWindow

theorem start (index : UInt16) : (m.start program index).EntryWindow program := by
  refine ⟨fun _ => ?_, fun frame hframe => ?_⟩
  · rw [Machine.start]
    split <;> rfl
  · rw [start_frames] at hframe
    cases hframe

/-- A return keeps the outermost call in place, or it is the return of that call. -/
theorem leave (h : m.EntryWindow program) (value : Option Value) :
    (m.leave value).EntryWindow program := by
  cases hb : m.frames.back? with
  | none =>
      simp only [Machine.leave, hb]
      exact ⟨h.executing, h.outermost⟩
  | some frame =>
      rw [leave_of_back hb]
      refine ⟨fun hempty => ?_, fun first hfirst => ?_⟩
      · have hpopped : m.frames.pop = #[] := hempty
        have hsize : m.frames.size = 1 := by
          have hpop : m.frames.size - 1 = 0 := by rw [← Array.size_pop, hpopped]; rfl
          have hpos : 0 < m.frames.size := by
            rw [Array.size_pos_iff]
            rintro hnil
            rw [hnil] at hb
            cases hb
          omega
        rw [Array.back?, hsize] at hb
        exact (h.outermost frame hb).1
      · rw [Array.getElem?_pop] at hfirst
        split at hfirst
        · exact h.outermost first hfirst
        · cases hfirst

theorem enter (h : m.EntryWindow program) (callee : UInt16) (size : Nat)
    (arguments : Array Value) (destination : UInt8) :
    EntryWindow program (Effect.apply m (.enter callee size arguments destination
      (m.registers.window (windowSize program m.function)))) := by
  simp only [Effect.apply]
  refine ⟨fun hempty => ?_, fun first hfirst => ?_⟩
  · simp at hempty
  · by_cases hframes : m.frames = #[]
    · rw [hframes] at hfirst
      obtain rfl := Option.some.inj hfirst
      exact ⟨h.executing hframes, by
        show (m.registers.window (windowSize program m.function)).size = _
        rw [Registers.size_window, h.executing hframes]⟩
    · have hpos : 0 < m.frames.size := Array.size_pos_iff.mpr hframes
      rw [Array.getElem?_push_lt hpos, ← Array.getElem?_eq_getElem hpos] at hfirst
      exact h.outermost first hfirst

theorem perform (h : m.EntryWindow program) {fields : Fields} {op : Opcode} {effect : Effect}
    (hp : Planned program m fields op effect) :
    (effect.apply m.advanced).EntryWindow program := by
  have hadvanced : m.advanced.EntryWindow program := ⟨h.executing, h.outermost⟩
  cases hp with
  | enter => exact hadvanced.enter _ _ _ _
  | ret => exact hadvanced.leave (some _)
  | _ => exact ⟨h.executing, h.outermost⟩

theorem step (h : m.EntryWindow program) : (m.step program).2.EntryWindow program := by
  by_cases running : m.status = .running
  · have ht := step_transition program running
    generalize m.step program = out at ht ⊢
    cases ht with
    | ended _ _ =>
        rw [stepped_snd]
        exact h.leave none
    | performed _ _ hp =>
        obtain ⟨op, -, hplanned⟩ := planWord_planned hp
        rw [stepped_snd]
        exact h.perform hplanned
    | _ => exact ⟨h.executing, h.outermost⟩
  · rw [step_of_not_running running]
    exact h

theorem runFor (h : m.EntryWindow program) (n : Nat) :
    (runFor program n m).EntryWindow program := by
  induction n with
  | zero => exact h
  | succ n ih =>
      rw [runFor_succ_last]
      exact ih.step

end EntryWindow

/-- A run that halts has no call pending: only a return that finds no frame halts it. -/
theorem step_frames_of_halted (h : m.status = .halted → m.frames = #[])
    (hs : (m.step program).2.status = .halted) : (m.step program).2.frames = #[] := by
  by_cases running : m.status = .running
  · have ht := step_transition program running
    generalize m.step program = out at ht hs ⊢
    cases ht with
    | lost _ => cases hs
    | exhausted _ _ => cases hs
    | refused _ _ _ => cases hs
    | ended _ _ =>
        rw [stepped_snd] at hs ⊢
        obtain ⟨hl, -⟩ | ⟨-, hsize⟩ := leave_status (m := m) none
        · cases running.symm.trans (hl.symm.trans hs)
        · rw [leave_frames, Array.eq_empty_of_size_eq_zero hsize]
          rfl
    | @performed f i effect _ _ _ =>
        rw [stepped_snd] at hs ⊢
        obtain hl | ⟨-, hframes⟩ := effect.apply_status m.advanced
        · cases running.symm.trans (hl.symm.trans hs)
        · exact hframes
  · rw [step_of_not_running running] at hs ⊢
    exact h hs

theorem runFor_frames_of_halted (h : m.status = .halted → m.frames = #[]) (n : Nat) :
    (runFor program n m).status = .halted → (runFor program n m).frames = #[] := by
  induction n with
  | zero => exact h
  | succ n ih =>
      rw [runFor_succ_last]
      exact step_frames_of_halted ih

/-! ## What the next start finds -/

theorem step_entry : (m.step program).2.entry = m.entry := by
  by_cases running : m.status = .running
  · have ht := step_transition program running
    generalize m.step program = out at ht ⊢
    cases ht with
    | ended _ _ => rw [stepped_snd, leave_entry]
    | @performed f i effect _ _ _ =>
        rw [stepped_snd]
        cases effect with
        | leave value => exact leave_entry _
        | _ => rfl
    | _ => rfl
  · rw [step_of_not_running running]

theorem runFor_entry (n : Nat) : (runFor program n m).entry = m.entry := by
  induction n with
  | zero => rfl
  | succ n ih => rw [runFor_succ_last, step_entry, ih]

/-- The window of the entry function can be read at each of its registers: in the registers if no
call is pending, else in the outermost frame. -/
theorem EntryWindow.entryRegisters {f : Function} (h : m.EntryWindow program)
    (hf : program.function? m.entry = some f) {r : UInt8}
    (hr : r.toNat < min 256 f.registerCount.toNat) :
    ∃ v, m.entryRegisters[r.toNat]? = some v ∧ (m.frames = #[] → v = m.registers.read r) := by
  cases hframe : m.frames[0]? with
  | none =>
      refine ⟨m.registers.read r, ?_, fun _ => rfl⟩
      simp only [Machine.entryRegisters, hframe]
      exact Registers.getElem?_toArray _ _
  | some frame =>
      obtain ⟨-, hsize⟩ := h.outermost frame hframe
      rw [windowSize_of_function hf] at hsize
      have hlt : r.toNat < frame.saved.size := by omega
      refine ⟨frame.saved[r.toNat], ?_, ?_⟩
      · simp only [Machine.entryRegisters, hframe]
        exact Array.getElem?_eq_getElem hlt
      · intro hempty
        rw [hempty] at hframe
        cases hframe

/-- **Session registers persist as long as no call is pending.**  Take a machine after any runs of
any programs, and the window of the function that the last run started in.  After the next start a
register of that window holds its value exactly if no call was pending, as is always so after a run
that halted, or if the callee happens to have left the same value.  Heap and globals stay. -/
theorem session_registers_persist (memory : Memory) (limits : Limits)
    (runs : List (Program × UInt16)) (last : Program) (index : UInt16) {f : Function}
    (hf : last.function? index = some f) (next : Program) (entry : UInt16) :
    let s := (Machine.new memory limits).session (runs ++ [(last, index)])
    let t := s.start next entry
    (s.status = .halted → s.frames = #[]) ∧
    (∀ r : UInt8, r.toNat < min 256 f.registerCount.toNat →
      ∃ v, s.entryRegisters[r.toNat]? = some v ∧
        (t.registers.read r = v ↔ s.frames = #[] ∨ s.registers.read r = v)) ∧
    t.heap = s.heap ∧ ∀ k < s.globals.size, t.globals[k]? = s.globals[k]? := by
  intro s t
  obtain ⟨n, hs⟩ : ∃ n, s = runFor last n
      (((Machine.new memory limits).session runs).start last index) :=
    ⟨_, (session_concat _ runs last index).trans (runFunction_eq_runFor index)⟩
  have hwindow : s.EntryWindow last := hs ▸ (EntryWindow.start index).runFor n
  have hentry : last.function? s.entry = some f := by
    rw [hs, runFor_entry, start_entry, hf]
  refine ⟨?_, ?_, start_heap next entry, fun k hk => start_globals next entry hk⟩
  · rw [hs]
    exact runFor_frames_of_halted (fun _ => start_frames last index) n
  · intro r hr
    obtain ⟨v, hv, hlive⟩ := hwindow.entryRegisters hentry hr
    refine ⟨v, hv, ?_⟩
    rw [start_registers]
    constructor
    · exact .inr
    · rintro (hframes | hread)
      · exact (hlive hframes).symm
      · exact hread

/-! ## A run that fails in a callee

`failing` is the callee of `nestedProgram`: `NOT r2, r2`, which finds a number in its fresh window.
The entry function is `LOAD_I32 r2, 7; LOAD_FUNCTION r0, 1; CALL r1, r0, r2`. -/

def nestedProgram : Program :=
  { Program.empty with
    functions := #[
      ⟨"main", ⟨"", 0⟩, 0, 0, 3, #[⟨0x02020007⟩, ⟨0x08000001⟩, ⟨0x93010002⟩]⟩,
      ⟨"failing", ⟨"", 0⟩, 0, 0, 3, #[⟨0x60020200⟩]⟩] }

/-- `LOAD_I32 r2, 7` and no call. -/
def plainProgram : Program :=
  { Program.empty with
    functions := #[⟨"main", ⟨"", 0⟩, 0, 0, 3, #[⟨0x02020007⟩]⟩] }

theorem session_of_stopped {memory : Memory} {limits : Limits} {index : UInt16} {n : Nat}
    (h : (runFor program n ((Machine.new memory limits).start program index)).status ≠ .running)
    (hn : n ≤ enoughStrides * stride) :
    (Machine.new memory limits).session [(program, index)]
      = runFor program n ((Machine.new memory limits).start program index) :=
  runFunction_of_stopped h hn

/-- After a run that halted, what it loaded is there at the next start, also if the run before it
failed in a callee. -/
theorem session_registers_persist_plain :
    let s := (Machine.new .unbounded Limits.default).session
      ([(nestedProgram, 0)] ++ [(plainProgram, 0)])
    s.status = .halted ∧ s.entryRegisters[2]? = some (.i32 7) ∧
      (s.start nestedProgram 0).registers.read 2 = .i32 7 := by
  intro s
  have first : (Machine.new .unbounded Limits.default).session [(nestedProgram, 0)]
      = runFor nestedProgram 4 ((Machine.new .unbounded Limits.default).start nestedProgram 0) :=
    session_of_stopped (by decide +kernel) (by decide)
  have second : s = runFor plainProgram 2 ((runFor nestedProgram 4
      ((Machine.new .unbounded Limits.default).start nestedProgram 0)).start plainProgram 0) := by
    refine (session_concat _ _ _ _).trans ?_
    rw [first]
    exact runFunction_of_stopped (by decide +kernel) (by decide)
  have ended : s.status = .halted ∧ s.entryRegisters[2]? = some (.i32 7) := by
    rw [second]
    decide +kernel
  have persist := session_registers_persist .unbounded Limits.default [(nestedProgram, 0)]
    plainProgram 0 rfl nestedProgram 0
  obtain ⟨v, hv, hread⟩ := persist.2.1 2 (by decide)
  refine ⟨ended.1, ended.2, ?_⟩
  rw [hread.mpr (.inl (persist.1 ended.1))]
  exact Option.some.inj (hv.symm.trans ended.2)

/-- After a run that failed in a callee the window of the entry function holds 7 in `r2`, and the
next run starts with 0 there: the callee's zero. -/
theorem session_registers_lost :
    let s := (Machine.new .unbounded Limits.default).session [(nestedProgram, 0)]
    (∃ fault, s.status = .faulted fault) ∧
    (∃ f, nestedProgram.function? s.entry = some f ∧ 2 < min 256 f.registerCount.toNat) ∧
    s.entryRegisters[2]? = some (.i32 7) ∧
    (s.start nestedProgram 0).registers.read 2 = .i32 0 := by
  intro s
  have ended : (runFor nestedProgram 4
        ((Machine.new .unbounded Limits.default).start nestedProgram 0)).status
          = .faulted ⟨.typeMismatch "NOT" 2 "Bool" "I32", 0, "failing", some ⟨0x60020200⟩⟩ ∧
      (runFor nestedProgram 4
        ((Machine.new .unbounded Limits.default).start nestedProgram 0)).entryRegisters[2]?
          = some (.i32 7) ∧
      (runFor nestedProgram 4
        ((Machine.new .unbounded Limits.default).start nestedProgram 0)).registers.read 2
          = .i32 0 := by
    decide +kernel
  obtain ⟨hstatus, hsaved, hlive⟩ := ended
  have hs : s = runFor nestedProgram 4
      ((Machine.new .unbounded Limits.default).start nestedProgram 0) :=
    session_of_stopped (by rw [hstatus]; exact Status.noConfusion) (by decide)
  rw [start_registers, hs, runFor_entry, start_entry]
  exact ⟨⟨_, hstatus⟩, ⟨_, rfl, by decide⟩, hsaved, hlive⟩

end RegisterMachine.Machine
