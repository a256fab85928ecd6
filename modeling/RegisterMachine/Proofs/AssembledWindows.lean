import Mathlib
import RegisterMachine.Proofs.Allocation
import RegisterMachine.Proofs.Assembly
import RegisterMachine.Proofs.Windows

/-!
# Windows of assembled functions

The assembler gives a function the smallest window that holds its parameters and every register
that one of its instructions names (`Function.Snug`).  The bounds are stated by what is at most `n`,
so that going over operands, lines and blocks only adds conditions.

A call reads registers that it does not name: the arguments, one for each parameter of whatever
function it finds at run time.  These lie in the window only if the text happens to name as many
registers.  If all calls of a run take their arguments from within the window, no function sees what
another one left in the registers; if one does not, a function can.
-/

namespace RegisterMachine

/-- Every register that the instruction names is below `n`. -/
def Instruction.NamesBelow (i : Instruction) (n : Nat) : Prop :=
  ∀ op, i.opcode = .ok op → ∀ operand ∈ op.operands, operand.kind = .reg →
    ((i.fields op.layout).get operand.field).toNat < n

/-- The window of the function is the smallest that holds its parameters and the registers that its
instructions name. -/
def Function.Snug (f : Function) : Prop :=
  ∀ n, f.registerCount.toNat ≤ n ↔ f.paramCount.toNat ≤ n ∧ ∀ i ∈ f.code, i.NamesBelow n

/-- The values of the operands of a word are its fields. -/
theorem Instruction.map_fields_of_ofOperands {op : Opcode} {values : List UInt32}
    {i : Instruction} (h : Instruction.ofOperands op values = .ok i) :
    op.operands.map (fun operand => (i.fields op.layout).get operand.field) = values := by
  rw [← List.forall₂_eq_eq_eq, List.forall₂_map_left_iff]
  exact (Instruction.fields_of_ofOperands h).2

namespace Assembly

/-! ## Registers that are noted -/

namespace Draft

variable {scope : Scope} {number : Nat}

theorem operands_registers (pairs : List (Operand × Token)) :
    ∀ {draft next : Draft} {values : List UInt32},
      draft.operands scope number pairs = .ok (values, next) →
      next.builder = draft.builder ∧
      ∀ n, next.registers ≤ n ↔ draft.registers ≤ n ∧
        List.Forall₂ (fun operand value => operand.kind = .reg → value.toNat < n)
          (pairs.map Prod.fst) values := by
  induction pairs with
  | nil =>
      intro draft next values h
      cases h
      simp
  | cons pair rest ih =>
      intro draft next values h
      obtain ⟨⟨value, program⟩, -, h⟩ := bind_eq_ok.mp h
      obtain ⟨⟨values', next'⟩, hrest, h⟩ := bind_eq_ok.mp h
      cases h
      obtain ⟨hbuilder, hregisters⟩ := ih hrest
      refine ⟨hbuilder, fun n => ?_⟩
      rw [hregisters, List.map_cons, List.forall₂_cons, ← and_assoc]
      refine and_congr_left fun _ => ?_
      split
      · rename_i hreg
        simp only [hreg, Nat.max_le, Nat.succ_le_iff, forall_const]
      · rename_i hreg
        simp only [hreg, IsEmpty.forall_iff, and_true]

theorem forall₂_values_iff {op : Opcode} {values : List UInt32} {word : Instruction}
    (hword : Instruction.ofOperands op values = .ok word) (n : Nat) :
    List.Forall₂ (fun operand value => operand.kind = .reg → value.toNat < n) op.operands values ↔
      word.NamesBelow n := by
  obtain ⟨hop, -⟩ := Instruction.fields_of_ofOperands hword
  rw [← Instruction.map_fields_of_ofOperands hword, List.forall₂_map_right_iff, List.forall₂_same]
  constructor
  · intro h op' hop'
    cases hop.symm.trans hop'
    exact h
  · intro h
    exact h op hop

/-- A line adds a word, and notes the registers that the word names. -/
theorem addLine_registers {draft next : Draft} {source : SourceLine}
    (h : draft.addLine scope source = .ok next) :
    ∃ word, next.builder = draft.builder.addInstruction word ∧
      ∀ n, next.registers ≤ n ↔ draft.registers ≤ n ∧ word.NamesBelow n := by
  rw [addLine] at h
  cases hop : Opcode.ofMnemonic? source.mnemonic.text with
  | none => simp only [hop] at h; cases h
  | some op =>
      simp only [hop] at h
      obtain ⟨hlength, h⟩ := check_eq_ok.mp h
      obtain ⟨⟨values, middle⟩, hvalues, h⟩ := bind_eq_ok.mp h
      obtain ⟨word, hword, rfl⟩ := emit_eq_ok h
      obtain ⟨hbuilder, hregisters⟩ := operands_registers _ hvalues
      rw [List.map_fst_zip (Nat.le_of_eq (not_not.mp hlength))] at hregisters
      refine ⟨word, by rw [hbuilder], fun n => ?_⟩
      rw [← forall₂_values_iff hword]
      exact hregisters n

theorem addLines_registers (lines : List SourceLine) :
    ∀ {draft next : Draft}, lines.foldlM (addLine scope) draft = .ok next →
      ∃ words : List Instruction,
        next.builder = { draft.builder with code := draft.builder.code ++ words } ∧
        ∀ n, next.registers ≤ n ↔ draft.registers ≤ n ∧ ∀ word ∈ words, word.NamesBelow n := by
  induction lines with
  | nil =>
      intro draft next h
      cases h
      exact ⟨[], by simp, by simp⟩
  | cons line lines ih =>
      intro draft next h
      rw [List.foldlM_cons] at h
      obtain ⟨middle, hline, h⟩ := bind_eq_ok.mp h
      obtain ⟨word, hbuilder, hword⟩ := addLine_registers hline
      obtain ⟨words, hbuilder', hwords⟩ := ih h
      refine ⟨word :: words, ?_, fun n => ?_⟩
      · rw [hbuilder', hbuilder]
        simp [FunctionBuilder.addInstruction]
      · rw [hwords, hword, List.forall_mem_cons, and_assoc]

end Draft

/-! ## Registers that are reserved -/

theorem allocateRegister_of_lt {builder : FunctionBuilder} {k : Nat}
    (hk : builder.registers = ⟨k, k⟩) (hroom : k < registerCapacity) :
    builder.allocateRegister
      = (.ok (UInt8.ofNat k), { builder with registers := ⟨k + 1, k + 1⟩ }) := by
  rw [FunctionBuilder.allocateRegister_eq, hk, if_pos hroom, Nat.max_eq_right (Nat.le_succ k)]

/-- To take registers from a stack without free ones uses the next ones. -/
theorem takeRegisters_registers (n : Nat) :
    ∀ {builder next : FunctionBuilder} {k : Nat}, builder.registers = ⟨k, k⟩ → k ≤ 256 →
      takeRegisters n builder = .ok next → next.registers = ⟨k + n, k + n⟩ ∧ k + n ≤ 256 := by
  induction n with
  | zero =>
      intro builder next k hk hle h
      cases h
      exact ⟨hk, hle⟩
  | succ n ih =>
      intro builder next k hk hle h
      obtain ⟨⟨register, middle⟩, htake, h⟩ := bind_eq_ok.mp h
      have htake := toExcept_eq_ok htake
      by_cases hroom : k < registerCapacity
      · rw [allocateRegister_of_lt hk hroom] at htake
        cases htake
        have hnext := ih (k := k + 1) rfl hroom h
        rwa [Nat.add_assoc, Nat.add_comm 1 n] at hnext
      · rw [FunctionBuilder.allocateRegister_eq, hk, if_neg hroom] at htake
        cases htake

/-- The registers that were reserved are the window, and there are at most 256. -/
theorem reserveRegisters_maxUsed {n : Nat} {builder next : FunctionBuilder}
    (hempty : builder.registers = .empty) (h : reserveRegisters n builder = .ok next) :
    next.registers.maxUsed = n ∧ n ≤ 256 := by
  obtain ⟨middle, htake, h⟩ := bind_eq_ok.mp h
  obtain ⟨⟨⟨⟩, freed⟩, hfree, h⟩ := bind_eq_ok.mp h
  cases h
  obtain ⟨hmiddle, hle⟩ := takeRegisters_registers n hempty (Nat.zero_le _) htake
  have hfree := toExcept_eq_ok hfree
  rw [FunctionBuilder.freeRegisters_eq, if_pos le_rfl] at hfree
  cases hfree
  exact ⟨by rw [hmiddle, Nat.zero_add], by omega⟩

/-! ## Windows -/

/-- A block becomes a function whose window is as small as it can be. -/
theorem compileBlock_snug {file : String} {names : Std.HashMap String UInt16} {p q : Program}
    {block : Block} {function : Function}
    (h : compileBlock file names p block = .ok (function, q)) : function.Snug := by
  obtain ⟨draft, hlines, h⟩ := bind_eq_ok.mp h
  obtain ⟨builder, hreserve, h⟩ := bind_eq_ok.mp h
  cases h
  rw [← Array.foldlM_toList] at hlines
  obtain ⟨words, hbuilder, hregisters⟩ := Draft.addLines_registers _ hlines
  have hempty : draft.builder.registers = .empty := by rw [hbuilder]; rfl
  have hcode : draft.builder.code = words.toArray := by rw [hbuilder]; simp [FunctionBuilder.new]
  obtain ⟨hmax, hle⟩ := reserveRegisters_maxUsed hempty hreserve
  obtain ⟨registers, rfl⟩ := reserveRegisters_eq_ok hreserve
  intro n
  rw [FunctionBuilder.finalize_registerCount (hmax ▸ hle), Nat.max_le, hmax, hregisters, and_comm]
  simp only [FunctionBuilder.finalize, hcode, Nat.zero_le, true_and, List.mem_toArray]

theorem addBlock_snug {file : String} {names : Std.HashMap String UInt16} {p q : Program}
    {block : Block} (hp : p.Sound) (hsnug : ∀ f ∈ p.functions, f.Snug)
    (h : addBlock file names p block = .ok q) : q.Sound ∧ ∀ f ∈ q.functions, f.Snug := by
  obtain ⟨⟨function, middle⟩, hcompile, h⟩ := bind_eq_ok.mp h
  obtain ⟨⟨index, program⟩, hadd, h⟩ := bind_eq_ok.mp h
  cases h
  obtain ⟨hgrows, -⟩ := compileBlock_compiledAs hp hcompile
  have happends := addFunction_eq_ok hgrows.sound hadd
  refine ⟨happends.sound, fun f hf => ?_⟩
  rw [← Array.mem_toList_iff, happends.functions, List.mem_append, List.mem_singleton,
    hgrows.functions, Array.mem_toList_iff] at hf
  obtain hf | rfl := hf
  · exact hsnug f hf
  · exact compileBlock_snug hcompile

theorem addBlocks_snug {file : String} {names : Std.HashMap String UInt16} (blocks : List Block) :
    ∀ {p q : Program}, p.Sound → (∀ f ∈ p.functions, f.Snug) →
      blocks.foldlM (addBlock file names) p = .ok q → ∀ f ∈ q.functions, f.Snug := by
  induction blocks with
  | nil =>
      intro p q _ hsnug h
      cases h
      exact hsnug
  | cons block blocks ih =>
      intro p q hp hsnug h
      rw [List.foldlM_cons] at h
      obtain ⟨middle, hblock, h⟩ := bind_eq_ok.mp h
      obtain ⟨hmiddle, hsnug'⟩ := addBlock_snug hp hsnug hblock
      exact ih hmiddle hsnug' h

/-- The window of every assembled function is the smallest that holds its parameters and the
registers that its instructions name. -/
theorem snug_of_assemble {source file : String} {program : Program}
    (h : assemble source file = .ok program) : ∀ f ∈ program.functions, f.Snug := by
  obtain ⟨outline, -, h⟩ := bind_eq_ok.mp h
  obtain ⟨names, -, h⟩ := bind_eq_ok.mp h
  obtain ⟨linked, hblocks, h⟩ := bind_eq_ok.mp h
  obtain ⟨entry, -, h⟩ := bind_eq_ok.mp h
  cases h
  rw [← Array.foldlM_toList] at hblocks
  have hsound : ({ Program.empty with globalCount := outline.globalCount } : Program).Sound :=
    { Program.Sound.empty with }
  have hsnug : ∀ f ∈ linked.functions, f.Snug :=
    addBlocks_snug _ hsound (by simp [Program.empty]) hblocks
  exact hsnug

theorem operandsWithin_of_assemble {source file : String} {program : Program}
    (h : assemble source file = .ok program) : program.OperandsWithin := by
  intro f hf i hi
  exact ((snug_of_assemble h f hf _).mp (Nat.le_refl _)).2 i hi

end Assembly

/-! ## Registers that an instruction uses -/

namespace Machine

variable {program : Program} {m : Machine}

/-- The registers of its own frame that the next instruction of a machine reads or writes: those
that it names, and those that a call of a compiled function copies for its callee. -/
inductive Uses (program : Program) (m : Machine) (f : Function) (i : Instruction) : Nat → Prop
  | named {op : Opcode} {operand : Operand} : i.opcode = .ok op → operand ∈ op.operands →
      operand.kind = .reg →
      Uses program m f i ((i.fields op.layout).get operand.field).toNat
  | argument {callee : UInt16} {target : Function} {k : Nat} :
      m.CallsCompiled program f (i.fields Opcode.call.layout) callee →
      program.function? callee = some target → k < target.paramCount.toNat →
      Uses program m f i ((i.fields Opcode.call.layout).rc.toNat + k)

/-- In a function that names only registers of its window, the next instruction uses no others
exactly if its arguments, should it be a call, lie in the window. -/
theorem uses_lt_iff (hw : program.OperandsWithin) {f : Function} {i : Instruction}
    (hi : m.Fetches program f i) :
    (∀ r, m.Uses program f i r → r < f.registerCount.toNat) ↔ m.ArgumentsWithin program := by
  have hnamed : i.NamesBelow f.registerCount.toNat :=
    hw f (Array.mem_of_getElem? hi.function_eq) i (Array.mem_of_getElem? hi.instruction_eq)
  constructor
  · intro huses caller fields callee target call ht
    obtain ⟨i', hi', hop, rfl⟩ := call.fetches
    cases hi.function_eq.symm.trans hi'.function_eq
    cases hi.instruction_eq.symm.trans hi'.instruction_eq
    cases hcount : target.paramCount.toNat with
    | zero =>
        have hfirst := hnamed .call hop ⟨"args", .reg, .c⟩ (.tail _ (.tail _ (.head _))) rfl
        have hle : (i.fields Opcode.call.layout).rc.toNat
            ≤ ((i.fields Opcode.call.layout).get .c).toNat := by
          rw [Fields.rc, UInt32.toNat_toUInt8]
          exact Nat.mod_le _ _
        exact hle.trans (Nat.le_of_lt hfirst)
    | succ k => exact huses _ (.argument call ht (by omega))
  · intro harguments r huses
    cases huses with
    | named hop hoperand hkind => exact hnamed _ hop _ hoperand hkind
    | argument call ht hk =>
        have := harguments _ _ _ _ call ht
        omega

/-- **Windows of assembled programs.**  Take an assembled program and a run of one of its functions
on a fresh machine.  An instruction uses registers of its function's window only, exactly if it is
no call that takes arguments from outside the window.  As long as the run has made no such call, no
function has seen what another one left in the registers: the run is that of the machine on which
every call has a register file of its own. -/
theorem assembled_windows_cover {source file : String} {program : Program}
    (h : Assembly.assemble source file = .ok program) (memory : Memory) (limits : Limits)
    (index : UInt16) :
    let run n := runFor program n ((Machine.new memory limits).start program index)
    (∀ n f i, (run n).status = .running → (run n).Fetches program f i →
      ((∀ r, (run n).Uses program f i r → r < f.registerCount.toNat) ↔
        (run n).ArgumentsWithin program)) ∧
    ∀ n, (∀ k < n, (run k).ArgumentsWithin program) →
      Agrees program (run n) (FileMachine.run program n (.ofMachine (run 0))) ∧
      ∀ k < n, ((FileMachine.run program k (.ofMachine (run 0))).step program).1
        = ((run k).step program).1 := by
  intro run
  have hw := Assembly.operandsWithin_of_assemble h
  refine ⟨fun n f i _ hi => uses_lt_iff hw hi, fun n harguments => ?_⟩
  have hstart : Matches program (run 0) (.ofMachine (run 0)) := .ofMachine (start_frames _ _)
  refine ⟨(hstart.run hw n harguments).toAgrees, fun k hk => ?_⟩
  exact ((hstart.run hw k fun j hj => harguments j (by omega)).step hw (harguments k hk)).1

/-! ## A call that keeps to the window

The program with a loop calls a function of one parameter with the last register that it names. -/

theorem argumentsWithin_loop (m : Machine) : m.ArgumentsWithin Assembly.loopProgram := by
  intro caller fields callee target call ht
  obtain ⟨i, hi, hop, rfl⟩ := call.fetches
  have htarget : target.paramCount.toNat ≤ 1 := by
    have hmem : target ∈ Assembly.loopProgram.functions := Array.mem_of_getElem? ht
    simp only [Assembly.loopProgram, List.mem_toArray, List.mem_cons, List.not_mem_nil, or_false]
      at hmem
    obtain rfl | rfl := hmem
    · exact Nat.zero_le 1
    · exact Nat.le_refl 1
  have hbyte : i.opcodeByte = Opcode.call.byte := Instruction.byte_of_opcode hop
  have hcaller : i = ⟨0x93000001⟩ ∧ caller.registerCount.toNat = 2 := by
    have hmem : caller ∈ Assembly.loopProgram.functions := Array.mem_of_getElem? hi.function_eq
    have hword : i ∈ caller.code := Array.mem_of_getElem? hi.instruction_eq
    simp only [Assembly.loopProgram, List.mem_toArray, List.mem_cons, List.not_mem_nil, or_false]
      at hmem
    obtain rfl | rfl := hmem
    · simp only [List.mem_toArray, List.mem_cons, List.not_mem_nil, or_false] at hword
      obtain rfl | rfl | rfl | rfl := hword
      · exact absurd hbyte (by decide)
      · exact absurd hbyte (by decide)
      · exact ⟨rfl, rfl⟩
      · exact absurd hbyte (by decide)
    · simp only [List.mem_toArray, List.mem_cons, List.not_mem_nil, or_false] at hword
      obtain rfl | rfl := hword
      · exact absurd hbyte (by decide)
      · exact absurd hbyte (by decide)
  obtain ⟨rfl, hcount⟩ := hcaller
  have hfirst : (Instruction.fields ⟨0x93000001⟩ Opcode.call.layout).rc.toNat = 1 := rfl
  omega

theorem assembled_windows_cover_loop :
    Assembly.assemble Assembly.loopSource "loop" = .ok Assembly.loopProgram ∧
    ∀ n, Agrees Assembly.loopProgram
      (runFor Assembly.loopProgram n
        ((Machine.new .unbounded Limits.default).start Assembly.loopProgram
          Assembly.loopProgram.entry))
      (FileMachine.run Assembly.loopProgram n (.ofMachine
        ((Machine.new .unbounded Limits.default).start Assembly.loopProgram
          Assembly.loopProgram.entry))) := by
  refine ⟨Assembly.assemble_loop, fun n => ?_⟩
  have cover := assembled_windows_cover Assembly.assemble_loop .unbounded Limits.default
    Assembly.loopProgram.entry
  exact (cover.2 n fun k _ => argumentsWithin_loop _).1

end Machine

/-! ## A call that does not

The second function of `leakingProgram` has two parameters and returns the second one, after it has
written 42 to `r3`.  The first function calls it twice with arguments from `r2` on, but names no
register above `r2`. -/

namespace Assembly

def leakingSource : String :=
  "LOAD_FUNCTION r0, second\nCALL r1, r0, r2\nCALL r1, r0, r2\nRET r1\n" ++
  ".func second 2\nLOAD_I32 r3, 42\nRET r1"

def leakingMain : Block where
  name := "main"
  paramCount := 0
  localCount := 0
  line := 1
  labels := ∅
  lines := #[
    ⟨1, ⟨"LOAD_FUNCTION", 1⟩, [⟨"r0", 15⟩, ⟨"second", 19⟩]⟩,
    ⟨2, ⟨"CALL", 1⟩, [⟨"r1", 6⟩, ⟨"r0", 10⟩, ⟨"r2", 14⟩]⟩,
    ⟨3, ⟨"CALL", 1⟩, [⟨"r1", 6⟩, ⟨"r0", 10⟩, ⟨"r2", 14⟩]⟩,
    ⟨4, ⟨"RET", 1⟩, [⟨"r1", 5⟩]⟩]

def leakingSecond : Block where
  name := "second"
  paramCount := 2
  localCount := 0
  line := 5
  labels := ∅
  lines := #[
    ⟨6, ⟨"LOAD_I32", 1⟩, [⟨"r3", 10⟩, ⟨"42", 14⟩]⟩,
    ⟨7, ⟨"RET", 1⟩, [⟨"r1", 5⟩]⟩]

def leakingCaller : Function :=
  ⟨"main", ⟨"leak", 1⟩, 0, 0, 3, #[⟨0x08000001⟩, ⟨0x93010002⟩, ⟨0x93010002⟩, ⟨0x94000001⟩]⟩

def leakingCallee : Function :=
  ⟨"second", ⟨"leak", 5⟩, 2, 0, 4, #[⟨0x0203002a⟩, ⟨0x94000001⟩]⟩

/-- What `leakingSource` is assembled to. -/
def leakingProgram : Program :=
  { Program.empty with functions := #[leakingCaller, leakingCallee] }

theorem outline_leaking :
    Outline.ofSource leakingSource = .ok ⟨#[leakingMain], leakingSecond, false, 0, none⟩ := by
  have hlines : Text.lines leakingSource = ["LOAD_FUNCTION r0, second".toList,
      "CALL r1, r0, r2".toList, "CALL r1, r0, r2".toList, "RET r1".toList,
      ".func second 2".toList, "LOAD_I32 r3, 42".toList, "RET r1".toList] := by
    decide +kernel
  rw [Outline.ofSource, hlines]
  rfl

theorem nameBlocks_leaking : nameBlocks ∅ 0 [leakingMain, leakingSecond]
    = .ok (((∅ : Std.HashMap String UInt16).insert "main" 0).insert "second" 1) := by
  simp [nameBlocks, maxTableLength, leakingMain, leakingSecond]

theorem compileBlock_leakingMain {names : Std.HashMap String UInt16}
    (h : names["second"]? = some 1) :
    compileBlock "leak" names Program.empty leakingMain
      = .ok (leakingCaller, Program.empty) := by
  have hfunc : operand ⟨names, leakingMain.labels⟩ Program.empty .func "second"
      = .ok (1, Program.empty) := by
    rw [operand, h]
    rfl
  refine bind_eq_ok.mpr ⟨⟨Program.empty, { FunctionBuilder.new "main" ⟨"leak", 1⟩ with
      code := leakingCaller.code }, 3⟩, ?_, ?_⟩
  · rw [← Array.foldlM_toList]
    refine bind_eq_ok.mpr ⟨_, Draft.addLine_of_ok rfl rfl
      (Draft.operands_cons_of_ok rfl (Draft.operands_cons_of_ok hfunc rfl)) rfl, ?_⟩
    refine bind_eq_ok.mpr ⟨_, rfl, ?_⟩
    refine bind_eq_ok.mpr ⟨_, rfl, ?_⟩
    exact bind_eq_ok.mpr ⟨_, rfl, rfl⟩
  · exact bind_eq_ok.mpr ⟨_, rfl, rfl⟩

theorem compileBlock_leakingSecond (names : Std.HashMap String UInt16) (p : Program) :
    compileBlock "leak" names p leakingSecond = .ok (leakingCallee, p) := by
  refine bind_eq_ok.mpr ⟨⟨p, { FunctionBuilder.new "second" ⟨"leak", 5⟩ with
      paramCount := 2
      code := leakingCallee.code }, 4⟩, ?_, ?_⟩
  · rw [← Array.foldlM_toList]
    refine bind_eq_ok.mpr ⟨_, rfl, ?_⟩
    exact bind_eq_ok.mpr ⟨_, rfl, rfl⟩
  · exact bind_eq_ok.mpr ⟨_, rfl, rfl⟩

theorem assemble_leaking : assemble leakingSource "leak" = .ok leakingProgram := by
  have hsecond : (((∅ : Std.HashMap String UInt16).insert "main" 0).insert "second" 1)["second"]?
      = some 1 := Std.HashMap.getElem?_insert_self
  have hmain := compileBlock_leakingMain hsecond
  refine bind_eq_ok.mpr ⟨_, outline_leaking, ?_⟩
  refine bind_eq_ok.mpr ⟨_, nameBlocks_leaking, ?_⟩
  refine bind_eq_ok.mpr ⟨leakingProgram, ?_, ?_⟩
  · rw [← Array.foldlM_toList]
    refine bind_eq_ok.mpr ⟨_, bind_eq_ok.mpr ⟨_, hmain, rfl⟩, ?_⟩
    exact bind_eq_ok.mpr ⟨_, bind_eq_ok.mpr ⟨_, compileBlock_leakingSecond _ _, rfl⟩, rfl⟩
  · refine bind_eq_ok.mpr ⟨0, ?_, rfl⟩
    simp [entryIndex, implicitName, Std.HashMap.getD_insert]

end Assembly

namespace Machine

/-- The first call of `leakingProgram` uses `r3`, which is not in the window of three registers, and
the second one finds there what the callee of the first has left: the run returns 42, and with a
register file for each call it would return 0. -/
theorem arguments_beyond_window :
    let start := (Machine.new .unbounded Limits.default).start Assembly.leakingProgram
      Assembly.leakingProgram.entry
    Assembly.assemble Assembly.leakingSource "leak" = .ok Assembly.leakingProgram ∧
    (∃ f i, (runFor Assembly.leakingProgram 1 start).Fetches Assembly.leakingProgram f i ∧
      (runFor Assembly.leakingProgram 1 start).Uses Assembly.leakingProgram f i 3 ∧
      f.registerCount.toNat = 3) ∧
    (runFor Assembly.leakingProgram 8 start).returned = some (.i32 42) ∧
    (FileMachine.run Assembly.leakingProgram 8 (.ofMachine start)).returned
      = some (.i32 0) := by
  intro start
  have atCall : (runFor Assembly.leakingProgram 1 start).status = .running ∧
      (runFor Assembly.leakingProgram 1 start).function = 0 ∧
      (runFor Assembly.leakingProgram 1 start).pc = 1 ∧
      (runFor Assembly.leakingProgram 1 start).registers.read 0 = .function (.compiled 1) ∧
      ((runFor Assembly.leakingProgram 1 start).step Assembly.leakingProgram).1
        = .running := by
    decide +kernel
  obtain ⟨running, function, pc, compiled, succeeds⟩ := atCall
  have hi : (runFor Assembly.leakingProgram 1 start).Fetches Assembly.leakingProgram
      Assembly.leakingCaller ⟨0x93010002⟩ := by
    refine ⟨?_, ?_⟩
    · rw [function]; rfl
    · rw [pc]; rfl
  refine ⟨Assembly.assemble_leaking, ⟨_, _, hi, ?_, rfl⟩, by decide +kernel, by decide +kernel⟩
  have call : (runFor Assembly.leakingProgram 1 start).CallsCompiled Assembly.leakingProgram
      Assembly.leakingCaller (Instruction.fields ⟨0x93010002⟩ Opcode.call.layout) 1 := by
    refine ⟨running, ⟨_, hi, Instruction.opcode_of_byte rfl, rfl⟩, compiled, ?_⟩
    intro fault h
    cases succeeds.symm.trans h
  exact .argument (k := 1) call rfl (by decide)

end Machine

end RegisterMachine
