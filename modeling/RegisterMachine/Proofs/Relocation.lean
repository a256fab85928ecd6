import Mathlib
import RegisterMachine.Proofs.Assembly
import RegisterMachine.Proofs.Step

/-!
# Programs under another file name

Functions carry the name of the file that their text came from.  The assembler writes it into them
and looks at it no more; the machine never looks at it.  So a text that is assembled under another
name gives the same program, moved to that name (`assemble_movedTo`), and a moved program runs as
it did, step for step (`runFor_movedTo`).

| | |
| :-- | :-- |
| what is changed | `Program.movedTo`, the file of every function |
| what is kept by the assembler | everything else, and every error |
| what is kept by the machine | the whole state after every step |
-/

namespace RegisterMachine

/-- The same function, with its text in another file. -/
def Function.movedTo (file : String) (f : Function) : Function :=
  { f with location := ⟨file, f.location.line⟩ }

def FunctionBuilder.movedTo (file : String) (builder : FunctionBuilder) : FunctionBuilder :=
  { builder with location := ⟨file, builder.location.line⟩ }

/-- The same program, with its text in another file. -/
def Program.movedTo (file : String) (program : Program) : Program :=
  { program with functions := program.functions.map (Function.movedTo file) }

def Assembly.Draft.movedTo (file : String) (draft : Draft) : Draft :=
  ⟨draft.program.movedTo file, draft.builder.movedTo file, draft.registers⟩

/-! ## Computations that correspond -/

section Except

variable {α α' β β' : Type} {ψ : β → β'}

/-- Computations correspond if their first parts do and they go on alike. -/
theorem bind_map_comm {x : Except Error α} {y : Except Error α'} {φ : α → α'}
    {f : α → Except Error β} {g : α' → Except Error β'} (hxy : y = x.map φ)
    (h : ∀ a, g (φ a) = (f a).map ψ) : y >>= g = (x >>= f).map ψ := by
  subst hxy
  cases x with
  | error error => rfl
  | ok a => exact h a

/-- Computations with the same first part correspond if they go on alike. -/
theorem bind_comm {x : Except Error α} {f : α → Except Error β} {g : α → Except Error β'}
    (h : ∀ a, g a = (f a).map ψ) : x >>= g = (x >>= f).map ψ := by
  cases x with
  | error error => rfl
  | ok a => exact h a

theorem foldlM_map_comm {φ : α → α'} {f : α → β → Except Error α} {g : α' → β → Except Error α'}
    (h : ∀ a b, g (φ a) b = (f a b).map φ) (bs : List β) :
    ∀ a, bs.foldlM g (φ a) = (bs.foldlM f a).map φ := by
  induction bs with
  | nil => intro a; rfl
  | cons b bs ih =>
      intro a
      rw [List.foldlM_cons, List.foldlM_cons]
      exact bind_map_comm (h a b) ih

theorem toExcept_map_comm {σ τ : Type} {φ : σ → τ} {x : Attempt σ α} {y : Attempt τ α}
    (h : y = (x.1, φ x.2)) : Attempt.toExcept y = (Attempt.toExcept x).map (Prod.map id φ) := by
  subst h
  rcases x with ⟨_ | _, _⟩ <;> rfl

end Except

/-! ## Assembling under another name -/

namespace Assembly

variable {file : String} {scope : Scope} {p : Program}

/-- A constant is added alike if its table is not among what is moved. -/
theorem addConstant_movedTo {α : Type} [DecidableEq α] [Hashable α] [Program.Pooled α]
    (htable : ∀ p : Program, (Program.Pooled.table (p.movedTo file) : ConstantTable α)
      = Program.Pooled.table p)
    (hset : ∀ (p : Program) (table : ConstantTable α),
      Program.Pooled.setTable (p.movedTo file) table
        = (Program.Pooled.setTable p table).movedTo file) (value : α) :
    addConstant (p.movedTo file) value
      = (addConstant p value).map (Prod.map id (Program.movedTo file)) := by
  have hadd : (p.movedTo file).addConstant value
      = ((p.addConstant value).1, (p.addConstant value).2.movedTo file) := by
    simp only [Program.addConstant, htable, hset]
  rw [addConstant, addConstant, toExcept_map_comm hadd]
  cases Attempt.toExcept (p.addConstant value) <;> rfl

theorem operand_movedTo (kind : OperandKind) (token : String) :
    operand scope (p.movedTo file) kind token
      = (operand scope p kind token).map (Prod.map id (Program.movedTo file)) := by
  cases kind with
  | reg | bool | simm16 | global | label => exact bind_comm fun _ => rfl
  | const type =>
      cases type <;>
        exact bind_comm fun value => addConstant_movedTo (fun _ => rfl) (fun _ _ => rfl) value
  | str => exact bind_comm fun text => addConstant_movedTo (fun _ => rfl) (fun _ _ => rfl) text
  | func =>
      simp only [operand]
      cases scope.functions[token]? <;> rfl

theorem atToken_map {α β : Type} (line : Nat) (token : Token) (f : α → β) (x : Except Error α) :
    atToken line token (x.map f) = (atToken line token x).map f := by
  cases x <;> rfl

theorem operands_movedTo (line : Nat) (pairs : List (Operand × Token)) :
    ∀ draft : Draft, (draft.movedTo file).operands scope line pairs
      = (draft.operands scope line pairs).map (Prod.map id (Draft.movedTo file)) := by
  induction pairs with
  | nil => intro draft; rfl
  | cons pair rest ih =>
      rintro ⟨program, builder, registers⟩
      obtain ⟨spec, token⟩ := pair
      have hread : atToken line token (operand scope (program.movedTo file) spec.kind token.text)
          = (atToken line token (operand scope program spec.kind token.text)).map
              (Prod.map id (Program.movedTo file)) := by
        rw [operand_movedTo, atToken_map]
      exact bind_map_comm hread fun read => bind_map_comm (ih ⟨read.2, builder, _⟩) fun _ => rfl

theorem emit_movedTo (draft : Draft) (line : Nat) (mnemonic : Token) (op : Opcode)
    (values : List UInt32) :
    (draft.movedTo file).emit line mnemonic op values
      = (draft.emit line mnemonic op values).map (Draft.movedTo file) := by
  rw [Draft.emit, Draft.emit, FunctionBuilder.emit, FunctionBuilder.emit]
  cases Instruction.ofOperands op values <;> rfl

theorem addLine_movedTo (draft : Draft) (source : SourceLine) :
    (draft.movedTo file).addLine scope source
      = (draft.addLine scope source).map (Draft.movedTo file) := by
  rw [Draft.addLine, Draft.addLine]
  cases Opcode.ofMnemonic? source.mnemonic.text with
  | none => rfl
  | some op =>
      by_cases hlength : op.operands.length ≠ source.operands.length
      · simp only [if_pos hlength]
        rfl
      · simp only [if_neg hlength]
        exact bind_map_comm (operands_movedTo _ _ _) fun read => emit_movedTo read.2 _ _ _ _

theorem takeRegisters_movedTo (n : Nat) :
    ∀ builder : FunctionBuilder, takeRegisters n (builder.movedTo file)
      = (takeRegisters n builder).map (FunctionBuilder.movedTo file) := by
  induction n with
  | zero => intro builder; rfl
  | succ n ih =>
      intro builder
      have hallocate : (builder.movedTo file).allocateRegister
          = (builder.allocateRegister.1, builder.allocateRegister.2.movedTo file) := rfl
      exact bind_map_comm (toExcept_map_comm hallocate) fun taken => ih taken.2

theorem reserveRegisters_movedTo (n : Nat) (builder : FunctionBuilder) :
    reserveRegisters n (builder.movedTo file)
      = (reserveRegisters n builder).map (FunctionBuilder.movedTo file) := by
  refine bind_map_comm (takeRegisters_movedTo n builder) fun taken => ?_
  have hfree : (taken.movedTo file).freeRegisters taken.registers.live
      = ((taken.freeRegisters taken.registers.live).1,
          (taken.freeRegisters taken.registers.live).2.movedTo file) := rfl
  exact bind_map_comm (toExcept_map_comm hfree) fun _ => rfl

theorem compileBlock_movedTo (was : String) (names : Std.HashMap String UInt16) (block : Block) :
    compileBlock file names (p.movedTo file) block
      = (compileBlock was names p block).map (Prod.map (Function.movedTo file) (Program.movedTo file)) := by
  have hlines (builder : FunctionBuilder) :
      block.lines.foldlM (Draft.addLine ⟨names, block.labels⟩)
        ⟨p.movedTo file, builder.movedTo file, 0⟩
        = (block.lines.foldlM (Draft.addLine ⟨names, block.labels⟩) ⟨p, builder, 0⟩).map
            (Draft.movedTo file) := by
    rw [← Array.foldlM_toList, ← Array.foldlM_toList]
    exact foldlM_map_comm addLine_movedTo _ ⟨p, builder, 0⟩
  let builder : FunctionBuilder :=
    ⟨block.name, ⟨was, UInt32.ofNat block.line⟩, block.paramCount, block.localCount, #[], .empty⟩
  refine bind_map_comm (hlines builder) fun draft => ?_
  exact bind_map_comm (reserveRegisters_movedTo draft.registers draft.builder) fun _ => rfl

theorem addBlock_movedTo (was : String) (names : Std.HashMap String UInt16) (p : Program)
    (block : Block) :
    addBlock file names (p.movedTo file) block
      = (addBlock was names p block).map (Program.movedTo file) := by
  refine bind_map_comm (compileBlock_movedTo was names block) fun compiled => ?_
  have hadd : (compiled.2.movedTo file).addFunction (compiled.1.movedTo file)
      = ((compiled.2.addFunction compiled.1).1,
          (compiled.2.addFunction compiled.1).2.movedTo file) := by
    simp only [Program.addFunction, Program.movedTo, Array.size_map]
    split <;> simp
  exact bind_map_comm (toExcept_map_comm hadd) fun _ => rfl

/-- Assembling under another name gives the same program, moved, or the same error. -/
theorem assemble_movedTo (source was file : String) :
    assemble source file = (assemble source was).map (Program.movedTo file) := by
  refine bind_comm fun outline => bind_comm fun names => ?_
  have hempty : ({ Program.empty with globalCount := outline.globalCount } : Program).movedTo file
      = { Program.empty with globalCount := outline.globalCount } := by
    simp [Program.movedTo, Program.empty]
  have hblocks : outline.blocks.foldlM (addBlock file names)
        { Program.empty with globalCount := outline.globalCount }
      = (outline.blocks.foldlM (addBlock was names)
          { Program.empty with globalCount := outline.globalCount }).map (Program.movedTo file) := by
    rw [← hempty, ← Array.foldlM_toList, ← Array.foldlM_toList]
    exact (foldlM_map_comm (addBlock_movedTo was names) _ _).trans (by rw [hempty])
  exact bind_map_comm hblocks fun linked => bind_comm fun _ => rfl

end Assembly

/-! ## Running under another name -/

theorem Program.function?_movedTo (p : Program) (file : String) (index : UInt16) :
    (p.movedTo file).function? index = (p.function? index).map (Function.movedTo file) :=
  Array.getElem?_map

namespace Machine

variable {program : Program} {file : String}

theorem functionName_movedTo (m : Machine) :
    m.functionName (program.movedTo file) = m.functionName program := by
  rw [functionName, functionName, Program.function?_movedTo]
  cases program.function? m.function <;> rfl

theorem faultAt_movedTo (m : Machine) (i : Option Instruction) (error : Error) :
    m.faultAt (program.movedTo file) i error = m.faultAt program i error := by
  rw [faultAt, faultAt, functionName_movedTo]

theorem windowSize_movedTo (function : UInt16) :
    windowSize (program.movedTo file) function = windowSize program function := by
  rw [windowSize, windowSize, Program.function?_movedTo]
  cases program.function? function <;> rfl

theorem planCompiled_movedTo (m : Machine) (callee : UInt16) (fields : Fields) :
    m.planCompiled (program.movedTo file) callee fields = m.planCompiled program callee fields := by
  simp only [planCompiled, windowSize_movedTo, Program.function?_movedTo]
  cases program.function? callee <;> rfl

theorem plan_movedTo (m : Machine) (op : Opcode) (fields : Fields) :
    m.plan (program.movedTo file) op fields = m.plan program op fields := by
  cases op with
  | loadConst type => cases type <;> rfl
  | loadFunction =>
      simp only [plan, Program.function?_movedTo]
      cases program.function? fields.imm <;> rfl
  | call => simp only [plan, planCompiled_movedTo]
  | arith op type => cases type <;> rfl
  | neg type => cases type <;> rfl
  | compare op type => cases type <;> rfl
  | _ => rfl

theorem execute_movedTo (m : Machine) (i : Instruction) :
    m.execute (program.movedTo file) i = m.execute program i := by
  simp only [execute, planWord, plan_movedTo, fail, faultAt_movedTo]

/-- A step does not depend on where the program came from. -/
theorem step_movedTo (m : Machine) : m.step (program.movedTo file) = m.step program := by
  rw [step_eq, step_eq, stepByPlan, stepByPlan, Program.function?_movedTo]
  simp only [fail, faultAt_movedTo, execute_movedTo]
  cases program.function? m.function <;> rfl

theorem runFor_movedTo (n : Nat) :
    ∀ m : Machine, runFor (program.movedTo file) n m = runFor program n m := by
  induction n with
  | zero => intro m; rfl
  | succ n ih =>
      intro m
      rw [runFor_succ, runFor_succ, step_movedTo, ih]

theorem start_movedTo (m : Machine) (index : UInt16) :
    m.start (program.movedTo file) index = m.start program index := by
  rw [start, start, Program.function?_movedTo]
  simp only [faultAt_movedTo]
  cases program.function? index with
  | none => simp [Program.movedTo]
  | some f => rfl

end Machine

end RegisterMachine
