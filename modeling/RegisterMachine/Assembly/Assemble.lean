import RegisterMachine.Assembly.Outline
import RegisterMachine.Function.Builder
import RegisterMachine.Program.Basic

/-!
# Assembly

The second pass turns the blocks of an outline into functions: it reads operands, adds constants
to the tables, resolves names and packs the instruction words.  What each operand looks like
follows from the opcode's operand kinds.

A failure is shown to the author of a source text with its place, and the line with a mark under
the token.
-/

namespace RegisterMachine.Assembly

/-- Names that operands of a function may refer to. -/
structure Scope where
  functions : Std.HashMap String UInt16
  labels : Std.HashMap String Nat

def register (token : String) : Except Error UInt8 :=
  match token.toList with
  | 'r' :: digits =>
    match Text.uint8? (String.ofList digits) with
    | some register => .ok register
    | none => .error (.invalidOperand "register" token)
  | _ => .error (.expectedRegister token)

def truthValue (token : String) : Except Error Bool :=
  match token with
  | "true" => .ok true
  | "false" => .ok false
  | _ => .error (.invalidOperand "bool" token)

def quotedText (token : String) : Except Error String :=
  match token.toList with
  | '"' :: rest =>
    match rest.reverse with
    | '"' :: inner => .ok (String.ofList inner.reverse)
    | _ => .error (.invalidOperand "string" token)
  | _ => .error (.invalidOperand "string" token)

/-- Reads a global slot; the letter in front may be missing. -/
def globalSlot (token : String) : Except Error UInt16 :=
  match token.toList with
  | 'g' :: digits => number Text.uint16? "global slot" (String.ofList digits)
  | _ => number Text.uint16? "global slot" token

/-- Resolves a jump target: an instruction index, or else a label. -/
def jumpTarget (labels : Std.HashMap String Nat) (token : String) : Except Error UInt32 :=
  match Text.uint32? token with
  | some pc => .ok pc
  | none =>
    match labels[token]? with
    | none => .error (.undefinedLabel token)
    | some pc =>
      if pc < UInt32.size then .ok (UInt32.ofNat pc)
      else .error (.invalidOperand "jump target" token)

/-- Adds a constant; gives the value of the field that names it and the program with it. -/
def addConstant {α : Type} [DecidableEq α] [Hashable α] [Program.Pooled α] (program : Program)
    (value : α) : Except Error (UInt32 × Program) :=
  (Attempt.toExcept (program.addConstant value)).map fun (index, program) =>
    (index.toUInt32, program)

/-- Reads an operand; gives the value of its field and the program with the constants so far. -/
def operand (scope : Scope) (program : Program) (kind : OperandKind) (token : String) :
    Except Error (UInt32 × Program) :=
  match kind with
  | .reg => do return ((← register token).toUInt32, program)
  | .bool => do return (if ← truthValue token then 1 else 0, program)
  | .simm16 => do
    return ((← number Text.int16? "16-bit immediate" token).toUInt16.toUInt32, program)
  | .global => do return ((← globalSlot token).toUInt32, program)
  | .const .i32 => do addConstant program (← number Text.int32? "i32 literal" token)
  | .const .i64 => do addConstant program (← number Text.int64? "i64 literal" token)
  | .const .f32 => do addConstant program (← number Binary32.ofText? "f32 literal" token)
  | .const .f64 => do addConstant program (← number Binary64.ofText? "f64 literal" token)
  | .str => do addConstant program (← quotedText token)
  | .func =>
    match scope.functions[token]? with
    | some index => .ok (index.toUInt32, program)
    | none => .error (.undefinedFunction token)
  | .label => do return (← jumpTarget scope.labels token, program)

/-- A function in the making, with the program that its constants go to. -/
structure Draft where
  program : Program
  builder : FunctionBuilder
  /-- One more than the highest register that was named, or zero. -/
  registers : Nat

namespace Draft

/-- Reads the operands of a line; gives their values, and the draft with constants and registers
noted. -/
def operands (scope : Scope) (line : Nat) :
    Draft → List (Operand × Token) → Except Error (List UInt32 × Draft)
  | draft, [] => .ok ([], draft)
  | ⟨program, builder, registers⟩, (spec, token) :: rest => do
    let (value, program) ← atToken line token (operand scope program spec.kind token.text)
    let registers := if spec.kind = .reg then max registers (value.toNat + 1) else registers
    let (values, draft) ← operands scope line ⟨program, builder, registers⟩ rest
    return (value :: values, draft)

def emit (draft : Draft) (line : Nat) (mnemonic : Token) (op : Opcode) (values : List UInt32) :
    Except Error Draft :=
  match draft with
  | ⟨program, builder, registers⟩ =>
    match builder.emit op values with
    | (.ok _, builder) => .ok ⟨program, builder, registers⟩
    | (.error error, _) => .error (located line mnemonic error)

def addLine (scope : Scope) (draft : Draft) (source : SourceLine) : Except Error Draft := do
  let line := source.number
  let mnemonic := source.mnemonic
  match Opcode.ofMnemonic? mnemonic.text with
  | none => throw (located line mnemonic (.unknownMnemonic mnemonic.text))
  | some op =>
    let expected := op.operands.length
    let actual := source.operands.length
    if expected ≠ actual then
      throw (located line mnemonic (.operandCount mnemonic.text expected actual))
    let (values, draft) ← draft.operands scope line (op.operands.zip source.operands)
    draft.emit line mnemonic op values

end Draft

def takeRegisters : Nat → FunctionBuilder → Except Error FunctionBuilder
  | 0, builder => .ok builder
  | n + 1, builder => do
    let (_, builder) ← Attempt.toExcept builder.allocateRegister
    takeRegisters n builder

/-- Takes and gives back `n` registers, so that the function's window holds them. -/
def reserveRegisters (n : Nat) (builder : FunctionBuilder) : Except Error FunctionBuilder := do
  let builder ← takeRegisters n builder
  return (← Attempt.toExcept (builder.freeRegisters builder.registers.live)).2

/-- Turns a block into a function; gives the program with the block's constants too. -/
def compileBlock (file : String) (functions : Std.HashMap String UInt16) (program : Program)
    (block : Block) : Except Error (Function × Program) := do
  let builder := { FunctionBuilder.new block.name ⟨file, UInt32.ofNat block.line⟩ with
    paramCount := block.paramCount
    localCount := block.localCount }
  let draft ← block.lines.foldlM (Draft.addLine ⟨functions, block.labels⟩) ⟨program, builder, 0⟩
  let builder ← reserveRegisters draft.registers draft.builder
  return (builder.finalize, draft.program)

def addBlock (file : String) (functions : Std.HashMap String UInt16) (program : Program)
    (block : Block) : Except Error Program := do
  let (function, program) ← compileBlock file functions program block
  return (← Attempt.toExcept (program.addFunction function)).2

/-- Gives each function name its index.  `names` holds those of the blocks before the `index`-th. -/
def nameBlocks (names : Std.HashMap String UInt16) (index : Nat) :
    List Block → Except Error (Std.HashMap String UInt16)
  | [] => .ok names
  | block :: rest =>
    if maxTableLength ≤ index then .error (.assembly block.line 1 "too many functions")
    else if names.contains block.name then
      .error (.assembly block.line 1 (Error.duplicateFunction block.name).message)
    else nameBlocks (names.insert block.name (UInt16.ofNat index)) (index + 1) rest

/-- The index of the function that a run starts in: the named one, or `main`, or the first. -/
def entryIndex (names : Std.HashMap String UInt16) : Option EntryName → Except Error UInt16
  | some entry =>
    match names[entry.name]? with
    | some index => .ok index
    | none =>
      .error (.assembly entry.line entry.offset (Error.undefinedFunction entry.name).message)
  | none => .ok (names.getD implicitName 0)

/-- Assembles a source text; `file` is the name that the functions carry. -/
def assemble (source : String) (file : String) : Except Error Program := do
  let outline ← Outline.ofSource source
  let blocks := outline.blocks
  let names ← nameBlocks ∅ 0 blocks.toList
  let program ← blocks.foldlM (addBlock file names)
    { Program.empty with globalCount := outline.globalCount }
  let entry ← entryIndex names outline.entry
  return { program with entry }

def anonymousFile : String := "<source>"

/-! ## Diagnostics -/

def dropReturns (line : List Char) : List Char :=
  (line.reverse.dropWhile (· == '\r')).reverse

/-- The line of a place and the mark under it. -/
def excerpt (source : String) (line offset : Nat) : String :=
  match (Text.lines source)[line - 1]? with
  | none => ""
  | some cs =>
    "  |\n" ++ Text.padLeft 4 ' ' (toString line) ++ " | " ++ String.ofList (dropReturns cs) ++
      "\n  | " ++ "".pushn ' ' (offset - 1) ++ "^\n"

/-- A failure shown against its source text. -/
def diagnostic (file source : String) (error : Error) : String :=
  match error.position? with
  | none => "error: " ++ error.message ++ "\n"
  | some (line, offset, message) =>
    s!"error: {message}\n --> {file}:{line}:{offset}\n" ++ excerpt source line offset

end RegisterMachine.Assembly
