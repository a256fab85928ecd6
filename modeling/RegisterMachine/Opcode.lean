/-!
# Opcodes

The instruction set: 86 opcodes, each with its byte, its mnemonic, the layout of its word and its
operands in the order in which they are written.

| layout  | field a  | field b  | field c |
|---------|----------|----------|---------|
| `one`   | 7..0     |          |         |
| `two`   | 23..16   | 15..0    |         |
| `three` | 23..16   | 15..8    | 7..0    |

The numeric opcodes come in blocks of eight bytes, one block for each number type.
-/

namespace RegisterMachine

/-- Arrangement of the 24 operand bits of a word. -/
inductive Layout where
  | one
  | two
  | three
deriving DecidableEq, Repr

inductive Field where
  | a
  | b
  | c
deriving DecidableEq, Repr

inductive NumType where
  | i32
  | i64
  | f32
  | f64
deriving DecidableEq, Repr

/-- Operations with two numbers and a number as result. -/
inductive Arith where
  | add
  | sub
  | mult
  | pow
  | div
deriving DecidableEq, Repr

/-- Operations with two numbers and a truth value as result. -/
inductive Comparison where
  | lt
  | le
  | gt
  | ge
  | eq
  | neq
deriving DecidableEq, Repr

/-- Conversions between number types. -/
inductive Conversion where
  | i32ToI64
  | i64ToI32
  | i32ToF64
  | f64ToI32
  | i64ToF64
  | f64ToI64
  | f32ToF64
  | f64ToF32
deriving DecidableEq, Repr

/-- Operations with two truth values. -/
inductive Connective where
  | and
  | or
  | eq
  | neq
deriving DecidableEq, Repr

/-- How an operand is written and what its field means. -/
inductive OperandKind where
  /-- A register `rN`. -/
  | reg
  /-- `true` or `false`. -/
  | bool
  /-- A signed 16-bit number, stored in two's complement. -/
  | simm16
  /-- An index into the constant table of a number type. -/
  | const (type : NumType)
  /-- An index into the string table. -/
  | str
  /-- An index of a function of the program. -/
  | func
  /-- A global slot. -/
  | global
  /-- An instruction index in the same function. -/
  | label
deriving DecidableEq, Repr

/-- One operand: its name, its kind and the field that holds it. -/
structure Operand where
  name : String
  kind : OperandKind
  field : Field
deriving DecidableEq, Repr

inductive Opcode where
  | loadBool
  | loadI32
  | loadI64
  | loadConst (type : NumType)
  | loadFunction
  | loadNative
  | loadGlobal
  | storeGlobal
  | move
  | convert (conversion : Conversion)
  | arith (op : Arith) (type : NumType)
  | neg (type : NumType)
  | compare (op : Comparison) (type : NumType)
  | not
  | connect (op : Connective)
  | newArray
  | arrayGet
  | arraySet
  | arrayLen
  | refInc
  | refDec
  | destroy
  | free
  | jump
  | jumpIf
  | jumpIfNot
  | call
  | ret
deriving DecidableEq, Repr

namespace Layout

def name : Layout → String
  | one => "One"
  | two => "Two"
  | three => "Three"

/-- Width in bits of a field, or `none` if the layout has no such field. -/
def width? : Layout → Field → Option Nat
  | one, .a => some 8
  | one, _ => none
  | two, .a => some 8
  | two, .b => some 16
  | two, .c => none
  | three, _ => some 8

/-- The largest value of a field, or `none` if the layout has no such field. -/
def fieldMax? (layout : Layout) (field : Field) : Option UInt32 :=
  (layout.width? field).map fun width => UInt32.ofNat (Nat.pow 2 width - 1)

/-- Position of the lowest bit of a field. -/
def shift : Layout → Field → UInt32
  | two, .a | three, .a => 16
  | three, .b => 8
  | _, _ => 0

end Layout

def Field.name : Field → String
  | a => "A"
  | b => "B"
  | c => "C"

namespace NumType

def all : List NumType := [i32, i64, f32, f64]

def name : NumType → String
  | i32 => "I32"
  | i64 => "I64"
  | f32 => "F32"
  | f64 => "F64"

/-- First byte of the type's block within a group of numeric opcodes. -/
def block : NumType → UInt8
  | i32 => 0x00
  | i64 => 0x08
  | f32 => 0x10
  | f64 => 0x18

end NumType

namespace Arith

def all : List Arith := [add, sub, mult, pow, div]

def name : Arith → String
  | add => "ADD"
  | sub => "SUB"
  | mult => "MULT"
  | pow => "POW"
  | div => "DIV"

/-- Place of the operation in its block. -/
def place : Arith → UInt8
  | add => 0
  | sub => 1
  | mult => 2
  | pow => 3
  | div => 4

end Arith

namespace Comparison

def all : List Comparison := [lt, le, gt, ge, eq, neq]

def name : Comparison → String
  | lt => "LT"
  | le => "LE"
  | gt => "GT"
  | ge => "GE"
  | eq => "EQ"
  | neq => "NEQ"

/-- Place of the operation in its block. -/
def place : Comparison → UInt8
  | lt => 0
  | le => 1
  | gt => 2
  | ge => 3
  | eq => 4
  | neq => 5

end Comparison

namespace Conversion

def all : List Conversion :=
  [i32ToI64, i64ToI32, i32ToF64, f64ToI32, i64ToF64, f64ToI64, f32ToF64, f64ToF32]

def byte : Conversion → UInt8
  | i32ToI64 => 0x11
  | i64ToI32 => 0x12
  | i32ToF64 => 0x13
  | f64ToI32 => 0x14
  | i64ToF64 => 0x15
  | f64ToI64 => 0x16
  | f32ToF64 => 0x17
  | f64ToF32 => 0x18

def mnemonic : Conversion → String
  | i32ToI64 => "I32_TO_I64"
  | i64ToI32 => "I64_TO_I32"
  | i32ToF64 => "I32_TO_F64"
  | f64ToI32 => "F64_TO_I32"
  | i64ToF64 => "I64_TO_F64"
  | f64ToI64 => "F64_TO_I64"
  | f32ToF64 => "F32_TO_F64"
  | f64ToF32 => "F64_TO_F32"

end Conversion

namespace Connective

def all : List Connective := [and, or, eq, neq]

def byte : Connective → UInt8
  | and => 0x61
  | or => 0x62
  | eq => 0x63
  | neq => 0x64

def mnemonic : Connective → String
  | and => "AND"
  | or => "OR"
  | eq => "EQ_BOOL"
  | neq => "NEQ_BOOL"

end Connective

namespace Opcode

/-- Every opcode, by ascending byte. -/
def all : List Opcode :=
  [loadBool, loadI32, loadI64] ++ NumType.all.map loadConst ++
  [loadFunction, loadNative, loadGlobal, storeGlobal, move] ++
  Conversion.all.map convert ++
  NumType.all.flatMap (fun type => Arith.all.map (arith · type) ++ [neg type]) ++
  NumType.all.flatMap (fun type => Comparison.all.map (compare · type)) ++
  [not] ++ Connective.all.map connect ++
  [newArray, arrayGet, arraySet, arrayLen, refInc, refDec, destroy, free,
    jump, jumpIf, jumpIfNot, call, ret]

def byte : Opcode → UInt8
  | loadBool => 0x01
  | loadI32 => 0x02
  | loadI64 => 0x03
  | loadConst .i32 => 0x04
  | loadConst .i64 => 0x05
  | loadConst .f32 => 0x06
  | loadConst .f64 => 0x07
  | loadFunction => 0x08
  | loadNative => 0x09
  | loadGlobal => 0x0a
  | storeGlobal => 0x0b
  | move => 0x10
  | convert conversion => conversion.byte
  | arith op type => 0x20 + type.block + op.place
  | neg type => 0x25 + type.block
  | compare op type => 0x40 + type.block + op.place
  | not => 0x60
  | connect op => op.byte
  | newArray => 0x70
  | arrayGet => 0x71
  | arraySet => 0x72
  | arrayLen => 0x73
  | refInc => 0x80
  | refDec => 0x81
  | destroy => 0x82
  | free => 0x83
  | jump => 0x90
  | jumpIf => 0x91
  | jumpIfNot => 0x92
  | call => 0x93
  | ret => 0x94

def mnemonic : Opcode → String
  | loadBool => "LOAD_BOOL"
  | loadI32 => "LOAD_I32"
  | loadI64 => "LOAD_I64"
  | loadConst type => "LOAD_CONST_" ++ type.name
  | loadFunction => "LOAD_FUNCTION"
  | loadNative => "LOAD_NATIVE"
  | loadGlobal => "LOAD_GLOBAL"
  | storeGlobal => "STORE_GLOBAL"
  | move => "MOVE"
  | convert conversion => conversion.mnemonic
  | arith op type => op.name ++ "_" ++ type.name
  | neg type => "NEG_" ++ type.name
  | compare op type => op.name ++ "_" ++ type.name
  | not => "NOT"
  | connect op => op.mnemonic
  | newArray => "NEW_ARRAY"
  | arrayGet => "ARRAY_GET"
  | arraySet => "ARRAY_SET"
  | arrayLen => "ARRAY_LEN"
  | refInc => "REF_INC"
  | refDec => "REF_DEC"
  | destroy => "DESTROY"
  | free => "FREE"
  | jump => "JUMP"
  | jumpIf => "JUMP_IF"
  | jumpIfNot => "JUMP_IF_NOT"
  | call => "CALL"
  | ret => "RET"

def layout : Opcode → Layout
  | loadBool | loadI32 | loadI64 | loadConst _ | loadFunction | loadNative | loadGlobal
  | storeGlobal | jump | jumpIf | jumpIfNot => .two
  | refInc | refDec | destroy | free | ret => .one
  | move | convert _ | arith .. | neg _ | compare .. | not | connect _ | newArray | arrayGet
  | arraySet | arrayLen | call => .three

/-- The operands in the order in which they are written. -/
def operands : Opcode → List Operand
  | loadBool => [⟨"rd", .reg, .a⟩, ⟨"value", .bool, .b⟩]
  | loadI32 | loadI64 => [⟨"rd", .reg, .a⟩, ⟨"imm", .simm16, .b⟩]
  | loadConst type => [⟨"rd", .reg, .a⟩, ⟨"constant", .const type, .b⟩]
  | loadFunction => [⟨"rd", .reg, .a⟩, ⟨"function", .func, .b⟩]
  | loadNative => [⟨"rd", .reg, .a⟩, ⟨"name", .str, .b⟩]
  | loadGlobal => [⟨"rd", .reg, .a⟩, ⟨"slot", .global, .b⟩]
  | storeGlobal => [⟨"rs", .reg, .a⟩, ⟨"slot", .global, .b⟩]
  | move | convert _ | neg _ | not => [⟨"rd", .reg, .a⟩, ⟨"rs", .reg, .b⟩]
  | arith .. | compare .. | connect _ =>
    [⟨"rd", .reg, .a⟩, ⟨"rs1", .reg, .b⟩, ⟨"rs2", .reg, .c⟩]
  | newArray => [⟨"rd", .reg, .a⟩, ⟨"len", .reg, .b⟩, ⟨"fill", .reg, .c⟩]
  | arrayGet => [⟨"rd", .reg, .a⟩, ⟨"array", .reg, .b⟩, ⟨"index", .reg, .c⟩]
  | arraySet => [⟨"array", .reg, .a⟩, ⟨"index", .reg, .b⟩, ⟨"rs", .reg, .c⟩]
  | arrayLen => [⟨"rd", .reg, .a⟩, ⟨"array", .reg, .b⟩]
  | refInc | refDec | destroy | free => [⟨"array", .reg, .a⟩]
  | jump => [⟨"target", .label, .b⟩]
  | jumpIf | jumpIfNot => [⟨"cond", .reg, .a⟩, ⟨"target", .label, .b⟩]
  | call => [⟨"rd", .reg, .a⟩, ⟨"callee", .reg, .b⟩, ⟨"args", .reg, .c⟩]
  | ret => [⟨"rs", .reg, .a⟩]

/-- For each byte the opcode that it stands for. -/
def byByte : Vector (Option Opcode) 256 :=
  Vector.ofFn fun i => all.find? fun op => op.byte.toNat == i.val

def ofByte? (b : UInt8) : Option Opcode := byByte.get b.toFin

/-- Every mnemonic with its opcode. -/
def byMnemonic : List (String × Opcode) := all.map fun op => (op.mnemonic, op)

def ofMnemonic? (name : String) : Option Opcode := byMnemonic.lookup name

end Opcode

end RegisterMachine
