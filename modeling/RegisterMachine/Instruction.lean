import RegisterMachine.Error
import RegisterMachine.Opcode

/-!
# Instruction words

One instruction is a 32-bit word: the opcode in the top byte and the operand fields of the opcode's
layout below.  Packing checks that every field holds its value; unpacking is total, so that any word
has some fields.
-/

namespace RegisterMachine

/-- One instruction, as its word. -/
structure Instruction where
  word : UInt32
deriving DecidableEq, Repr, Inhabited

/-- Values of the three operand fields; a field that a layout lacks is zero. -/
structure Fields where
  a : UInt32 := 0
  b : UInt32 := 0
  c : UInt32 := 0
deriving DecidableEq, Repr

namespace Fields

def get (fields : Fields) : Field → UInt32
  | .a => fields.a
  | .b => fields.b
  | .c => fields.c

def set (fields : Fields) (value : UInt32) : Field → Fields
  | .a => { fields with a := value }
  | .b => { fields with b := value }
  | .c => { fields with c := value }

/-- Field `a` as a register. -/
def ra (fields : Fields) : UInt8 := fields.a.toUInt8

def rb (fields : Fields) : UInt8 := fields.b.toUInt8

def rc (fields : Fields) : UInt8 := fields.c.toUInt8

/-- Field `b` as an index. -/
def imm (fields : Fields) : UInt16 := fields.b.toUInt16

/-- Field `b` as a signed number. -/
def simm (fields : Fields) : Int16 := fields.b.toUInt16.toInt16

end Fields

namespace Instruction

/-- Adds the value of one field to a word. -/
def place (op : Opcode) (fields : Fields) (word : UInt32) (field : Field) :
    Except Error UInt32 :=
  let value := fields.get field
  match op.layout.fieldMax? field with
  | some limit =>
    if value ≤ limit then .ok (word ||| value <<< op.layout.shift field)
    else
      let slot := field.name
      .error (.encoding op.mnemonic s!"operand {value} in field {slot} exceeds {limit}")
  | none =>
    if value = 0 then .ok word
    else .error (.encoding op.mnemonic (op.layout.name ++ " layout has no field " ++ field.name))

/-- The word of an opcode with given fields. -/
def pack (op : Opcode) (fields : Fields) : Except Error Instruction :=
  ([Field.a, .b, .c].foldlM (place op fields) (op.byte.toUInt32 <<< 24)).map Instruction.mk

/-- The word of an opcode that is expected to have a given layout. -/
def packAs (layout : Layout) (op : Opcode) (fields : Fields) : Except Error Instruction :=
  if op.layout = layout then pack op fields
  else
    .error (.encoding op.mnemonic
      ("uses the " ++ op.layout.name ++ " layout, not " ++ layout.name))

/-- The word of an opcode with operand values in the order in which they are written. -/
def ofOperands (op : Opcode) (values : List UInt32) : Except Error Instruction :=
  let expected := op.operands.length
  let actual := values.length
  if expected = actual then
    pack op ((op.operands.zip values).foldl
      (fun fields (operand, value) => fields.set value operand.field) {})
  else .error (.encoding op.mnemonic s!"expected {expected} operands, got {actual}")

/-- The top byte, whether or not it stands for an opcode. -/
def opcodeByte (i : Instruction) : UInt8 := (i.word >>> 24).toUInt8

def opcode (i : Instruction) : Except Error Opcode :=
  match Opcode.ofByte? i.opcodeByte with
  | some op => .ok op
  | none => .error (.unknownOpcode i.opcodeByte)

/-- The operand fields of a word in a given layout. -/
def fields (i : Instruction) : Layout → Fields
  | .one => { a := i.word &&& 0xff }
  | .two => { a := i.word >>> 16 &&& 0xff, b := i.word &&& 0xffff }
  | .three => { a := i.word >>> 16 &&& 0xff, b := i.word >>> 8 &&& 0xff, c := i.word &&& 0xff }

/-- How an operand of a given kind is shown. -/
def operandText (kind : OperandKind) (value : UInt32) : String :=
  match kind with
  | .reg => s!"r{value}"
  | .bool => if value = 0 then "false" else "true"
  | .simm16 => toString value.toUInt16.toInt16
  | .label => s!"@{value}"
  | .func => s!"fn#{value}"
  | .global => s!"g{value}"
  | .const _ | .str => s!"k{value}"

/-- The text of a word: mnemonic and operands, or the word itself if it has no opcode. -/
def text (i : Instruction) : String :=
  match Opcode.ofByte? i.opcodeByte with
  | none => ".word 0x" ++ Text.hex 8 i.word.toNat
  | some op =>
    let fields := i.fields op.layout
    let operands := op.operands.map fun operand =>
      operandText operand.kind (fields.get operand.field)
    op.mnemonic ++ " " ++ ", ".intercalate operands

end Instruction

end RegisterMachine
