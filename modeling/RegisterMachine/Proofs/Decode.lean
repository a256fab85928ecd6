import Mathlib
import RegisterMachine.Instruction

/-!
# Opcode bytes

The table of opcodes by byte is the search through the list of all opcodes, and every opcode is
found at its own byte.
-/

namespace RegisterMachine

theorem Opcode.ofByte?_eq_find? (b : UInt8) :
    Opcode.ofByte? b = Opcode.all.find? fun op => op.byte.toNat == b.toNat := by
  rw [Opcode.ofByte?, Opcode.byByte, Vector.get_ofFn]
  rfl

/-- Every opcode is the one that its byte stands for. -/
theorem Opcode.ofByte?_byte (op : Opcode) : Opcode.ofByte? op.byte = some op := by
  rw [Opcode.ofByte?_eq_find?]
  cases op with
  | loadConst type => cases type <;> rfl
  | convert conversion => cases conversion <;> rfl
  | arith op type => cases op <;> cases type <;> rfl
  | neg type => cases type <;> rfl
  | compare op type => cases op <;> cases type <;> rfl
  | connect op => cases op <;> rfl
  | _ => rfl

theorem Opcode.mem_all (op : Opcode) : op ∈ Opcode.all :=
  List.mem_of_find?_eq_some (Opcode.ofByte?_eq_find? op.byte ▸ Opcode.ofByte?_byte op)

/-- A word whose top byte is that of an opcode has that opcode. -/
theorem Instruction.opcode_of_byte {i : Instruction} {op : Opcode}
    (h : i.opcodeByte = op.byte) : i.opcode = .ok op := by
  have hb : Opcode.ofByte? i.opcodeByte = some op := by
    rw [h]
    exact Opcode.ofByte?_byte op
  unfold Instruction.opcode
  rw [hb]

/-- The opcode of a word has the word's top byte. -/
theorem Instruction.byte_of_opcode {i : Instruction} {op : Opcode} (h : i.opcode = .ok op) :
    i.opcodeByte = op.byte := by
  unfold Instruction.opcode at h
  cases hb : Opcode.ofByte? i.opcodeByte with
  | none => rw [hb] at h; cases h
  | some op' =>
      rw [hb] at h
      cases h
      rw [Opcode.ofByte?_eq_find?] at hb
      have hbyte := List.find?_some hb
      exact (UInt8.toNat_inj.mp (eq_of_beq hbyte)).symm

end RegisterMachine
