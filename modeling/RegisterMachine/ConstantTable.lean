import RegisterMachine.Codec.Basic
import RegisterMachine.Error
import Std.Data.ExtHashMap

/-!
# Constant tables

A table of distinct constants, found by their position.  To add a constant that is there already
gives its position.  Floating-point constants are the same if their bits are.  A table that was
read may hold a constant more than once; its first place counts.
-/

namespace RegisterMachine

/-- Types that have a constant table. -/
class Constant (α : Type) [DecidableEq α] [Hashable α] where
  /-- Name of the table in messages. -/
  tableName : String
  /-- How the constants are written. -/
  codec : Codec α

instance : Constant Int32 where
  tableName := "i32"
  codec := .i32

instance : Constant Int64 where
  tableName := "i64"
  codec := .i64

instance : Constant Binary32 where
  tableName := "f32"
  codec := .f32

instance : Constant Binary64 where
  tableName := "f64"
  codec := .f64

instance : Constant String where
  tableName := "string"
  codec := .string

/-- Number of entries that a 16-bit index reaches. -/
def maxTableLength : Nat := 65536

/-- A constant table: its entries, and for each constant its first place. -/
structure ConstantTable (α : Type) [DecidableEq α] [Hashable α] where
  entries : Array α
  positions : Std.ExtHashMap α UInt16

namespace ConstantTable

variable {α : Type} [DecidableEq α] [Hashable α]

def empty : ConstantTable α := ⟨#[], ∅⟩

instance : Inhabited (ConstantTable α) := ⟨empty⟩

/-- Adds a constant and gives its place. -/
def add [Constant α] (table : ConstantTable α) (value : α) : Attempt (ConstantTable α) UInt16 :=
  match table.positions[value]? with
  | some index => (.ok index, table)
  | none =>
    if maxTableLength ≤ table.entries.size then
      let name := Constant.tableName α
      (.error (.encoding "LOAD_CONST" s!"{name} constant table is full ({maxTableLength} entries)"),
        table)
    else
      let index := UInt16.ofNat table.entries.size
      (.ok index, ⟨table.entries.push value, table.positions.insert value index⟩)

def get? (table : ConstantTable α) (index : UInt16) : Option α := table.entries[index.toNat]?

/-- The entry at a place that an instruction names. -/
def fetch [Constant α] (table : ConstantTable α) (index : UInt16) : Except Error α :=
  match table.get? index with
  | some value => .ok value
  | none => .error (.invalidConstant (Constant.tableName α) index)

/-- For each constant of a list its first place, counted from `start`. -/
def firstPlaces (positions : Std.ExtHashMap α UInt16) (start : Nat) :
    List α → Std.ExtHashMap α UInt16
  | [] => positions
  | value :: rest =>
    firstPlaces (positions.insertIfNew value (UInt16.ofNat start)) (start + 1) rest

def ofEntries (entries : Array α) : ConstantTable α :=
  ⟨entries, firstPlaces ∅ 0 entries.toList⟩

def encode [Constant α] (table : ConstantTable α) : List UInt8 :=
  (Codec.seq (Constant.codec : Codec α)).encode table.entries

def decode [Constant α] : Reader (ConstantTable α) := do
  let entries ← (Codec.seq (Constant.codec : Codec α)).decode
  if maxTableLength < entries.size then throw .lengthOverflow
  return ofEntries entries

end ConstantTable

end RegisterMachine
