import RegisterMachine.Error
import RegisterMachine.Value

/-!
# The register file

There are 256 registers.  A call saves the lowest ones, its caller's window, and gives the callee
a window of zeros with the arguments at the front; the return writes the saved window back.
-/

namespace RegisterMachine

abbrev Registers := Vector Value 256

namespace Registers

def initial : Registers := Vector.replicate 256 Value.zero

def read (registers : Registers) (r : UInt8) : Value := registers.get r.toFin

def write (registers : Registers) (r : UInt8) (value : Value) : Registers :=
  registers.set r.toNat value r.toNat_lt

/-- Reads a register whose value must be of a given type. -/
def expect {α : Type} (registers : Registers) (pick : Value → Option α) (type : String)
    (instruction : String) (r : UInt8) : Except Error α :=
  let value := registers.read r
  match pick value with
  | some a => .ok a
  | none => .error (.typeMismatch instruction r type value.typeName)

def bool (registers : Registers) : String → UInt8 → Except Error Bool :=
  registers.expect (fun | .bool b => some b | _ => none) "Bool"

def int (registers : Registers) : String → UInt8 → Except Error Int32 :=
  registers.expect (fun | .i32 n => some n | _ => none) "I32"

def array (registers : Registers) : String → UInt8 → Except Error Handle :=
  registers.expect (fun | .array handle => some handle | _ => none) "Array"

def function (registers : Registers) : String → UInt8 → Except Error Callable :=
  registers.expect (fun | .function callable => some callable | _ => none) "Function"

/-- The values of `count` registers from `first` on. -/
def range (registers : Registers) (first : UInt8) (count : Nat) : Array Value :=
  registers.toArray.extract first.toNat (first.toNat + count)

/-- The values of the lowest `count` registers. -/
def window (registers : Registers) (count : Nat) : Array Value :=
  registers.toArray.extract 0 (min count 256)

/-- Writes values into the registers from the `start`-th on. -/
def fillFrom (registers : Registers) (start : Nat) : List Value → Registers
  | [] => registers
  | value :: rest =>
    if h : start < 256 then fillFrom (registers.set start value h) (start + 1) rest else registers

/-- Writes a saved window back. -/
def restore (registers : Registers) (saved : Array Value) : Registers :=
  fillFrom registers 0 saved.toList

/-- A fresh window of `size` registers with the arguments at the front. -/
def enter (registers : Registers) (size : Nat) (arguments : Array Value) : Registers :=
  let count := min (max size arguments.size) 256
  fillFrom (fillFrom registers 0 (List.replicate count Value.zero)) 0 arguments.toList

end Registers

end RegisterMachine
