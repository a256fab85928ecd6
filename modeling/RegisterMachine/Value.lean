import RegisterMachine.Binary.Basic

/-!
# Values

What a register, a global slot or an array element holds.  Numbers and truth values stand for
themselves; an array is held by a handle and a function by its index or as a native function.
-/

namespace RegisterMachine

/-- Handle of an array: the slot that holds it and the slot's generation when it was made.  The
generation changes when a slot is freed, so a handle that was kept too long is recognised. -/
structure Handle where
  index : UInt32
  generation : UInt32
deriving DecidableEq, Hashable, Repr

/-- A number of its own for each handle. -/
def Handle.key (handle : Handle) : Nat := handle.generation.toNat * UInt32.size + handle.index.toNat

/-- Functions that the machine itself provides. -/
inductive Native where
  /-- Length of an array. -/
  | len
  /-- Square root of a 64-bit number. -/
  | sqrt
  /-- Writes a value on a line of its own and gives it back. -/
  | print
deriving DecidableEq, Repr

inductive Callable where
  | compiled (index : UInt16)
  | native (function : Native)
deriving DecidableEq, Repr

inductive Value where
  | bool (value : Bool)
  | i32 (value : Int32)
  | i64 (value : Int64)
  | f32 (value : Binary32)
  | f64 (value : Binary64)
  | array (handle : Handle)
  | function (callable : Callable)
deriving DecidableEq

namespace Native

def all : List Native := [len, sqrt, print]

def name : Native → String
  | len => "len"
  | sqrt => "sqrt"
  | print => "print"

/-- Number of argument registers that a native function reads. -/
def arity : Native → Nat
  | len | sqrt | print => 1

def ofName? (name : String) : Option Native := all.find? (·.name == name)

end Native

namespace Value

/-- What a register holds before anything is written to it. -/
def zero : Value := i32 0

instance : Inhabited Value := ⟨zero⟩

def typeName : Value → String
  | bool _ => "Bool"
  | i32 _ => "I32"
  | i64 _ => "I64"
  | f32 _ => "F32"
  | f64 _ => "F64"
  | array _ => "Array"
  | function _ => "Function"

/-- The text of a value; an array shows its slot only. -/
def text : Value → String
  | bool value => if value then "true" else "false"
  | i32 value => toString value
  | i64 value => toString value
  | f32 value => value.text
  | f64 value => value.text
  | array handle => "<array #" ++ toString handle.index ++ ">"
  | function (.compiled index) => s!"<fn #{index}>"
  | function (.native callee) => "<native " ++ callee.name ++ ">"

/-- Equality without a look into arrays: numbers as numbers, arrays by their handle. -/
def shallowEq : Value → Value → Bool
  | bool a, bool b => a == b
  | i32 a, i32 b => a == b
  | i64 a, i64 b => a == b
  | f32 a, f32 b => a.eq b
  | f64 a, f64 b => a.eq b
  | array a, array b => a == b
  | function a, function b => a == b
  | _, _ => false

end Value

end RegisterMachine
