import RegisterMachine.ConstantTable
import RegisterMachine.Function.Basic

/-!
# Programs

A program bundles functions, the constants that they load, the number of global slots and the
function that a run starts in.
-/

namespace RegisterMachine

structure Program where
  functions : Array Function
  i32Constants : ConstantTable Int32
  i64Constants : ConstantTable Int64
  f32Constants : ConstantTable Binary32
  f64Constants : ConstantTable Binary64
  strings : ConstantTable String
  globalCount : UInt16
  entry : UInt16

namespace Program

def empty : Program := ⟨#[], .empty, .empty, .empty, .empty, .empty, 0, 0⟩

instance : Inhabited Program := ⟨empty⟩

/-- Appends a function and gives its index. -/
def addFunction (program : Program) (function : Function) : Attempt Program UInt16 :=
  if maxTableLength ≤ program.functions.size then
    (.error (.encoding "LOAD_FUNCTION" s!"a module holds at most {maxTableLength} functions"),
      program)
  else
    (.ok (UInt16.ofNat program.functions.size),
      { program with functions := program.functions.push function })

def function? (program : Program) (index : UInt16) : Option Function :=
  program.functions[index.toNat]?

/-- Place of the first function with a name, as far as sixteen bits tell it. -/
def functionIndex? (program : Program) (name : String) : Option UInt16 :=
  (program.functions.findIdx? (·.name == name)).map UInt16.ofNat

def entryFunction (program : Program) : Except Error Function :=
  if program.functions.isEmpty then .error .missingFunction
  else
    match program.function? program.entry with
    | some function => .ok function
    | none => .error (.invalidFunction program.entry)

/-! ## Constants -/

/-- Types whose constants have a table in every program. -/
class Pooled (α : Type) [DecidableEq α] [Hashable α] extends Constant α where
  table : Program → ConstantTable α
  setTable : Program → ConstantTable α → Program

instance : Pooled Int32 where
  table program := program.i32Constants
  setTable program table := { program with i32Constants := table }

instance : Pooled Int64 where
  table program := program.i64Constants
  setTable program table := { program with i64Constants := table }

instance : Pooled Binary32 where
  table program := program.f32Constants
  setTable program table := { program with f32Constants := table }

instance : Pooled Binary64 where
  table program := program.f64Constants
  setTable program table := { program with f64Constants := table }

instance : Pooled String where
  table program := program.strings
  setTable program table := { program with strings := table }

/-- Adds a constant to its table and gives its place.  While the table changes the program holds
an empty one in its stead, so that the change is made in place. -/
def addConstant {α : Type} [DecidableEq α] [Hashable α] [Pooled α] (program : Program) (value : α) :
    Attempt Program UInt16 :=
  let table := Pooled.table program
  let rest := Pooled.setTable program (.empty : ConstantTable α)
  let (index, table) := table.add value
  (index, Pooled.setTable rest table)

def constant {α : Type} [DecidableEq α] [Hashable α] [Pooled α] (program : Program)
    (index : UInt16) : Except Error α :=
  (Pooled.table program : ConstantTable α).fetch index

end Program

end RegisterMachine
