import RegisterMachine.Instruction

/-!
# Functions

A finished function: its name, where it was defined, how many parameters, local variables and
registers it has, and its instructions.
-/

namespace RegisterMachine

/-- Number of registers that a function can address. -/
def registerCapacity : Nat := 256

structure SourceLocation where
  file : String
  line : UInt32
deriving DecidableEq, Repr, Inhabited

structure Function where
  name : String
  location : SourceLocation
  paramCount : UInt16
  localCount : UInt16
  /-- Size of the register window that the function works in. -/
  registerCount : UInt16
  code : Array Instruction
deriving DecidableEq, Repr, Inhabited

def SourceLocation.text (location : SourceLocation) : String :=
  location.file ++ ":" ++ toString location.line

namespace Function

def instruction? (function : Function) (pc : Nat) : Option Instruction := function.code[pc]?

/-- One line for the function and one for each instruction. -/
def listing (function : Function) : String :=
  let header := ".func " ++ function.name ++ " " ++ toString function.paramCount ++ " # " ++
    toString function.registerCount ++ " regs, " ++ toString function.localCount ++ " locals, " ++
    function.location.text ++ "\n"
  let lines := function.code.toList.zipIdx.map fun (instruction, pc) =>
    Text.padLeft 5 ' ' (toString pc) ++ "  " ++ instruction.text ++ "\n"
  header ++ String.join lines

end Function

end RegisterMachine
