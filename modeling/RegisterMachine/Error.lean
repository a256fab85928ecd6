import RegisterMachine.Text.Printable

/-!
# What can go wrong

One type for the failures of building, loading, assembling and running a program.  `Error.message`
is the only place that words them, and `Error.kind` the name under which a failure is reported.
-/

namespace RegisterMachine

/-- A failure, with what its message tells. -/
inductive Error where
  /-- An operand does not fit its field, or the opcode has another layout. -/
  | encoding (mnemonic reason : String)
  /-- All registers are live. -/
  | registerOverflow (capacity : Nat)
  /-- More registers were to be freed than are live. -/
  | registerUnderflow (requested live : Nat)
  /-- Double free, stale handle, or free of an array that is still referenced. -/
  | heapInvariant (index : UInt32) (reason : String)
  /-- The top byte of an instruction names no opcode. -/
  | unknownOpcode (opcode : UInt8)
  /-- A register holds a value of another type than the instruction works on. -/
  | typeMismatch (instruction : String) (register : UInt8) (expected actual : String)
  /-- An array index outside the array. -/
  | indexOutOfRange (index : Int) (length : Nat)
  /-- The heap limit is reached. -/
  | outOfMemory (requested : Nat)
  /-- Whole-number division by zero, or a negative power of zero. -/
  | divisionByZero
  /-- A constant index past the end of its table. -/
  | invalidConstant (table : String) (index : UInt16)
  /-- A function index past the end of the program. -/
  | invalidFunction (index : UInt16)
  /-- A global slot that was not declared. -/
  | invalidGlobal (slot : UInt16) (count : Nat)
  /-- No native function has this name. -/
  | unknownNative (name : String)
  /-- The arguments of a call reach past the last register. -/
  | argumentWindow (function : String) (count : Nat) (first : UInt8)
  /-- Calls are nested too deeply. -/
  | callStackOverflow (depth : Nat)
  /-- The run has executed as many instructions as it may. -/
  | budgetExhausted (executed : Nat)
  /-- A stored program cannot be read. -/
  | decoding (reason : String)
  /-- A file cannot be read or written. -/
  | io (reason : String)
  /-- Assembly failed at a token. -/
  | assembly (line offset : Nat) (message : String)
  /-- A line of assembly has no valid shape. -/
  | parse (line offset : Nat) (message : String)
  /-- No opcode has this mnemonic. -/
  | unknownMnemonic (name : String)
  /-- A token stands where a register was expected. -/
  | expectedRegister (token : String)
  /-- A token is no operand of the expected kind. -/
  | invalidOperand (expected token : String)
  /-- An instruction has too few or too many operands. -/
  | operandCount (instruction : String) (expected actual : Nat)
  /-- A label is defined twice in one function. -/
  | duplicateLabel (name : String)
  /-- A label is not defined in its function. -/
  | undefinedLabel (name : String)
  /-- A function is not defined. -/
  | undefinedFunction (name : String)
  /-- Two functions share a name. -/
  | duplicateFunction (name : String)
  /-- The program has no function to run. -/
  | missingFunction
deriving DecidableEq, Repr

namespace Error

/-- The name under which a failure is reported. -/
def kind : Error → String
  | encoding .. => "EncodingError"
  | registerOverflow .. => "RegisterOverflow"
  | registerUnderflow .. => "RegisterUnderflow"
  | heapInvariant .. => "HeapInvariantViolation"
  | unknownOpcode .. => "UnknownOpcode"
  | typeMismatch .. => "TypeMismatch"
  | indexOutOfRange .. => "IndexOutOfRange"
  | outOfMemory .. => "OutOfMemory"
  | divisionByZero => "DivisionByZero"
  | invalidConstant .. => "InvalidConstant"
  | invalidFunction .. => "InvalidFunction"
  | invalidGlobal .. => "InvalidGlobal"
  | unknownNative .. => "UnknownNative"
  | argumentWindow .. => "ArgumentWindowOverflow"
  | callStackOverflow .. => "CallStackOverflow"
  | budgetExhausted .. => "BudgetExhausted"
  | decoding .. => "DecodeError"
  | io .. => "Io"
  | assembly .. | parse .. | unknownMnemonic .. | expectedRegister .. | invalidOperand ..
  | operandCount .. | duplicateLabel .. | undefinedLabel .. | undefinedFunction ..
  | duplicateFunction .. | missingFunction => "AssemblyError"

def message : Error → String
  | encoding mnemonic reason => s!"cannot encode {mnemonic}: {reason}"
  | registerOverflow capacity => s!"register overflow: all {capacity} registers are live"
  | registerUnderflow requested live =>
    s!"cannot free {requested} registers, only {live} are live"
  | heapInvariant index reason => s!"heap invariant violated for array #{index}: {reason}"
  | unknownOpcode opcode => "unknown opcode 0x" ++ Text.hex 2 opcode.toNat
  | typeMismatch instruction register expected actual =>
    s!"{instruction} expected r{register} to hold {expected} but found {actual}"
  | indexOutOfRange index length => s!"index {index} out of range for array of length {length}"
  | outOfMemory requested => s!"out of memory allocating {requested} elements"
  | divisionByZero => "division by zero"
  | invalidConstant table index => s!"constant {index} is out of range for the {table} table"
  | invalidFunction index => s!"function {index} does not exist"
  | invalidGlobal slot count => s!"global slot {slot} does not exist (module declares {count})"
  | unknownNative name => "unknown native function " ++ Text.quoted name
  | argumentWindow function count first =>
    s!"arguments of {function} overflow the register file: {count} registers starting at r{first}"
  | callStackOverflow depth => s!"call stack overflow at depth {depth}"
  | budgetExhausted executed => s!"instruction budget exhausted after {executed} instructions"
  | decoding reason => s!"decoding error: {reason}"
  | io reason => s!"io error: {reason}"
  | assembly line offset text => s!"line {line}:{offset}: {text}"
  | parse line offset text => s!"line {line}:{offset}: {text}"
  | unknownMnemonic name => s!"invalid instruction name: {name}"
  | expectedRegister token => s!"expected register, got {token}"
  | invalidOperand expected token => s!"invalid {expected} operand: {token}"
  | operandCount instruction expected actual =>
    s!"{instruction} takes {expected} operands, got {actual}"
  | duplicateLabel name => s!"duplicate label: {name}"
  | undefinedLabel name => s!"undefined label: {name}"
  | undefinedFunction name => s!"undefined function: {name}"
  | duplicateFunction name => s!"duplicate function: {name}"
  | missingFunction => "module contains no functions"

/-- Failures that the running program brings about by itself, with a sound program file and a sound
machine. -/
def isUserError : Error → Bool
  | typeMismatch .. | indexOutOfRange .. | divisionByZero => true
  | _ => false

/-- Line, column and message of a failure that points into a source text. -/
def position? : Error → Option (Nat × Nat × String)
  | assembly line offset text => some (line, offset, text)
  | parse line offset text => some (line, offset, text)
  | _ => none

end Error

/-- Outcome of an operation on a state: a result or a failure, and the state afterwards in both
cases. -/
abbrev Attempt (σ α : Type) := Except Error α × σ

/-- An outcome whose state counts only if the operation succeeded. -/
def Attempt.toExcept {σ α : Type} : Attempt σ α → Except Error (α × σ)
  | (.ok a, state) => .ok (a, state)
  | (.error error, _) => .error error

end RegisterMachine
