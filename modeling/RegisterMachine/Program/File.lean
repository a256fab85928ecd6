import RegisterMachine.Program.Basic

/-!
# Stored programs

A stored program is five identifying bytes, three bytes for the version of the format, and the
parts of the program one after the other.  Nothing may follow them, and the entry must be one of
the functions unless there are none.
-/

namespace RegisterMachine

/-- A word as its four bytes. -/
def Instruction.codec : Codec Instruction :=
  Codec.u32.iso Instruction.mk Instruction.word (fun _ => rfl) (fun _ => rfl)

def SourceLocation.codec : Codec SourceLocation :=
  (Codec.string.pair Codec.u32).iso (fun (file, line) => ⟨file, line⟩)
    (fun location => (location.file, location.line)) (fun _ => rfl) (fun _ => rfl)

/-- The fields of a function in the order of their declaration. -/
def Function.codec : Codec Function :=
  (Codec.string.pair <| SourceLocation.codec.pair <| Codec.u16.pair <| Codec.u16.pair <|
    Codec.u16.pair <| Codec.seq Instruction.codec).iso
    (fun (name, location, paramCount, localCount, registerCount, code) =>
      ⟨name, location, paramCount, localCount, registerCount, code⟩)
    (fun f => (f.name, f.location, f.paramCount, f.localCount, f.registerCount, f.code))
    (fun _ => rfl) (fun _ => rfl)

namespace Program

/-- The bytes that a stored program starts with. -/
def magic : List UInt8 := "KORBC".toUTF8.toList

def version : List UInt8 := [0, 1, 0]

/-- Whether bytes start as a stored program does. -/
def isStored (input : List UInt8) : Bool := magic.isPrefixOf input

def encode (program : Program) : List UInt8 :=
  (Codec.seq Function.codec).encode program.functions ++ program.i32Constants.encode ++
    program.i64Constants.encode ++ program.f32Constants.encode ++ program.f64Constants.encode ++
    program.strings.encode ++ Codec.u16.encode program.globalCount ++ Codec.u16.encode program.entry

def decode : Reader Program := do
  let functions ← (Codec.seq Function.codec).decode
  let i32Constants ← ConstantTable.decode
  let i64Constants ← ConstantTable.decode
  let f32Constants ← ConstantTable.decode
  let f64Constants ← ConstantTable.decode
  let strings ← ConstantTable.decode
  let globalCount ← Codec.u16.decode
  let entry ← Codec.u16.decode
  return { functions, i32Constants, i64Constants, f32Constants, f64Constants, strings, globalCount,
           entry }

def toBytes (program : Program) : List UInt8 := magic ++ version ++ program.encode

/-- Runs a reader; a failure becomes a failure to load. -/
def readWith {α : Type} (reader : Reader α) (input : List UInt8) :
    Except Error (α × List UInt8) :=
  match reader.run input with
  | .ok result => .ok result
  | .error error => .error (.decoding error.message)

def ofBytes (input : List UInt8) : Except Error Program := do
  if (input.take magic.length).length < magic.length then throw (.decoding "truncated")
  let (first, input) ← readWith (Reader.take magic.length) input
  if first ≠ magic then throw (.decoding "bad magic")
  let (stated, input) ← readWith (Reader.take version.length) input
  if stated ≠ version then throw (.decoding "unsupported version")
  let (program, rest) ← readWith decode input
  if !rest.isEmpty then throw (.decoding "trailing bytes")
  let entry := program.entry
  if !program.functions.isEmpty ∧ program.functions.size ≤ entry.toNat then
    throw (.decoding s!"entry function {entry} does not exist")
  return program

end Program

end RegisterMachine
