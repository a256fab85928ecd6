import RegisterMachine.Binary.Basic

/-!
# Codecs

The binary format of stored programs.  A `Codec α` describes how values of type `α` are written:

- a number of fixed width as its bytes, the lowest first;
- a truth value as one byte, `0` or `1`;
- a text as the number of its bytes in eight bytes, and its bytes;
- a sequence as its length in eight bytes, and its elements;
- an optional value as one byte, `0` or `1`, and the value if there is one;
- a sequence of fixed length as its elements, and a pair as its two parts;
- a record as the nested pairs of its fields (`iso`).

`encode` writes a value, and `decode` reads one and gives the rest of the bytes.
-/

namespace RegisterMachine

inductive DecodeError where
  /-- The bytes end too early. -/
  | unexpectedEnd
  /-- The bytes stand for no value. -/
  | invalidValue
  /-- A length is larger than any sequence may be. -/
  | lengthOverflow
deriving DecidableEq, Repr

def DecodeError.message : DecodeError → String
  | unexpectedEnd => "unexpected end of input"
  | invalidValue => "invalid value"
  | lengthOverflow => "length prefix too large"

/-- Reads a value from the front of the bytes. -/
abbrev Reader (α : Type) := StateT (List UInt8) (Except DecodeError) α

/-- How values of a type are written. -/
inductive Codec : Type → Type 1 where
  /-- A number of `n` bytes. -/
  | bytes (n : Nat) : Codec (BitVec (8 * n))
  | bool : Codec Bool
  | string : Codec String
  | seq {α : Type} (element : Codec α) : Codec (Array α)
  | option {α : Type} (element : Codec α) : Codec (Option α)
  | vector {α : Type} (n : Nat) (element : Codec α) : Codec (Vector α n)
  | pair {α β : Type} (first : Codec α) (second : Codec β) : Codec (α × β)
  /-- Another form of the same values. -/
  | iso {α β : Type} (inner : Codec α) (wrap : α → β) (unwrap : β → α)
      (wrap_unwrap : ∀ b, wrap (unwrap b) = b) (unwrap_wrap : ∀ a, unwrap (wrap a) = a) : Codec β

/-- The length of the longest text or sequence that can be read. -/
def maxLength : Nat := 16000000

/-- The lowest `n` bytes of a number, the lowest first. -/
def littleEndian : Nat → Nat → List UInt8
  | 0, _ => []
  | n + 1, value => UInt8.ofNat value :: littleEndian n (value / 256)

/-- The number that bytes stand for, the lowest first. -/
def ofLittleEndian : List UInt8 → Nat
  | [] => 0
  | byte :: rest => byte.toNat + 256 * ofLittleEndian rest

namespace Reader

def take (n : Nat) : Reader (List UInt8) := fun input =>
  let taken := input.take n
  if taken.length < n then .error .unexpectedEnd else .ok (taken, input.drop n)

def natural (n : Nat) : Reader Nat := do
  return ofLittleEndian (← take n)

/-- A length, which must not be larger than any sequence may be. -/
def length : Reader Nat := do
  let n ← natural 8
  if maxLength < n then throw .lengthOverflow
  return n

/-- One byte that is `0` or `1`. -/
def flag : Reader Bool := do
  match ← natural 1 with
  | 0 => return false
  | 1 => return true
  | _ => throw .invalidValue

def text : Reader String := do
  let bytes ← take (← length)
  match String.fromUTF8? ⟨bytes.toArray⟩ with
  | some s => return s
  | none => throw .invalidValue

/-- `n` more elements after those in `done`. -/
def elements {α : Type} (element : Reader α) : Nat → Array α → Reader (Array α)
  | 0, done => return done
  | n + 1, done => do elements element n (done.push (← element))

def vector {α : Type} (element : Reader α) (n : Nat) : Reader (Vector α n) := do
  let items ← elements element n #[]
  if h : items.size = n then return ⟨items, h⟩ else throw .invalidValue

/-- Reads a value that the bytes hold nothing after. -/
def all {α : Type} (reader : Reader α) (input : List UInt8) : Except DecodeError α := do
  let (value, rest) ← reader.run input
  if rest.isEmpty then return value else throw .invalidValue

end Reader

namespace Codec

def encodeLength (n : Nat) : List UInt8 := littleEndian 8 n

def encode : {α : Type} → Codec α → α → List UInt8
  | _, bytes n, value => littleEndian n value.toNat
  | _, bool, value => [if value then 1 else 0]
  | _, string, value => encodeLength value.utf8ByteSize ++ value.toUTF8.toList
  | _, seq element, value => encodeLength value.size ++ value.toList.flatMap element.encode
  | _, option _, none => [0]
  | _, option element, some value => 1 :: element.encode value
  | _, vector _ element, value => value.toList.flatMap element.encode
  | _, pair first second, (a, b) => first.encode a ++ second.encode b
  | _, iso inner _ unwrap _ _, value => inner.encode (unwrap value)

def decode : {α : Type} → Codec α → Reader α
  | _, bytes n => return BitVec.ofNat (8 * n) (← Reader.natural n)
  | _, bool => Reader.flag
  | _, string => Reader.text
  | _, seq element => do Reader.elements element.decode (← Reader.length) #[]
  | _, option element => do
    if ← Reader.flag then return some (← element.decode) else return none
  | _, vector n element => Reader.vector element.decode n
  | _, pair first second => return (← first.decode, ← second.decode)
  | _, iso inner wrap _ _ _ => return wrap (← inner.decode)

/-! ## Numbers -/

def u8 : Codec UInt8 := (bytes 1).iso UInt8.ofBitVec UInt8.toBitVec (fun _ => rfl) (fun _ => rfl)

def u16 : Codec UInt16 :=
  (bytes 2).iso UInt16.ofBitVec UInt16.toBitVec (fun _ => rfl) (fun _ => rfl)

def u32 : Codec UInt32 :=
  (bytes 4).iso UInt32.ofBitVec UInt32.toBitVec (fun _ => rfl) (fun _ => rfl)

def u64 : Codec UInt64 :=
  (bytes 8).iso UInt64.ofBitVec UInt64.toBitVec (fun _ => rfl) (fun _ => rfl)

def i16 : Codec Int16 := u16.iso UInt16.toInt16 Int16.toUInt16 (fun _ => rfl) (fun _ => rfl)

def i32 : Codec Int32 := u32.iso UInt32.toInt32 Int32.toUInt32 (fun _ => rfl) (fun _ => rfl)

def i64 : Codec Int64 := u64.iso UInt64.toInt64 Int64.toUInt64 (fun _ => rfl) (fun _ => rfl)

def f32 : Codec Binary32 := u32.iso Binary32.mk Binary32.bits (fun _ => rfl) (fun _ => rfl)

def f64 : Codec Binary64 := u64.iso Binary64.mk Binary64.bits (fun _ => rfl) (fun _ => rfl)

end Codec

end RegisterMachine
