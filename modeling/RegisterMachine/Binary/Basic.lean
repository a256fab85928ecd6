import RegisterMachine.Binary.Reading
import RegisterMachine.Binary.Shortest

/-!
# Binary floating-point numbers

`Binary32` and `Binary64` are bit patterns.  Two patterns are the same value of the type exactly
if all bits agree, so constants keep the sign of zero and the payload of a NaN; the comparisons
`eq`, `lt`, … are those of numbers, where the two zeros are equal and a NaN is equal to nothing.
-/

namespace RegisterMachine

/-- Position of a number on the line of its format; `none` for a NaN.  The two zeros share a
position. -/
def Format.rank? (f : Format) (bits : Nat) : Option Int :=
  let magnitude := bits % f.signBit
  if f.infinity < magnitude then none
  else if bits / f.signBit % 2 = 1 then some (-(magnitude : Int)) else some magnitude

/-- Whether a pattern is a NaN whose leading fraction bit is clear.  Such a NaN is signaling, the
others are quiet. -/
def Format.isSignaling (f : Format) (bits : Nat) : Bool :=
  let magnitude := bits % f.signBit
  f.infinity < magnitude && magnitude < f.quietNaN

/-- Compares two positions; false if either is missing. -/
def onRanks (test : Int → Int → Bool) : Option Int → Option Int → Bool
  | some a, some b => test a b
  | _, _ => false

/-- A 32-bit floating-point number, as its bits. -/
structure Binary32 where
  bits : UInt32
deriving DecidableEq, Hashable, Inhabited, Repr

structure Binary64 where
  bits : UInt64
deriving DecidableEq, Hashable, Inhabited, Repr

namespace Binary32

def datum (x : Binary32) : Datum := Format.single.decode x.bits.toNat

def rank? (x : Binary32) : Option Int := Format.single.rank? x.bits.toNat

def isNaN (x : Binary32) : Bool := x.rank?.isNone

def isSignaling (x : Binary32) : Bool := Format.single.isSignaling x.bits.toNat

def eq (a b : Binary32) : Bool := onRanks (fun x y => x == y) a.rank? b.rank?

def lt (a b : Binary32) : Bool := onRanks (fun x y => x < y) a.rank? b.rank?

def le (a b : Binary32) : Bool := onRanks (fun x y => x ≤ y) a.rank? b.rank?

def toFloat (x : Binary32) : Float32 := Float32.ofBits x.bits

def ofFloat (x : Float32) : Binary32 := ⟨x.toBits⟩

def add (a b : Binary32) : Binary32 := ofFloat (a.toFloat + b.toFloat)

def sub (a b : Binary32) : Binary32 := ofFloat (a.toFloat - b.toFloat)

def mul (a b : Binary32) : Binary32 := ofFloat (a.toFloat * b.toFloat)

def div (a b : Binary32) : Binary32 := ofFloat (a.toFloat / b.toFloat)

/-- `a` to the power `b`.  To the power zero even a quiet NaN gives one, as does one to the power of
a quiet NaN; a signaling NaN always gives a NaN. -/
def pow (a b : Binary32) : Binary32 :=
  if a.isSignaling || b.isSignaling then ⟨UInt32.ofNat Format.single.quietNaN⟩
  else ofFloat (Float32.pow a.toFloat b.toFloat)

def neg (a : Binary32) : Binary32 := ⟨a.bits ^^^ 0x80000000⟩

def ofText? (s : String) : Option Binary32 :=
  (Format.single.read? s).map fun n => ⟨UInt32.ofNat n⟩

def text (x : Binary32) : String := x.datum.text Format.single DecimalStyle.plain

end Binary32

namespace Binary64

def datum (x : Binary64) : Datum := Format.double.decode x.bits.toNat

def rank? (x : Binary64) : Option Int := Format.double.rank? x.bits.toNat

def isNaN (x : Binary64) : Bool := x.rank?.isNone

def isSignaling (x : Binary64) : Bool := Format.double.isSignaling x.bits.toNat

def eq (a b : Binary64) : Bool := onRanks (fun x y => x == y) a.rank? b.rank?

def lt (a b : Binary64) : Bool := onRanks (fun x y => x < y) a.rank? b.rank?

def le (a b : Binary64) : Bool := onRanks (fun x y => x ≤ y) a.rank? b.rank?

def toFloat (x : Binary64) : Float := Float.ofBits x.bits

def ofFloat (x : Float) : Binary64 := ⟨x.toBits⟩

def add (a b : Binary64) : Binary64 := ofFloat (a.toFloat + b.toFloat)

def sub (a b : Binary64) : Binary64 := ofFloat (a.toFloat - b.toFloat)

def mul (a b : Binary64) : Binary64 := ofFloat (a.toFloat * b.toFloat)

def div (a b : Binary64) : Binary64 := ofFloat (a.toFloat / b.toFloat)

/-- `a` to the power `b`.  To the power zero even a quiet NaN gives one, as does one to the power of
a quiet NaN; a signaling NaN always gives a NaN. -/
def pow (a b : Binary64) : Binary64 :=
  if a.isSignaling || b.isSignaling then ⟨UInt64.ofNat Format.double.quietNaN⟩
  else ofFloat (Float.pow a.toFloat b.toFloat)

def sqrt (a : Binary64) : Binary64 := ofFloat a.toFloat.sqrt

def neg (a : Binary64) : Binary64 := ⟨a.bits ^^^ 0x8000000000000000⟩

def ofInt (n : Int) : Binary64 := ⟨UInt64.ofNat (Format.double.ofInt n)⟩

/-- Every number of 32 bits is a number of 64 bits. -/
def ofBinary32 (x : Binary32) : Binary64 := ⟨UInt64.ofNat (Format.double.encode x.datum)⟩

/-- The nearest number of 32 bits. -/
def toBinary32 (x : Binary64) : Binary32 := ⟨UInt32.ofNat (Format.single.encode x.datum)⟩

/-- The whole part as a 32-bit integer; what lies outside goes to the nearer end, NaN to zero. -/
def toInt32 (x : Binary64) : Int32 :=
  Int32.ofInt (x.datum.truncate (-0x80000000) 0x7fffffff)

/-- The whole part as a 64-bit integer; what lies outside goes to the nearer end, NaN to zero. -/
def toInt64 (x : Binary64) : Int64 :=
  Int64.ofInt (x.datum.truncate (-0x8000000000000000) 0x7fffffffffffffff)

def ofText? (s : String) : Option Binary64 :=
  (Format.double.read? s).map fun n => ⟨UInt64.ofNat n⟩

def text (x : Binary64) : String := x.datum.text Format.double DecimalStyle.plain

end Binary64

end RegisterMachine
