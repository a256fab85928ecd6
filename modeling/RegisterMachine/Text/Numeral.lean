/-!
# Numerals

Writing natural numbers in base ten and sixteen, with padding, and reading whole numbers of a
bounded range.  A written whole number is a non-empty run of the digits `0` to `9` after at most one
sign; there are no blanks, no separators and no other bases.
-/

namespace RegisterMachine.Text

/-- `s` after as many copies of `fill` as make it at least `width` characters long. -/
def padLeft (width : Nat) (fill : Char) (s : String) : String :=
  "".pushn fill (width - s.length) ++ s

/-- `s` followed by as many blanks as make it at least `width` characters long. -/
def padRight (width : Nat) (s : String) : String :=
  s.pushn ' ' (width - s.length)

/-- Decimal digits of `n`, at least `width` of them. -/
def zeroPadded (width n : Nat) : String :=
  padLeft width '0' (toString n)

/-- Lower-case hexadecimal digits of `n`, at least `width` of them. -/
def hex (width n : Nat) : String :=
  padLeft width '0' (String.ofList (Nat.toDigits 16 n))

def digit? (c : Char) : Option Nat :=
  if c.isDigit then some (c.toNat - '0'.toNat) else none

/-- The number after `value` with one more digit, unless it passes `bound`. -/
def appendDigit? (bound value : Nat) (c : Char) : Option Nat := do
  let next := 10 * value + (← digit? c)
  if next ≤ bound then some next else none

/-- The number that a non-empty run of decimal digits stands for, unless it passes `bound`. -/
def digits? (bound : Nat) : List Char → Option Nat
  | [] => none
  | cs => cs.foldlM (appendDigit? bound) 0

/-- Reads a number from `0` to `bound`; a plus sign may stand in front. -/
def natural? (bound : Nat) : List Char → Option Nat
  | '+' :: rest => digits? bound rest
  | cs => digits? bound cs

/-- Reads a number from `-bound - 1` to `bound`; either sign may stand in front. -/
def integer? (bound : Nat) : List Char → Option Int
  | '-' :: rest => (digits? (bound + 1) rest).map fun value => -(value : Int)
  | '+' :: rest => (digits? bound rest).map fun value => (value : Int)
  | cs => (digits? bound cs).map fun value => (value : Int)

def uint8? (s : String) : Option UInt8 := (natural? 0xff s.toList).map UInt8.ofNat

def uint16? (s : String) : Option UInt16 := (natural? 0xffff s.toList).map UInt16.ofNat

def uint32? (s : String) : Option UInt32 := (natural? 0xffffffff s.toList).map UInt32.ofNat

def uint64? (s : String) : Option UInt64 := (natural? 0xffffffffffffffff s.toList).map UInt64.ofNat

def int16? (s : String) : Option Int16 := (integer? 0x7fff s.toList).map Int16.ofInt

def int32? (s : String) : Option Int32 := (integer? 0x7fffffff s.toList).map Int32.ofInt

def int64? (s : String) : Option Int64 := (integer? 0x7fffffffffffffff s.toList).map Int64.ofInt

end RegisterMachine.Text
