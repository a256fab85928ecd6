/-!
# Binary interchange formats

A bit pattern has a sign bit, an exponent field and a fraction field.  `Format.decode` gives the
number it stands for, and `Format.nearest` the pattern of the number nearest to a fraction, where
a tie goes to the even significand.  Both are exact: they use whole numbers only.
-/

namespace RegisterMachine

/-- Widths of the two fields below the sign bit. -/
structure Format where
  fractionBits : Nat
  exponentBits : Nat

/-- What a bit pattern stands for.  A finite number is `significand * 2 ^ exponent`. -/
inductive Datum where
  | nan
  | infinite (negative : Bool)
  | finite (negative : Bool) (significand : Nat) (exponent : Int)

namespace Format

def single : Format := ⟨23, 8⟩

def double : Format := ⟨52, 11⟩

/-- The exponent of the least positive number. -/
def leastExponent (f : Format) : Int :=
  2 - (Nat.pow 2 (f.exponentBits - 1) : Nat) - f.fractionBits

/-- The pattern of positive infinity: all exponent bits and no other. -/
def infinity (f : Format) : Nat :=
  (Nat.pow 2 f.exponentBits - 1) * Nat.pow 2 f.fractionBits

def signBit (f : Format) : Nat :=
  Nat.pow 2 (f.fractionBits + f.exponentBits)

/-- The pattern without a payload that is not a number. -/
def quietNaN (f : Format) : Nat :=
  f.infinity + Nat.pow 2 (f.fractionBits - 1)

/-- A pattern with its sign set or not, given the bits below the sign. -/
def withSign (f : Format) (negative : Bool) (magnitude : Nat) : Nat :=
  if negative then f.signBit + magnitude else magnitude

def decode (f : Format) (bits : Nat) : Datum :=
  let negative := bits / f.signBit % 2 == 1
  let magnitude := bits % f.signBit
  let fraction := magnitude % Nat.pow 2 f.fractionBits
  let field := magnitude / Nat.pow 2 f.fractionBits
  if magnitude = f.infinity then .infinite negative
  else if f.infinity < magnitude then .nan
  else if field = 0 then .finite negative fraction f.leastExponent
  else .finite negative (Nat.pow 2 f.fractionBits + fraction) (f.leastExponent + (field - 1 : Nat))

/-- The whole number nearest to `num / den`; a tie goes to the even one. -/
def roundToEven (num den : Nat) : Nat :=
  let floor := num / den
  let twice := 2 * (num % den)
  if twice < den then floor
  else if den < twice then floor + 1
  else floor + floor % 2

/-- The exponent of the leading bit of `num / den`, for `num` and `den` above zero. -/
def leadingBit (num den : Nat) : Int :=
  let guess : Int := (num.log2 : Int) - den.log2
  if den * Nat.pow 2 guess.toNat ≤ num * Nat.pow 2 (-guess).toNat then guess else guess - 1

/-- The magnitude of the number nearest to `num / den`, for `den` above zero. -/
def nearest (f : Format) (num den : Nat) : Nat :=
  if num = 0 then 0
  else
    let exponent := max f.leastExponent (leadingBit num den - f.fractionBits)
    let significand :=
      roundToEven (num * Nat.pow 2 (-exponent).toNat) (den * Nat.pow 2 exponent.toNat)
    min f.infinity ((exponent - f.leastExponent).toNat * Nat.pow 2 f.fractionBits + significand)

/-- The pattern of a datum: the nearest number, or what is no finite number as it is. -/
def encode (f : Format) : Datum → Nat
  | .nan => f.quietNaN
  | .infinite negative => f.withSign negative f.infinity
  | .finite negative significand exponent =>
    f.withSign negative
      (f.nearest (significand * Nat.pow 2 exponent.toNat) (Nat.pow 2 (-exponent).toNat))

def ofInt (f : Format) (n : Int) : Nat :=
  f.withSign (n < 0) (f.nearest n.natAbs 1)

end Format

namespace Datum

/-- The whole part of a number, brought into the range from `low` to `high`; zero for what is not a
number. -/
def truncate (low high : Int) : Datum → Int
  | .nan => 0
  | .infinite negative => if negative then low else high
  | .finite negative significand exponent =>
    let whole : Int := (significand * Nat.pow 2 exponent.toNat / Nat.pow 2 (-exponent).toNat : Nat)
    max low (min high (if negative then -whole else whole))

end Datum

end RegisterMachine
