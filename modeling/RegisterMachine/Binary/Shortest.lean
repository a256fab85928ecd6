import RegisterMachine.Binary.Format

/-!
# Shortest decimal text

The text of a finite number has the fewest significant digits that read back as the same number;
of two such numerals of that length the nearer one is taken, and of two equally near ones the
upper one.  The search tries one digit, two digits and so on, and looks at the two neighbours of
the number on the grid of decimals with that many digits, in whole numbers throughout.
-/

namespace RegisterMachine

/-- A decimal number `digits * 10 ^ exponent`. -/
structure Decimal where
  digits : Nat
  exponent : Int

/-- Where a text changes from positional to scientific form: the exponents of the leading digit that
are written positionally. -/
structure DecimalStyle where
  lowest : Int
  highest : Int

/-- Numbers from `10 ^ -4` up to but not including `10 ^ 16` are written positionally. -/
def DecimalStyle.plain : DecimalStyle := ⟨-4, 15⟩

namespace Decimal

def length (n : Nat) : Nat := (Nat.toDigits 10 n).length

/-- The exponent of the leading decimal digit of `num / den`, for `num` and `den` above zero. -/
def leadingDigit (num den : Nat) : Int :=
  if den ≤ num then (length (num / den) : Int) - 1
  else
    let count := length (den / num)
    if den = num * Nat.pow 10 (count - 1) then 1 - (count : Int) else -(count : Int)

/-- The reals that round to one number: from `low` to `high` around `value`, in units of
`2 ^ exponent`; the ends belong to it if `closed`. -/
structure Interval where
  low : Nat
  value : Nat
  high : Nat
  exponent : Int
  closed : Bool

/-- The interval of a finite number above zero.  Below a power of two the numbers lie twice as
close, except at the lower end of the format. -/
def Interval.of (f : Format) (significand : Nat) (exponent : Int) : Interval :=
  let narrow := significand = Nat.pow 2 f.fractionBits ∧ f.leastExponent < exponent
  { low := 4 * significand - (if narrow then 1 else 2)
    value := 4 * significand
    high := 4 * significand + 2
    exponent := exponent - 2
    closed := significand % 2 = 0 }

/-- The decimal with unit `10 ^ unit` that lies in the interval, if any: of the two neighbours of
the value the nearer one in the interval, the upper one in a tie. -/
def Interval.neighbour? (i : Interval) (unit : Int) : Option Decimal :=
  let scale := Nat.pow 2 i.exponent.toNat * Nat.pow 10 (-unit).toNat
  let step := Nat.pow 10 unit.toNat * Nat.pow 2 (-i.exponent).toNat
  let below := i.value * scale / step
  let inside (d : Nat) : Bool :=
    if i.closed then i.low * scale ≤ d * step && d * step ≤ i.high * scale
    else i.low * scale < d * step && d * step < i.high * scale
  let rest := i.value * scale - below * step
  if inside (below + 1) && (!inside below || step ≤ 2 * rest) then some ⟨below + 1, unit⟩
  else if inside below then some ⟨below, unit⟩
  else none

/-- Significant digits that always suffice for the two formats. -/
def enoughDigits : Nat := 17

/-- The shortest decimal that reads back as the number. -/
def shortest (f : Format) (significand : Nat) (exponent : Int) : Decimal :=
  let interval := Interval.of f significand exponent
  let leading := leadingDigit (significand * Nat.pow 2 exponent.toNat) (Nat.pow 2 (-exponent).toNat)
  let units := (List.range enoughDigits).map fun (n : Nat) => leading - n
  (units.findSome? interval.neighbour?).getD ⟨0, 0⟩

def significant (d : Decimal) : List Char :=
  ((Nat.toDigits 10 d.digits).reverse.dropWhile (· == '0')).reverse

/-- The text of a decimal above zero. -/
def text (style : DecimalStyle) (d : Decimal) : String :=
  let digits := d.significant
  let leading := d.exponent + length d.digits - 1
  let zeros (n : Nat) : List Char := List.replicate n '0'
  let orZero (cs : List Char) : List Char := if cs.isEmpty then ['0'] else cs
  if style.lowest ≤ leading ∧ leading ≤ style.highest then
    if leading < 0 then String.ofList ("0.".toList ++ zeros (-leading - 1).toNat ++ digits)
    else
      let whole := leading.toNat + 1
      String.ofList
        (digits.take whole ++ zeros (whole - digits.length) ++ '.' :: orZero (digits.drop whole))
  else
    let tail := digits.drop 1
    String.ofList (digits.take 1 ++ (if tail.isEmpty then [] else '.' :: tail)) ++ "e" ++
      toString leading

end Decimal

def Datum.text (f : Format) (style : DecimalStyle) : Datum → String
  | .nan => "NaN"
  | .infinite negative => if negative then "-inf" else "inf"
  | .finite negative significand exponent =>
    let magnitude :=
      if significand = 0 then "0.0" else (Decimal.shortest f significand exponent).text style
    if negative then "-" ++ magnitude else magnitude

end RegisterMachine
