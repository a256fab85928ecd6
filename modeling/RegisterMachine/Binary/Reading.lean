import RegisterMachine.Binary.Format
import RegisterMachine.Text.Blank
import RegisterMachine.Text.Numeral

/-!
# Reading decimal text

A number is written as an optional sign and then `inf`, `infinity` or `nan` in any case, or a
decimal: digits with at most one point among or around them, at least one digit, and optionally
`e` or `E` with a whole number.  The result is the nearest number of the format.

Exponents are read up to a limit: once the digits so far make `65536` or more, those after them
count for nothing.  So `e655369` and `e65536` are the same exponent.
-/

namespace RegisterMachine

/-- An unsigned decimal as written: its digits without the point, how many of them stand after the
point, and the exponent. -/
structure DecimalText where
  digits : List Char
  places : Nat
  exponent : Int

namespace DecimalText

/-- The exponent after `value` with one more digit. -/
def extendExponent? (value : Nat) (c : Char) : Option Nat := do
  let digit ← Text.digit? c
  return if value < 0x10000 then 10 * value + digit else value

/-- The size of an exponent from its digits, of which there is at least one. -/
def exponentDigits? : List Char → Option Nat
  | [] => none
  | cs => cs.foldlM extendExponent? 0

def exponent? : List Char → Option Int
  | [] => some 0
  | mark :: rest =>
    if mark = 'e' ∨ mark = 'E' then
      match rest with
      | '-' :: ds => (exponentDigits? ds).map fun n => -(n : Int)
      | '+' :: ds => (exponentDigits? ds).map fun n => (n : Int)
      | ds => (exponentDigits? ds).map fun n => (n : Int)
    else none

def parse? (cs : List Char) : Option DecimalText := do
  let whole := cs.takeWhile Char.isDigit
  let (fraction, rest) := match cs.dropWhile Char.isDigit with
    | '.' :: after => (after.takeWhile Char.isDigit, after.dropWhile Char.isDigit)
    | after => ([], after)
  let exponent ← exponent? rest
  if whole.isEmpty && fraction.isEmpty then none
  else some ⟨whole ++ fraction, fraction.length, exponent⟩

/-- Decimals whose leading digit stands this many places or more away from the point are too large
or too small for either format. -/
def reach : Int := 500

/-- No number half way between two neighbours of either format has more digits than this.  Of the
digits after these it only matters whether one is not zero. -/
def significant : Nat := 800

/-- The number that a run of digits stands for, where one more digit stands for all that follow the
first `significant` ones: a one if any of them is not zero. -/
def condensed (digits : List Char) : Nat :=
  let kept := (digits.take significant).foldl (fun value c => 10 * value + (c.toNat - '0'.toNat)) 0
  10 * kept + if (digits.drop significant).all (· == '0') then 0 else 1

/-- The magnitude of the number of format `f` nearest to the decimal. -/
def magnitude (f : Format) (d : DecimalText) : Nat :=
  let digits := d.digits.dropWhile (· == '0')
  let leading := d.exponent - d.places + digits.length
  if digits.isEmpty ∨ leading < -reach then 0
  else if reach < leading then f.infinity
  else
    let unit := leading - min digits.length significant - 1
    f.nearest (condensed digits * Nat.pow 10 unit.toNat) (Nat.pow 10 (-unit).toNat)

end DecimalText

def Format.readMagnitude? (f : Format) (cs : List Char) : Option Nat :=
  let word := Text.asciiLower (String.ofList cs)
  if word = "inf" ∨ word = "infinity" then some f.infinity
  else if word = "nan" then some f.quietNaN
  else (DecimalText.parse? cs).map (·.magnitude f)

def Format.read? (f : Format) (s : String) : Option Nat :=
  match s.toList with
  | '-' :: rest => (f.readMagnitude? rest).map (f.withSign true)
  | '+' :: rest => f.readMagnitude? rest
  | cs => f.readMagnitude? cs

end RegisterMachine
