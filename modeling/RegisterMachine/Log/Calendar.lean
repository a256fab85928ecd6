/-!
# Calendar dates

The Gregorian date of a day, counted from 1970-01-01.  Days are counted in eras of 400 years that
start on the first of March, so that the leap day is the last day of a year.

A date is computed in machine integers.  The computation is written once, for any rule on what an
integer type keeps of an exact result; what runs is the rule that results wrap around.
-/

namespace RegisterMachine

/-- The integer types that dates are computed in. -/
inductive MachineInt where
  /-- Signed, 64 bits. -/
  | i64
  /-- Unsigned, 32 bits. -/
  | u32
deriving DecidableEq, Repr

/-- What a type keeps of a result: one that is out of range wraps around. -/
def MachineInt.wrap : MachineInt → Int → Int
  | i64, n => n.bmod 0x10000000000000000
  | u32, n => n % 0x100000000

structure Date where
  year : Nat
  month : Nat
  day : Nat
deriving DecidableEq, Repr

namespace Date

/-- Days from the first of March of the year zero to 1970-01-01. -/
def epoch : Int := 719468

/-- Days of 400 years. -/
def eraDays : Int := 146097

/-- The date that lies `days` days after 1970-01-01, its year cut to 32 bits.  Every sum,
difference, product and conversion goes through `keep`; a quotient by a positive constant always
fits. -/
def compute {m : Type → Type} [Monad m] (keep : MachineInt → Int → m Int) (days : Nat) :
    m Date := do
  let counted ← keep .i64 days
  let shifted ← keep .i64 (counted + epoch)
  let era := shifted / eraDays
  let dayOfEra ← keep .u32 (shifted % eraDays)
  -- Once the leap days before it are left out, a day stands in a year of 365 days.
  let withoutFourth ← keep .u32 (dayOfEra - dayOfEra / 1460)
  let withCentury ← keep .u32 (withoutFourth + dayOfEra / 36524)
  let leapless ← keep .u32 (withCentury - dayOfEra / 146096)
  let yearOfEra := leapless / 365
  let common ← keep .u32 (365 * yearOfEra)
  let withFourth ← keep .u32 (common + yearOfEra / 4)
  let yearStart ← keep .u32 (withFourth - yearOfEra / 100)
  let dayOfYear ← keep .u32 (dayOfEra - yearStart)
  -- Months from March on have 31, 30, 31, 30, 31 days, over and over.
  let fifths ← keep .u32 (5 * dayOfYear)
  let rounded ← keep .u32 (fifths + 2)
  let fromMarch := rounded / 153
  let monthFifths ← keep .u32 (153 * fromMarch)
  let monthRounded ← keep .u32 (monthFifths + 2)
  let dayOfMonth ← keep .u32 (dayOfYear - monthRounded / 5)
  let day ← keep .u32 (dayOfMonth + 1)
  let month ← keep .u32 (if fromMarch < 10 then fromMarch + 3 else fromMarch - 9)
  let eraYears ← keep .i64 (era * 400)
  let marchYear ← keep .i64 (yearOfEra + eraYears)
  let year ← keep .i64 (marchYear + if month ≤ 2 then 1 else 0)
  return { year := (MachineInt.u32.wrap year).toNat, month := month.toNat, day := day.toNat }

/-- The date that lies `days` days after 1970-01-01, computed with results that wrap around. -/
def ofDays (days : Nat) : Date := Id.run (compute (fun type n => pure (type.wrap n)) days)

end Date

end RegisterMachine
