import Mathlib
import RegisterMachine.Log.Calendar

/-!
# Dates are Gregorian dates

The calendar is defined here by going from one day to the next (`Date.next`), with leap years by
the rule of 4, 100 and 400.  `ofDays_gregorian` says that the closed form gives the date that is
reached so from 1970-01-01, for every day that 64 bits of seconds can name, and that no step of it
leaves its integer type.

Between the two stands the date counted from March on (`MarchDate`).  There the number of a day is
a number with places for era, year, month and day:

* the closed form finds the places by division (`compute_dayNumber`),
* to go on by one day is to count, with a carry from place to place (`InRange.exists_next`).

Both sides meet in the lengths of the places: `monthDays_of_lt` and `monthDays_february` for the
months, `yearStart_succ` for the years.
-/

namespace RegisterMachine

/-! ## Results that fit -/

namespace MachineInt

/-- The numbers of a type. -/
def Holds : MachineInt → Int → Prop
  | i64, n => -0x8000000000000000 ≤ n ∧ n < 0x8000000000000000
  | u32, n => 0 ≤ n ∧ n < 0x100000000

instance : ∀ (type : MachineInt) (n : Int), Decidable (type.Holds n)
  | i64, _ => inferInstanceAs (Decidable (_ ∧ _))
  | u32, _ => inferInstanceAs (Decidable (_ ∧ _))

/-- A result, if it is a number of the type. -/
def check (type : MachineInt) (n : Int) : Option Int := if type.Holds n then some n else none

theorem wrap_of_holds {type : MachineInt} {n : Int} (h : type.Holds n) : type.wrap n = n := by
  cases type with
  | i64 => exact Int.bmod_eq_of_le (by simpa using h.1) (by have := h.2; omega)
  | u32 => exact Int.emod_eq_of_lt h.1 h.2

end MachineInt

namespace Date

/-- The date that lies `days` days after 1970-01-01, or nothing as soon as a result is no number of
its type. -/
def ofDays? (days : Nat) : Option Date := compute MachineInt.check days

/-! ## The calendar -/

/-- Every fourth year is a leap year; of the years that end a century, only every fourth. -/
def isLeap (year : Nat) : Bool := year % 4 == 0 && (year % 100 != 0 || year % 400 == 0)

/-- Days that a year has beyond 365. -/
def leapDays (year : Nat) : Nat := if isLeap year then 1 else 0

/-- Days of a month. -/
def monthDays (year : Nat) : Nat → Nat
  | 2 => 28 + leapDays year
  | 4 | 6 | 9 | 11 => 30
  | _ => 31

/-- The month is one of the year and the day one of the month. -/
structure IsValid (date : Date) : Prop where
  month_pos : 1 ≤ date.month
  month_le : date.month ≤ 12
  day_pos : 1 ≤ date.day
  day_le : date.day ≤ monthDays date.year date.month

/-- The day after. -/
def next (date : Date) : Date :=
  if date.day < monthDays date.year date.month then { date with day := date.day + 1 }
  else if date.month < 12 then ⟨date.year, date.month + 1, 1⟩
  else ⟨date.year + 1, 1, 1⟩

/-- The date that is reached from 1970-01-01 by going on a number of days, one by one. -/
def after (days : Nat) : Date := next^[days] ⟨1970, 1, 1⟩

/-- The date as it is stored, with 32 bits for the year. -/
def narrowed (date : Date) : Date := { date with year := date.year % UInt32.size }

theorem monthDays_pos (year month : Nat) : 1 ≤ monthDays year month := by
  unfold monthDays
  split <;> omega

/-- The calendar repeats itself after 400 years. -/
theorem leapDays_add (year eras : Nat) : leapDays (year + eras * 400) = leapDays year := by
  have h4 : (year + eras * 400) % 4 = year % 4 := by omega
  have h100 : (year + eras * 400) % 100 = year % 100 := by omega
  have h400 : (year + eras * 400) % 400 = year % 400 := by omega
  rw [leapDays, leapDays, isLeap, isLeap, h4, h100, h400]

theorem leapDays_le (year : Nat) : leapDays year ≤ 1 := by
  unfold leapDays
  split <;> decide

/-- Which years are followed by a leap year, by century, fourth year and the rest. -/
theorem isLeap_succ {c q s : Nat} (hc : c < 4) (hq : q < 25) (hs : s < 4) :
    isLeap (100 * c + 4 * q + s + 1) = true ↔ s = 3 ∧ (q < 24 ∨ c = 3) := by
  simp only [isLeap, Bool.and_eq_true, Bool.or_eq_true, beq_iff_eq, bne_iff_ne]
  omega

end Date

/-! ## Years from March to February -/

/-- A date by the era of 400 years, the year of the era, the month from March on and the day of the
month, all counted from zero. -/
structure MarchDate where
  era : Nat
  year : Nat
  month : Nat
  day : Nat

namespace MarchDate

/-- Days of an era before a year. -/
def yearStart (year : Nat) : Nat := 365 * year + year / 4 - year / 100

/-- Days of a year before a month. -/
def monthStart (month : Nat) : Nat := (153 * month + 2) / 5

/-- Days of the year before the date. -/
def dayOfYear (d : MarchDate) : Nat := monthStart d.month + d.day

/-- Days of the era before the date. -/
def dayOfEra (d : MarchDate) : Nat := yearStart d.year + d.dayOfYear

/-- Days before the date. -/
def dayNumber (d : MarchDate) : Nat := d.era * 146097 + d.dayOfEra

/-- The date, counted from January on. -/
def toDate (d : MarchDate) : Date where
  year := d.year + d.era * 400 + if d.month < 10 then 0 else 1
  month := if d.month < 10 then d.month + 3 else d.month - 9
  day := d.day + 1

/-- January and February belong to the next year. -/
theorem toDate_cases (d : MarchDate) :
    d.month < 10 ∧ d.toDate.month = d.month + 3 ∧ d.toDate.year = d.year + d.era * 400 ∨
    10 ≤ d.month ∧ d.toDate.month = d.month - 9 ∧
      d.toDate.year = d.year + d.era * 400 + 1 := by
  by_cases h : d.month < 10
  · exact .inl ⟨h, if_pos h, congrArg _ (if_pos h)⟩
  · exact .inr ⟨by omega, if_neg h, congrArg _ (if_neg h)⟩

/-- Days of the month of a date. -/
def monthDays (d : MarchDate) : Nat := Date.monthDays d.toDate.year d.toDate.month

/-- All places are within their bounds. -/
structure InRange (d : MarchDate) : Prop where
  year : d.year < 400
  month : d.month < 12
  day : d.day < d.monthDays

variable {d : MarchDate}

theorem yearStart_split {c q s : Nat} (hq : q < 25) (hs : s < 4) :
    yearStart (100 * c + 4 * q + s) = 36524 * c + 1461 * q + 365 * s := by
  have h4 : (100 * c + 4 * q + s) / 4 = 25 * c + q := by omega
  have h100 : (100 * c + 4 * q + s) / 100 = c := by omega
  rw [yearStart, h4, h100]
  omega

/-- A year of an era by century, fourth year and the rest. -/
theorem year_split {y : Nat} (hy : y < 400) :
    ∃ c q s, c < 4 ∧ q < 25 ∧ s < 4 ∧ y = 100 * c + 4 * q + s :=
  ⟨y / 100, y % 100 / 4, y % 4, by omega, by omega, by omega, by omega⟩

/-! ### Lengths of months and years -/

theorem monthDays_of_lt (h : d.month < 11) :
    monthStart d.month + d.monthDays = monthStart (d.month + 1) := by
  obtain ⟨era, year, month, day⟩ := d
  simp only [monthDays, toDate] at h ⊢
  interval_cases month <;> rfl

/-- February is the last month. -/
theorem monthDays_february (h : d.month = 11) :
    monthStart d.month + d.monthDays = 365 + Date.leapDays (d.year + 1) := by
  have hdays : d.monthDays = 28 + Date.leapDays (d.year + 1 + d.era * 400) := by
    simp [monthDays, toDate, h, Date.monthDays, Nat.add_right_comm]
  rw [hdays, Date.leapDays_add, h, ← Nat.add_assoc]
  rfl

theorem monthStart_le {month : Nat} (h : month ≤ 11) : monthStart month ≤ 337 := by
  unfold monthStart
  omega

theorem InRange.dayOfYear_lt_month (h : d.InRange) : d.dayOfYear < monthStart (d.month + 1) := by
  have hday := h.day
  have hmonth := h.month
  rw [dayOfYear]
  by_cases hlast : d.month < 11
  · have := monthDays_of_lt hlast
    omega
  · have heq : d.month = 11 := by omega
    have hlen := monthDays_february heq
    have hend : monthStart (d.month + 1) = 367 := by rw [heq]; rfl
    have := Date.leapDays_le (d.year + 1)
    omega

theorem InRange.dayOfYear_lt_year (h : d.InRange) :
    d.dayOfYear < 365 + Date.leapDays (d.year + 1) := by
  have hmonth := h.month
  by_cases hlast : d.month < 11
  · have hlt := h.dayOfYear_lt_month
    have := monthStart_le (show d.month + 1 ≤ 11 from hlast)
    omega
  · have heq : d.month = 11 := by omega
    have hday := h.day
    rw [dayOfYear, ← monthDays_february heq]
    omega

/-- The year after begins when the year is over; the last year of an era ends the era. -/
theorem yearStart_succ {year : Nat} (h : year < 400) :
    yearStart year + 365 + Date.leapDays (year + 1)
      = if year = 399 then 146097 else yearStart (year + 1) := by
  have hall : ∀ y < 400, yearStart y + 365 + Date.leapDays (y + 1)
      = if y = 399 then 146097 else yearStart (y + 1) := by decide +kernel
  exact hall year h

theorem InRange.dayOfEra_lt (h : d.InRange) : d.dayOfEra < 146097 := by
  have hyear := h.year
  have hday := h.dayOfYear_lt_year
  have hsucc := yearStart_succ hyear
  rw [dayOfEra]
  by_cases hlast : d.year = 399
  · rw [if_pos hlast] at hsucc
    omega
  · rw [if_neg hlast] at hsucc
    have hstart : yearStart (d.year + 1) ≤ 146097 := by
      unfold yearStart
      omega
    omega

/-! ### The closed form -/

/-- A day of an era with its leap days left out. -/
def leapless (n : Nat) : Nat := n - n / 1460 + n / 36524 - n / 146096

/-- The year is found by division, once the leap days are left out.  A year is taken by century,
fourth year and the rest: of the places where a leap day is added, the last one in a century lies
beyond it unless the century is the last of the era. -/
theorem leapless_split {c q s r : Nat} (hc : c < 4) (hq : q < 25) (hs : s < 4)
    (hr : r < 365 ∨ r = 365 ∧ s = 3 ∧ (q < 24 ∨ c = 3)) :
    leapless (36524 * c + 1461 * q + 365 * s + r) / 365 = 100 * c + 4 * q + s := by
  generalize hn : 36524 * c + 1461 * q + 365 * s + r = n
  have hcentury : n / 36524 = c + n / 146096 := by
    by_cases hwithin : 1461 * q + 365 * s + r < 36524
    · have hquotient : n / 36524 = c := by omega
      have hzero : n / 146096 = 0 := by omega
      omega
    · have hlast : n = 146096 := by omega
      have hthree : c = 3 := by omega
      rw [hlast, hthree]
  rw [leapless, hcentury]
  by_cases hcarry : 1460 ≤ 24 * c + q + 365 * s + r
  · have hfourth : n / 1460 = 25 * c + q + 1 := by omega
    have hpos : 1 ≤ r := by omega
    have hsum : n - n / 1460 + (c + n / 146096) - n / 146096
        = 365 * (100 * c + 4 * q + s) + (r - 1) := by
      rw [hfourth]
      omega
    rw [hsum]
    omega
  · have hfourth : n / 1460 = 25 * c + q := by omega
    have hshort : r < 365 := by omega
    have hsum : n - n / 1460 + (c + n / 146096) - n / 146096
        = 365 * (100 * c + 4 * q + s) + r := by
      rw [hfourth]
      omega
    rw [hsum]
    omega

theorem InRange.leapless_dayOfEra (h : d.InRange) : leapless d.dayOfEra / 365 = d.year := by
  obtain ⟨c, q, s, hc, hq, hs, hyear⟩ := year_split h.year
  have hday := h.dayOfYear_lt_year
  rw [dayOfEra, hyear, yearStart_split hq hs]
  refine leapless_split hc hq hs ?_
  rw [Date.leapDays] at hday
  split at hday
  · rename_i hleap
    rw [hyear, Date.isLeap_succ hc hq hs] at hleap
    omega
  · exact .inl hday

theorem InRange.month_of_dayOfYear (h : d.InRange) : (5 * d.dayOfYear + 2) / 153 = d.month := by
  have hlt := h.dayOfYear_lt_month
  have hle : monthStart d.month ≤ d.dayOfYear := Nat.le_add_right _ _
  unfold monthStart at hlt hle
  omega

/-! ### The day after -/

/-- The first day of a month is in range. -/
theorem inRange_first {era year month : Nat} (hyear : year < 400) (hmonth : month < 12) :
    InRange ⟨era, year, month, 0⟩ :=
  ⟨hyear, hmonth, Date.monthDays_pos _ _⟩

/-- The day after the last day of a month. -/
theorem next_of_last (h : ¬ d.day + 1 < d.monthDays) :
    d.toDate.next = if d.toDate.month < 12 then ⟨d.toDate.year, d.toDate.month + 1, 1⟩
      else ⟨d.toDate.year + 1, 1, 1⟩ :=
  if_neg h

/-- After a month that is not February comes the next one from March on. -/
theorem toDate_next_month (hlast : ¬ d.day + 1 < d.monthDays) (hm : d.month < 11) :
    toDate ⟨d.era, d.year, d.month + 1, 0⟩ = d.toDate.next := by
  rw [next_of_last hlast]
  -- December is the month 9: the year of the date changes there, in the middle of the count
  rcases Nat.lt_trichotomy d.month 9 with hm' | hm' | hm'
  · simp only [toDate, if_pos (show d.month < 10 by omega),
      if_pos (show d.month + 1 < 10 by omega), if_pos (show d.month + 3 < 12 by omega)]
  · simp [toDate, hm']
  · simp only [toDate, if_neg (show ¬ d.month < 10 by omega),
      if_neg (show ¬ d.month + 1 < 10 by omega), if_pos (show d.month - 9 < 12 by omega),
      show d.month + 1 - 9 = d.month - 9 + 1 by omega]

/-- After February comes the first of March of the next year, in the same era or in the next. -/
theorem toDate_next_year (hlast : ¬ d.day + 1 < d.monthDays) (hm : d.month = 11) {era year : Nat}
    (hyear : year + era * 400 = d.year + d.era * 400 + 1) :
    toDate ⟨era, year, 0, 0⟩ = d.toDate.next := by
  rw [next_of_last hlast]
  simp [toDate, hm, hyear]

/-- To go on by one day is to count, with a carry from the day to the month, the year and the
era. -/
theorem InRange.exists_next (h : d.InRange) :
    ∃ d' : MarchDate, d'.InRange ∧ d'.dayNumber = d.dayNumber + 1 ∧ d'.toDate = d.toDate.next := by
  have hyear := h.year
  have hmonth := h.month
  have hday := h.day
  by_cases hd : d.day + 1 < d.monthDays
  · refine ⟨{ d with day := d.day + 1 }, ⟨hyear, hmonth, hd⟩, ?_, (if_pos hd).symm⟩
    simp only [dayNumber, dayOfEra, dayOfYear]
    omega
  by_cases hm : d.month < 11
  · refine ⟨⟨d.era, d.year, d.month + 1, 0⟩, inRange_first hyear (by omega), ?_,
      toDate_next_month hd hm⟩
    have hlen := monthDays_of_lt hm
    simp only [dayNumber, dayOfEra, dayOfYear]
    omega
  have heq : d.month = 11 := by omega
  have hlen := monthDays_february heq
  have hsucc := yearStart_succ hyear
  have hstart : yearStart 0 = 0 ∧ monthStart 0 = 0 := ⟨rfl, rfl⟩
  by_cases hy : d.year = 399
  · refine ⟨⟨d.era + 1, 0, 0, 0⟩, inRange_first (by decide) (by decide), ?_,
      toDate_next_year hd heq (by omega)⟩
    rw [if_pos hy] at hsucc
    simp only [dayNumber, dayOfEra, dayOfYear]
    omega
  · refine ⟨⟨d.era, d.year + 1, 0, 0⟩, inRange_first (by omega) (by decide), ?_,
      toDate_next_year hd heq (by omega)⟩
    rw [if_neg hy] at hsucc
    simp only [dayNumber, dayOfEra, dayOfYear]
    omega

/-- Every day from 1970-01-01 on has its place in the count from March on. -/
theorem exists_of_days (days : Nat) :
    ∃ d : MarchDate, d.InRange ∧ d.dayNumber = days + 719468 ∧ d.toDate = Date.after days := by
  induction days with
  | zero => exact ⟨⟨4, 369, 10, 0⟩, ⟨by decide, by decide, by decide⟩, rfl, rfl⟩
  | succ days ih =>
      obtain ⟨d, hd, hnumber, hdate⟩ := ih
      obtain ⟨d', hd', hnumber', hdate'⟩ := hd.exists_next
      refine ⟨d', hd', by omega, ?_⟩
      rw [hdate', hdate, Date.after, Date.after, Function.iterate_succ_apply']

end MarchDate

/-! ## The computation -/

namespace Date

variable {d : MarchDate}

/-- A rule that keeps every result that fits makes every step of the computation as in exact
numbers, and these fit. -/
theorem compute_dayNumber {m : Type → Type} [Monad m] [LawfulMonad m]
    {keep : MachineInt → Int → m Int} (hkeep : ∀ type n, type.Holds n → keep type n = pure n)
    (hd : d.InRange) {days : Nat} (hdays : d.dayNumber = days + 719468)
    (hbound : days ≤ (2 ^ 64 - 1) / 86400) :
    compute keep days = pure d.toDate.narrowed := by
  have long {exact n : Int} (he : exact = n) (hn : -0x8000000000000000 ≤ n)
      (hn' : n < 0x8000000000000000) : keep .i64 exact = pure n :=
    he ▸ hkeep .i64 n ⟨hn, hn'⟩
  have short {exact : Int} {n : Nat} (he : exact = n) (hn : n < 0x100000000) :
      keep .u32 exact = pure (n : Int) :=
    he ▸ hkeep .u32 n ⟨by omega, by omega⟩
  have hday := hd.dayOfEra_lt
  have hnumber : d.dayNumber = d.era * 146097 + d.dayOfEra := rfl
  have hdayOfEra : d.dayOfEra = MarchDate.yearStart d.year + d.dayOfYear := rfl
  have hdayOfYear : d.dayOfYear = (153 * d.month + 2) / 5 + d.day := rfl
  have hyear : (MarchDate.leapless d.dayOfEra : Int) / 365 = d.year := by
    exact_mod_cast hd.leapless_dayOfEra
  have hmonth : ((5 * d.dayOfYear + 2 : Nat) : Int) / 153 = d.month := by
    exact_mod_cast hd.month_of_dayOfYear
  have hyear_lt := hd.year
  have hmonth_lt := hd.month
  have hdate := d.toDate_cases
  dsimp only [compute, epoch, eraDays]
  -- the era and the day of the era
  rw [long (n := days) rfl (by omega) (by omega), pure_bind,
    long (n := d.dayNumber) (by omega) (by omega) (by omega), pure_bind,
    short (n := d.dayOfEra) (by omega) (by omega), pure_bind]
  -- the year, once the leap days are left out
  rw [short (n := d.dayOfEra - d.dayOfEra / 1460) (by omega) (by omega), pure_bind,
    short (n := d.dayOfEra - d.dayOfEra / 1460 + d.dayOfEra / 36524) (by omega) (by omega),
    pure_bind,
    short (n := MarchDate.leapless d.dayOfEra) (by rw [MarchDate.leapless]; omega)
      (by rw [MarchDate.leapless]; omega), pure_bind, hyear]
  -- the day of the year
  rw [short (n := 365 * d.year) (by omega) (by omega), pure_bind,
    short (n := 365 * d.year + d.year / 4) (by omega) (by omega), pure_bind,
    short (n := MarchDate.yearStart d.year) (by rw [MarchDate.yearStart]; omega) (by omega),
    pure_bind,
    short (n := d.dayOfYear) (by omega) (by omega), pure_bind]
  -- the month and its day
  rw [short (n := 5 * d.dayOfYear) (by omega) (by omega), pure_bind,
    short (n := 5 * d.dayOfYear + 2) (by omega) (by omega), pure_bind, hmonth,
    short (n := 153 * d.month) (by omega) (by omega), pure_bind,
    short (n := 153 * d.month + 2) (by omega) (by omega), pure_bind,
    short (n := d.day) (by omega) (by omega), pure_bind,
    short (n := d.day + 1) (by omega) (by omega), pure_bind]
  -- month and year as they are counted from January on
  rw [short (n := d.toDate.month) (by split <;> omega) (by omega), pure_bind,
    long (n := d.era * 400) (by omega) (by omega) (by omega), pure_bind,
    long (n := d.year + d.era * 400) (by omega) (by omega) (by omega), pure_bind,
    long (n := d.toDate.year) (by split <;> omega) (by omega) (by omega), pure_bind]
  rfl

theorem valid_toDate (hd : d.InRange) : d.toDate.IsValid := by
  have hmonth := hd.month
  have hdate := d.toDate_cases
  exact ⟨by omega, by omega, Nat.succ_pos _, hd.day⟩

/-- **Dates are Gregorian dates.**  For every day that a number of seconds of 64 bits can name, the
date is the one reached from 1970-01-01 day by day, with its year cut to 32 bits; and with results
that are checked instead of wrapped the computation gives the same, so none was out of range. -/
theorem ofDays_gregorian (days : Nat) (h : days ≤ (2 ^ 64 - 1) / 86400) :
    (after days).IsValid ∧
    ofDays days = (after days).narrowed ∧
    ofDays? days = some (after days).narrowed := by
  obtain ⟨d, hd, hnumber, hdate⟩ := MarchDate.exists_of_days days
  rw [← hdate]
  refine ⟨valid_toDate hd, ?_, ?_⟩
  · exact compute_dayNumber (fun type n hn => congrArg pure (MachineInt.wrap_of_holds hn)) hd
      hnumber h
  · exact compute_dayNumber (fun type n hn => if_pos hn) hd hnumber h

/-- The last day, in the year 584554051223. -/
theorem ofDays_gregorian_last :
    213503982334601 ≤ (2 ^ 64 - 1) / 86400 ∧
    (after 213503982334601).IsValid ∧
    (after 213503982334601).narrowed = ⟨584554051223 % 2 ^ 32, 11, 9⟩ ∧
    ofDays? 213503982334601 = some ⟨584554051223 % 2 ^ 32, 11, 9⟩ := by
  obtain ⟨hvalid, hdate, hchecked⟩ := ofDays_gregorian 213503982334601 (by decide)
  have hvalue : ofDays 213503982334601 = ⟨584554051223 % 2 ^ 32, 11, 9⟩ := by decide +kernel
  have hafter := hdate.symm.trans hvalue
  exact ⟨by decide, hvalid, hafter, hchecked.trans (congrArg some hafter)⟩

end Date

end RegisterMachine
