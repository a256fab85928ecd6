import Mathlib
import RegisterMachine.Machine.Numeric

/-!
# Whole powers

The power of two machine integers against the power of the integers that they stand for.
`exactPower` says what the answer should be, with numbers of any size: the power, wrapped around
once at the end, or for a negative exponent the fraction `1 / a ^ n` cut off.  The program wraps
around after every product and never computes the power that a negative exponent divides by, and
gives the same (`whole_powers_exact`).

The program squares in a loop.  `Squaring` holds the loop's variables and `turn` is one pass through
it; `result * base ^ exponent` stays the same up to multiples of the modulus (`Holds.turn`), and the
exponent is halved, so that the loop ends (`endsAfter_size`).  The two widths differ in nothing but
what `TwosComplement` says of both.
-/

namespace RegisterMachine

/-- The power of two whole numbers as an integer of `width` bits. -/
def exactPower (width : Nat) (a b : Int) : Except Error Int :=
  if 0 ≤ b then .ok ((a ^ b.toNat).bmod (2 ^ width))
  else if a = 0 then .error .divisionByZero
  else .ok (Int.tdiv 1 (a ^ (-b).toNat))

/-! ## The loop -/

/-- The variables of the loop. -/
structure Squaring (α : Type) where
  result : α
  base : α
  exponent : Nat

namespace Squaring

variable {α : Type} [Mul α]

/-- One pass through the loop. -/
def turn (s : Squaring α) : Squaring α where
  result := if s.exponent % 2 = 1 then s.result * s.base else s.result
  base := s.base * s.base
  exponent := s.exponent / 2

/-- The exponent is zero after `n` turns and not before, and the result is `r` then. -/
def EndsAfter (s : Squaring α) (n : Nat) (r : α) : Prop :=
  (∀ k, (turn^[k] s).exponent = 0 ↔ n ≤ k) ∧ (turn^[n] s).result = r

theorem exponent_turns (s : Squaring α) (k : Nat) :
    (turn^[k] s).exponent = s.exponent / 2 ^ k := by
  induction k with
  | zero => exact (Nat.div_one _).symm
  | succ k ih =>
      rw [Function.iterate_succ_apply', turn, ih, Nat.div_div_eq_div_mul, Nat.pow_succ]

/-- The loop runs once for each binary digit of the exponent. -/
theorem exponent_turns_eq_zero_iff (s : Squaring α) (k : Nat) :
    (turn^[k] s).exponent = 0 ↔ s.exponent.size ≤ k := by
  rw [exponent_turns, Nat.size_le]
  exact Nat.div_eq_zero_iff_lt (Nat.two_pow_pos k)

/-- While the exponent is not zero, the loop gives what it gives after one more turn. -/
theorem squareAndMultiply_turn {s : Squaring α} (h : s.exponent ≠ 0) :
    squareAndMultiply s.result s.base s.exponent
      = squareAndMultiply s.turn.result s.turn.base s.turn.exponent := by
  rw [squareAndMultiply, if_neg h]
  rfl

/-- Turns that the loop takes do not change what it gives. -/
theorem squareAndMultiply_turns (s : Squaring α) {k : Nat} (h : k ≤ s.exponent.size) :
    squareAndMultiply s.result s.base s.exponent
      = squareAndMultiply (turn^[k] s).result (turn^[k] s).base (turn^[k] s).exponent := by
  induction k with
  | zero => rfl
  | succ k ih =>
      have hrunning : (turn^[k] s).exponent ≠ 0 := by
        rw [Ne, exponent_turns_eq_zero_iff]
        omega
      rw [ih (Nat.le_of_succ_le h), squareAndMultiply_turn hrunning, Function.iterate_succ_apply']

theorem endsAfter_size (s : Squaring α) :
    s.EndsAfter s.exponent.size (squareAndMultiply s.result s.base s.exponent) := by
  have hend : (turn^[s.exponent.size] s).exponent = 0 :=
    (exponent_turns_eq_zero_iff s _).mpr (Nat.le_refl _)
  refine ⟨exponent_turns_eq_zero_iff s, ?_⟩
  rw [squareAndMultiply_turns s (Nat.le_refl _), hend, squareAndMultiply, if_pos rfl]

end Squaring

/-! ## Machine integers -/

/-- The values of a type are the integers of `width` bits, and its operations are those of the
integers, wrapped around. -/
structure TwosComplement {α : Type} [Mul α] [Mod α] [Neg α] [OfNat α 0] [OfNat α 1] [OfNat α 2]
    (width : Nat) (toInt : α → Int) : Prop where
  injective : Function.Injective toInt
  bmod_toInt (a : α) : (toInt a).bmod (2 ^ width) = toInt a
  toInt_lt (a : α) : toInt a < 2 ^ (width - 1)
  zero : toInt 0 = 0
  one : toInt 1 = 1
  neg_one : toInt (-1) = -1
  mul (a b : α) : toInt (a * b) = (toInt a * toInt b).bmod (2 ^ width)
  mod_two (a : α) : toInt (a % 2) = (toInt a).tmod 2

theorem twosComplement_int32 : TwosComplement 32 Int32.toInt where
  injective _ _ h := Int32.toInt_inj.mp h
  bmod_toInt := Int32.toInt_bmod
  toInt_lt := Int32.toInt_lt
  zero := rfl
  one := rfl
  neg_one := rfl
  mul := Int32.toInt_mul
  mod_two a := Int32.toInt_mod a 2

theorem twosComplement_int64 : TwosComplement 64 Int64.toInt where
  injective _ _ h := Int64.toInt_inj.mp h
  bmod_toInt := Int64.toInt_bmod
  toInt_lt := Int64.toInt_lt
  zero := rfl
  one := rfl
  neg_one := rfl
  mul := Int64.toInt_mul
  mod_two a := Int64.toInt_mod a 2

namespace TwosComplement

variable {α : Type} [Mul α] [Mod α] [Neg α] [OfNat α 0] [OfNat α 1] [OfNat α 2]
variable {width : Nat} {toInt : α → Int}

theorem modEq_mul (h : TwosComplement width toInt) (a b : α) :
    toInt (a * b) ≡ toInt a * toInt b [ZMOD (2 ^ width : Nat)] := by
  rw [h.mul]
  exact Int.bmod_emod

/-- What the loop has still to compute, up to multiples of the modulus. -/
def Holds (width : Nat) (toInt : α → Int) (s : Squaring α) (x : Int) : Prop :=
  toInt s.result * toInt s.base ^ s.exponent ≡ x [ZMOD (2 ^ width : Nat)]

/-- A turn moves a factor from the power to the result, or none, and writes the rest as a power of
the square. -/
theorem Holds.turn (h : TwosComplement width toInt) {s : Squaring α} {x : Int}
    (hs : Holds width toInt s x) : Holds width toInt s.turn x := by
  have hsquare : toInt (s.base * s.base) ^ (s.exponent / 2)
      ≡ toInt s.base ^ (2 * (s.exponent / 2)) [ZMOD (2 ^ width : Nat)] := by
    rw [pow_mul, pow_two]
    exact (h.modEq_mul _ _).pow _
  rcases Nat.mod_two_eq_zero_or_one s.exponent with heven | hodd
  · have hexponent : 2 * (s.exponent / 2) = s.exponent := by omega
    have hturn : s.turn = ⟨s.result, s.base * s.base, s.exponent / 2⟩ := by
      simp [Squaring.turn, heven]
    rw [hexponent] at hsquare
    rw [hturn]
    exact (hsquare.mul_left _).trans hs
  · have hexponent : s.exponent = 2 * (s.exponent / 2) + 1 := by omega
    have hturn : s.turn = ⟨s.result * s.base, s.base * s.base, s.exponent / 2⟩ := by
      simp [Squaring.turn, hodd]
    rw [hturn]
    calc toInt (s.result * s.base) * toInt (s.base * s.base) ^ (s.exponent / 2)
        ≡ toInt s.result * toInt s.base * toInt s.base ^ (2 * (s.exponent / 2))
          [ZMOD (2 ^ width : Nat)] := (h.modEq_mul _ _).mul hsquare
      _ = toInt s.result * toInt s.base ^ (2 * (s.exponent / 2) + 1) := by ring
      _ = toInt s.result * toInt s.base ^ s.exponent := by rw [← hexponent]
      _ ≡ x [ZMOD (2 ^ width : Nat)] := hs

theorem Holds.turns (h : TwosComplement width toInt) {s : Squaring α} {x : Int}
    (hs : Holds width toInt s x) (k : Nat) : Holds width toInt (Squaring.turn^[k] s) x := by
  induction k with
  | zero => exact hs
  | succ k ih =>
      rw [Function.iterate_succ_apply']
      exact ih.turn h

/-- A value that is congruent to an integer is this integer wrapped around. -/
theorem eq_bmod (h : TwosComplement width toInt) {a : α} {x : Int}
    (hx : toInt a ≡ x [ZMOD (2 ^ width : Nat)]) : toInt a = x.bmod (2 ^ width) := by
  rw [← h.bmod_toInt a, ← Int.emod_bmod, hx, Int.emod_bmod]

theorem toInt_squareAndMultiply (h : TwosComplement width toInt) (a : α) (n : Nat) :
    toInt (squareAndMultiply 1 a n) = (toInt a ^ n).bmod (2 ^ width) := by
  obtain ⟨hend, hresult⟩ := Squaring.endsAfter_size ⟨1, a, n⟩
  have hstart : Holds width toInt ⟨1, a, n⟩ (toInt a ^ n) := by
    rw [Holds, h.one, one_mul]
  have hlast := hstart.turns h n.size
  rw [Holds, (hend _).mpr (Nat.le_refl _), pow_zero, mul_one, hresult] at hlast
  exact h.eq_bmod hlast

end TwosComplement

/-! ## Negative exponents -/

/-- A fraction between minus one and one is cut off to zero. -/
theorem tdiv_one_pow_eq_zero {a : Int} (h₀ : a ≠ 0) (h₁ : a ≠ 1) (h₂ : a ≠ -1) {n : Nat}
    (hn : n ≠ 0) : Int.tdiv 1 (a ^ n) = 0 := by
  have habs : 1 < a.natAbs := by omega
  have hpow : 1 < (a ^ n).natAbs := by
    rw [Int.natAbs_pow]
    exact Nat.one_lt_pow hn habs
  rw [← Int.natAbs_eq_zero, Int.natAbs_tdiv]
  exact Nat.div_eq_of_lt hpow

theorem tdiv_one_neg_one_pow (n : Nat) :
    Int.tdiv 1 ((-1) ^ n) = if n % 2 = 0 then 1 else -1 := by
  rcases Nat.even_or_odd n with h | h
  · rw [h.neg_one_pow, if_pos (Nat.even_iff.mp h)]
    rfl
  · rw [h.neg_one_pow, if_neg (by rw [Nat.odd_iff.mp h]; decide)]
    rfl

namespace TwosComplement

variable {α : Type} [Mul α] [Mod α] [Neg α] [OfNat α 0] [OfNat α 1] [OfNat α 2]
variable {width : Nat} {toInt : α → Int}

/-- A negative exponent is even as a machine integer exactly if its magnitude is. -/
theorem mod_two_eq_zero_iff (h : TwosComplement width toInt) {b : α} (hb : toInt b < 0) :
    b % 2 = 0 ↔ (-toInt b).toNat % 2 = 0 := by
  rw [← h.injective.eq_iff, h.mod_two, h.zero, ← Int.dvd_iff_tmod_eq_zero]
  omega

theorem map_wholePower [DecidableEq α] (h : TwosComplement width toInt) (a b : α) :
    (wholePower toInt a b).map toInt = exactPower width (toInt a) (toInt b) := by
  rw [wholePower, exactPower]
  by_cases hb : 0 ≤ toInt b
  · rw [if_pos hb, if_pos hb]
    exact congrArg Except.ok (h.toInt_squareAndMultiply a _)
  · have hn : (-toInt b).toNat ≠ 0 := by omega
    rw [if_neg hb, if_neg hb]
    -- the program asks for the three bases whose powers it need not compute
    have hzero : a = 0 ↔ toInt a = 0 := by rw [← h.zero, h.injective.eq_iff]
    have hone : a = 1 ↔ toInt a = 1 := by rw [← h.one, h.injective.eq_iff]
    have hneg : a = -1 ↔ toInt a = -1 := by rw [← h.neg_one, h.injective.eq_iff]
    by_cases h₀ : toInt a = 0
    · rw [if_pos (hzero.mpr h₀), if_pos h₀]
      rfl
    rw [if_neg (hzero.not.mpr h₀), if_neg h₀]
    by_cases h₁ : toInt a = 1
    · rw [if_pos (hone.mpr h₁), h₁, one_pow]
      exact congrArg Except.ok h.one
    rw [if_neg (hone.not.mpr h₁)]
    by_cases h₂ : toInt a = -1
    · rw [if_pos (hneg.mpr h₂), h₂, tdiv_one_neg_one_pow]
      refine congrArg Except.ok ?_
      rw [apply_ite toInt, h.one, h.neg_one]
      simp only [h.mod_two_eq_zero_iff (Int.not_le.mp hb)]
    · rw [if_neg (hneg.not.mpr h₂), tdiv_one_pow_eq_zero h₀ h₁ h₂ hn]
      exact congrArg Except.ok h.zero

/-- A nonnegative exponent has fewer binary digits than the type. -/
theorem size_lt (h : TwosComplement width toInt) (hw : 0 < width) (b : α) :
    (toInt b).toNat.size < width := by
  have hlt : (toInt b).toNat < 2 ^ (width - 1) := by
    have hb := h.toInt_lt b
    have hpos : (0 : Int) < 2 ^ (width - 1) := by positivity
    zify
    omega
  have hsize := Nat.size_le.mpr hlt
  omega

end TwosComplement

/-! ## Powers are exact -/

/-- The powers of a number type are the powers of the integers that its values stand for; and where
the loop computes them, it ends after fewer turns than a value has bits. -/
def ExactPowers {α : Type} [Numeric α] [Mul α] [OfNat α 1] (width : Nat) (toInt : α → Int) :
    Prop :=
  ∀ a b : α,
    (Numeric.arith .pow a b).map toInt = exactPower width (toInt a) (toInt b) ∧
    (0 ≤ toInt b → ∃ turns < width, ∃ r, Numeric.arith .pow a b = .ok r ∧
      Squaring.EndsAfter ⟨1, a, (toInt b).toNat⟩ turns r)

theorem TwosComplement.exactPowers {α : Type} [DecidableEq α] [Mul α] [Mod α] [Neg α] [OfNat α 0]
    [OfNat α 1] [OfNat α 2] [Numeric α] {width : Nat} {toInt : α → Int}
    (h : TwosComplement width toInt) (hw : 0 < width)
    (hpow : ∀ a b : α, Numeric.arith .pow a b = wholePower toInt a b) :
    ExactPowers width toInt := by
  intro a b
  rw [hpow]
  refine ⟨h.map_wholePower a b, fun hb => ?_⟩
  exact ⟨_, h.size_lt hw b, _, if_pos hb, Squaring.endsAfter_size _⟩

/-- **Whole powers are exact.**  For all operands of either width, a power with an exponent that is
not negative is the power of the integers, wrapped around, and the loop that computes it ends; a
power with a negative exponent is the fraction cut off, and fails exactly if its base is zero. -/
theorem whole_powers_exact : ExactPowers 32 Int32.toInt ∧ ExactPowers 64 Int64.toInt :=
  ⟨twosComplement_int32.exactPowers (by decide) fun _ _ => rfl,
    twosComplement_int64.exactPowers (by decide) fun _ _ => rfl⟩

example : exactPower 32 0 0 = .ok 1 ∧ exactPower 32 2 31 = .ok (-2 ^ 31) ∧
    exactPower 64 (-1) (-3) = .ok (-1) ∧ exactPower 64 0 (-1) = .error .divisionByZero := by
  decide

end RegisterMachine
