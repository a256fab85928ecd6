import Mathlib
import RegisterMachine.Text.Numeral

/-!
# Numerals are read back

A number that is written in base ten is read as that number, as long as it is within the bounds of
the reader.  The proof follows the last digit: the reader goes from left to right, so what it has
read before the last digit is the number without it.
-/

namespace RegisterMachine.Text

theorem digit?_digitChar {d : Nat} (h : d < 10) : digit? d.digitChar = some d := by
  have hall : ∀ d < 10, digit? d.digitChar = some d := by decide
  exact hall d h

theorem digits?_of_ne_nil {bound : Nat} {cs : List Char} (h : cs ≠ []) :
    digits? bound cs = cs.foldlM (appendDigit? bound) 0 := by
  cases cs with
  | nil => exact absurd rfl h
  | cons c cs => rfl

/-- A number up to the bound is read back from its digits. -/
theorem digits?_toDigits {bound n : Nat} (h : n ≤ bound) :
    digits? bound (Nat.toDigits 10 n) = some n := by
  rw [digits?_of_ne_nil Nat.toDigits_ne_nil]
  induction n using Nat.strong_induction_on with
  | _ n ih =>
      by_cases hn : n < 10
      · rw [Nat.toDigits_of_lt_base hn]
        simp [appendDigit?, digit?_digitChar hn, h]
      · have hlast : n % 10 < 10 := Nat.mod_lt n (by decide)
        have hnext : 10 * (n / 10) + n % 10 = n := Nat.div_add_mod n 10
        rw [Nat.toDigits_of_base_le (by decide) (Nat.le_of_not_lt hn), List.foldlM_append,
          ih (n / 10) (by omega) (by omega)]
        simp [appendDigit?, digit?_digitChar hlast, hnext, h]

theorem isDigit_of_head_toDigits {n : Nat} {c : Char} {cs : List Char}
    (h : Nat.toDigits 10 n = c :: cs) : c.isDigit = true :=
  Nat.isDigit_of_mem_toDigits (by decide) (by decide) (h ▸ List.mem_cons_self)

theorem natural?_toDigits {bound n : Nat} (h : n ≤ bound) :
    natural? bound (Nat.toDigits 10 n) = some n := by
  rw [natural?, digits?_toDigits h]
  intro rest hdigits
  exact absurd (isDigit_of_head_toDigits hdigits) (by decide)

theorem uint8?_toDigits {n : Nat} (h : n ≤ 0xff) :
    uint8? (String.ofList (Nat.toDigits 10 n)) = some (UInt8.ofNat n) := by
  rw [uint8?, String.toList_ofList, natural?_toDigits h]
  rfl

theorem uint16?_toDigits {n : Nat} (h : n ≤ 0xffff) :
    uint16? (String.ofList (Nat.toDigits 10 n)) = some (UInt16.ofNat n) := by
  rw [uint16?, String.toList_ofList, natural?_toDigits h]
  rfl

theorem integer?_toDigits {bound n : Nat} (h : n ≤ bound) :
    integer? bound (Nat.toDigits 10 n) = some (n : Int) := by
  rw [integer?, digits?_toDigits h]
  · rfl
  · intro rest hdigits
    exact absurd (isDigit_of_head_toDigits hdigits) (by decide)
  · intro rest hdigits
    exact absurd (isDigit_of_head_toDigits hdigits) (by decide)

/-- A whole number is read back with its sign. -/
theorem integer?_toString {bound : Nat} {i : Int} (hlow : -(bound : Int) - 1 ≤ i)
    (hhigh : i ≤ bound) : integer? bound (toString i).toList = some i := by
  cases i with
  | ofNat n =>
      have hdigits : (toString (Int.ofNat n)).toList = Nat.toDigits 10 n := Nat.toList_repr
      rw [hdigits, integer?_toDigits (by simpa using hhigh)]
      rfl
  | negSucc n =>
      have hdigits : (toString (Int.negSucc n)).toList = '-' :: Nat.toDigits 10 (n + 1) := by
        show ("-" ++ (n + 1).repr).toList = _
        rw [String.toList_append, Nat.toList_repr]
        rfl
      have hle : n + 1 ≤ bound + 1 := by omega
      rw [hdigits, integer?, digits?_toDigits hle]
      rfl

theorem int16?_toString (i : Int16) : int16? (toString i) = some i := by
  have hlow : -((0x7fff : Nat) : Int) - 1 ≤ i.toInt := i.le_toInt
  have hhigh : i.toInt ≤ ((0x7fff : Nat) : Int) := Int.le_of_lt_add_one i.toInt_lt
  have htext : toString i = toString i.toInt := rfl
  rw [int16?, htext, integer?_toString hlow hhigh, Option.map_some, Int16.ofInt_toInt]

end RegisterMachine.Text
