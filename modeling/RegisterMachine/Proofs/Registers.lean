import Mathlib
import RegisterMachine.Machine.Registers

/-!
# The register file, read back

What a register holds after each operation on the file.  A window that was saved is restored
register by register, and two files have the same window exactly if all reads below its size agree;
the proofs about calls use these lemmas only and never open the operations.
-/

namespace RegisterMachine.Registers

/-! ## Single registers -/

theorem getElem?_toArray (registers : Registers) (r : UInt8) :
    registers.toArray[r.toNat]? = some (registers.read r) := by
  have h : r.toNat < registers.toArray.size := by simp [r.toNat_lt]
  rw [Array.getElem?_eq_getElem h]
  rfl

theorem read_set (registers : Registers) (i : Nat) (value : Value) (h : i < 256) (r : UInt8) :
    read (registers.set i value h) r = if i = r.toNat then value else registers.read r := by
  have hr : r.toNat < 256 := r.toNat_lt
  show (registers.set i value h)[r.toNat] = if i = r.toNat then value else registers[r.toNat]
  exact Vector.getElem_set h hr

theorem read_write (registers : Registers) (r s : UInt8) (value : Value) :
    (registers.write r value).read s = if r = s then value else registers.read s := by
  rw [write, read_set]
  simp only [UInt8.toNat_inj]

@[simp] theorem read_write_self (registers : Registers) (r : UInt8) (value : Value) :
    (registers.write r value).read r = value := by
  rw [read_write, if_pos rfl]

theorem read_write_of_ne (registers : Registers) {r s : UInt8} (value : Value) (h : r ≠ s) :
    (registers.write r value).read s = registers.read s := by
  rw [read_write, if_neg h]

/-! ## Runs of registers -/

/-- The values of a list land in the registers from `start` on; values past the last register are
dropped. -/
theorem read_fillFrom (r : UInt8) :
    ∀ (values : List Value) (registers : Registers) (start : Nat),
      (fillFrom registers start values).read r
        = if start ≤ r.toNat then values[r.toNat - start]?.getD (registers.read r)
          else registers.read r := by
  intro values
  induction values with
  | nil => intro registers start; simp [fillFrom]
  | cons value rest ih =>
      intro registers start
      have hr : r.toNat < 256 := r.toNat_lt
      by_cases hs : start < 256
      · simp only [fillFrom, hs, dite_true, ih, read_set]
        rcases Nat.lt_trichotomy start r.toNat with h | h | h
        · obtain ⟨k, hk⟩ : ∃ k, r.toNat - start = k + 1 := ⟨r.toNat - start - 1, by omega⟩
          have hk' : r.toNat - (start + 1) = k := by omega
          rw [if_pos (by omega), if_neg (by omega), if_pos (by omega), hk, hk']
          rfl
        · rw [if_neg (by omega), if_pos h, if_pos (by omega), h, Nat.sub_self]
          rfl
        · rw [if_neg (by omega), if_neg (by omega), if_neg (by omega)]
      · rw [if_neg (by omega)]
        simp only [fillFrom, hs, dite_false]

/-- A restored window covers the registers below its size and leaves the others. -/
theorem read_restore (registers : Registers) (saved : Array Value) (r : UInt8) :
    (registers.restore saved).read r = saved[r.toNat]?.getD (registers.read r) := by
  simp [restore, read_fillFrom]

/-- A fresh window: the arguments, then zeros up to its size, then what was there. -/
theorem read_enter (registers : Registers) (size : Nat) (arguments : Array Value) (r : UInt8) :
    (registers.enter size arguments).read r
      = arguments[r.toNat]?.getD
          (if r.toNat < max size arguments.size then Value.zero else registers.read r) := by
  have hr : r.toNat < 256 := r.toNat_lt
  simp only [enter, read_fillFrom, Nat.zero_le, if_true, Nat.sub_zero, Array.getElem?_toList,
    List.getElem?_replicate]
  by_cases h : r.toNat < max size arguments.size
  · rw [if_pos h, if_pos (by omega)]
    rfl
  · rw [if_neg h, if_neg (by omega)]
    rfl

/-! ## Saved windows -/

@[simp] theorem size_window (registers : Registers) (count : Nat) :
    (registers.window count).size = min count 256 := by
  simp [window]

theorem getElem?_window (registers : Registers) (count : Nat) (r : UInt8) :
    (registers.window count)[r.toNat]?
      = if r.toNat < count then some (registers.read r) else none := by
  have hr : r.toNat < 256 := r.toNat_lt
  rw [window, Array.getElem?_extract, Nat.zero_add, getElem?_toArray]
  by_cases h : r.toNat < count
  · rw [if_pos h, if_pos (by simp; omega)]
  · rw [if_neg h, if_neg (by simp; omega)]

/-- What was saved is read back below the size of the window, whatever happened to the file in
between. -/
theorem read_restore_window (registers before : Registers) (count : Nat) (r : UInt8) :
    (registers.restore (before.window count)).read r
      = if r.toNat < count then before.read r else registers.read r := by
  rw [read_restore, getElem?_window]
  split <;> rfl

/-- Two files have the same window exactly if they agree on each register below its size. -/
theorem window_eq_iff {a b : Registers} {count : Nat} :
    a.window count = b.window count ↔ ∀ r : UInt8, r.toNat < count → a.read r = b.read r := by
  constructor
  · intro h r hr
    have hw : (a.window count)[r.toNat]? = (b.window count)[r.toNat]? := by rw [h]
    rw [getElem?_window, getElem?_window, if_pos hr, if_pos hr] at hw
    exact Option.some.inj hw
  · intro h
    apply Array.ext_getElem?
    intro i
    by_cases hi : i < 256
    · have hr : (UInt8.ofNat i).toNat = i := UInt8.toNat_ofNat_of_lt hi
      rw [← hr, getElem?_window, getElem?_window]
      by_cases hc : (UInt8.ofNat i).toNat < count
      · rw [if_pos hc, if_pos hc, h _ hc]
      · rw [if_neg hc, if_neg hc]
    · rw [Array.getElem?_eq_none (by simp; omega), Array.getElem?_eq_none (by simp; omega)]

/-- Arguments that lie within a common window are the same. -/
theorem range_eq {a b : Registers} {count : Nat} (h : a.window count = b.window count)
    {first : UInt8} {n : Nat} (hn : first.toNat + n ≤ count) :
    a.range first n = b.range first n := by
  apply Array.ext_getElem?
  intro i
  rw [range, range, Array.getElem?_extract, Array.getElem?_extract]
  simp only [Vector.size_toArray]
  split
  · rename_i hi
    have hr : (UInt8.ofNat (first.toNat + i)).toNat = first.toNat + i :=
      UInt8.toNat_ofNat_of_lt (show first.toNat + i < 256 by omega)
    rw [← hr, getElem?_toArray, getElem?_toArray, window_eq_iff.mp h _ (by omega)]
  · rfl

theorem size_range {registers : Registers} {first : UInt8} {n : Nat} (h : first.toNat + n ≤ 256) :
    (registers.range first n).size = n := by
  simp [range]; omega

end RegisterMachine.Registers
