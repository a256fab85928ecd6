import Mathlib
import RegisterMachine.Proofs.Plan

/-!
# The heap's invariant

`Heap.Valid` ties the three parts of the heap together: the free list names each empty slot once
and nothing else, and the count of live elements is the sum of the lengths of all arrays.  Every
operation keeps it.  So a slot from the free list is there and is empty, and a length can be taken
off the count.
-/

namespace RegisterMachine

/-- Number of elements in a slot. -/
def HeapSlot.size (slot : HeapSlot) : Nat :=
  match slot.array with
  | some array => array.elements.size
  | none => 0

namespace Heap

/-- Number of elements of all arrays. -/
def elementCount (heap : Heap) : Nat := (heap.slots.toList.map HeapSlot.size).sum

/-- The parts of the heap fit together. -/
structure Valid (heap : Heap) : Prop where
  nodup : heap.free.Nodup
  mem_free : ∀ i : UInt32, i ∈ heap.free ↔
    ∃ slot, heap.slots[i.toNat]? = some slot ∧ slot.array = none
  live : heap.liveElements = heap.elementCount
  within : heap.liveElements ≤ heap.limit
  addressable : heap.slots.size ≤ UInt32.size

/-! ## Slots -/

theorem get?_eq_some {heap : Heap} {handle : Handle} {array : HeapArray} :
    heap.get? handle = some array ↔ ∃ slot, heap.slots[handle.index.toNat]? = some slot ∧
      slot.generation = handle.generation ∧ slot.array = some array := by
  rw [get?]
  cases hs : heap.slots[handle.index.toNat]? with
  | none => simp
  | some slot =>
      simp only [Option.some.injEq, exists_eq_left']
      split <;> simp_all

theorem handle_eq_iff {a b : Handle} : a = b ↔ a.index = b.index ∧ a.generation = b.generation := by
  cases a
  cases b
  exact Handle.mk.injEq .. ▸ Iff.rfl

/-- Two live handles of one slot are the same handle. -/
theorem eq_of_live {heap : Heap} {a b : Handle} {x y : HeapArray} (ha : heap.get? a = some x)
    (hb : heap.get? b = some y) (hi : a.index = b.index) : a = b := by
  obtain ⟨slot, hs, hg, -⟩ := get?_eq_some.mp ha
  obtain ⟨slot', hs', hg', -⟩ := get?_eq_some.mp hb
  rw [hi] at hs
  cases hs.symm.trans hs'
  exact handle_eq_iff.mpr ⟨hi, hg.symm.trans hg'⟩

theorem sum_modify (f : HeapSlot → HeapSlot) :
    ∀ (slots : List HeapSlot) (i : Nat) (slot : HeapSlot), slots[i]? = some slot →
      ((slots.modify i f).map HeapSlot.size).sum + slot.size
        = (slots.map HeapSlot.size).sum + (f slot).size := by
  intro slots
  induction slots with
  | nil => intro i slot h; simp at h
  | cons head rest ih =>
      intro i slot h
      cases i with
      | zero =>
          simp only [List.getElem?_cons_zero, Option.some.injEq] at h
          subst h
          simp only [List.modify_zero_cons, List.map_cons, List.sum_cons]
          omega
      | succ i =>
          simp only [List.getElem?_cons_succ] at h
          have := ih i slot h
          simp only [List.modify_succ_cons, List.map_cons, List.sum_cons]
          omega

/-- Changing one slot changes the number of elements by the change of that slot's. -/
theorem elementCount_modify {heap : Heap} {i : Nat} {slot : HeapSlot}
    (h : heap.slots[i]? = some slot) (f : HeapSlot → HeapSlot) :
    elementCount { heap with slots := heap.slots.modify i f } + slot.size
      = heap.elementCount + (f slot).size := by
  rw [← Array.getElem?_toList] at h
  simp only [elementCount, Array.toList_modify]
  exact sum_modify f _ i slot h

theorem slot_size_le {heap : Heap} {i : Nat} {slot : HeapSlot}
    (h : heap.slots[i]? = some slot) : slot.size ≤ heap.elementCount := by
  have hm : slot ∈ heap.slots.toList := by simpa using Array.mem_of_getElem? h
  exact List.le_sum_of_mem (List.mem_map_of_mem hm)

theorem size_of_array {slot : HeapSlot} {array : HeapArray} (h : slot.array = some array) :
    slot.size = array.elements.size := by
  rw [HeapSlot.size, h]

theorem size_of_empty {slot : HeapSlot} (h : slot.array = none) : slot.size = 0 := by
  rw [HeapSlot.size, h]

/-- An array that is not refused fits. -/
theorem fits_of_refusal? {heap : Heap} {size : Nat} (h : heap.refusal? size = none) :
    heap.liveElements + size ≤ heap.limit ∧
    (heap.free = [] → heap.slots.size < UInt32.size) := by
  rw [refusal?] at h
  split at h
  · exact nomatch h
  · rename_i hn
    simp only [not_or, not_and, Nat.not_lt, Nat.not_le, List.isEmpty_iff] at hn
    exact ⟨hn.1, hn.2.2⟩

theorem limit_place (heap : Heap) (size : Nat) (fill : Value) :
    (heap.place size fill).2.limit = heap.limit := by
  rw [place]
  split <;> rfl

/-! ## The operations keep the invariant -/

namespace Valid

variable {heap : Heap}

theorem empty (memory : Memory) (limit : Nat) : Valid (Heap.empty memory limit) where
  nodup := List.nodup_nil
  mem_free i := by simp [Heap.empty]
  live := rfl
  within := Nat.zero_le _
  addressable := Nat.zero_le _

/-- A slot that the free list names is there and empty. -/
theorem slot_of_free (h : heap.Valid) {i : UInt32} {rest : List UInt32}
    (hf : heap.free = i :: rest) :
    ∃ slot, heap.slots[i.toNat]? = some slot ∧ slot.array = none := by
  apply (h.mem_free i).mp
  rw [hf]
  exact List.mem_cons_self

/-- A live array is no longer than the count of live elements. -/
theorem size_le_live (h : heap.Valid) {handle : Handle} {array : HeapArray}
    (ha : heap.get? handle = some array) : array.elements.size ≤ heap.liveElements := by
  obtain ⟨slot, hs, -, hsa⟩ := get?_eq_some.mp ha
  rw [h.live, ← size_of_array hsa]
  exact slot_size_le hs

theorem place (h : heap.Valid) {size : Nat} (hr : heap.refusal? size = none) (fill : Value) :
    (heap.place size fill).2.Valid := by
  obtain ⟨hfits, hroom⟩ := fits_of_refusal? hr
  cases hf : heap.free with
  | cons i rest =>
      obtain ⟨slot, hs, hempty⟩ := h.slot_of_free hf
      have hnd := h.nodup
      rw [hf, List.nodup_cons] at hnd
      simp only [Heap.place, hf]
      refine ⟨hnd.2, ?_, ?_, hfits, by simpa using h.addressable⟩
      · intro j
        have hj := h.mem_free j
        rw [hf, List.mem_cons] at hj
        rw [Array.getElem?_modify]
        by_cases hij : i = j
        · subst hij
          simp [hs, hnd.1]
        · rw [if_neg (by rwa [UInt32.toNat_inj]), ← hj]
          simp [Ne.symm hij]
      · have hc := elementCount_modify hs fun slot =>
          { slot with array := some ⟨1, Array.replicate size fill⟩ }
        rw [size_of_empty hempty, size_of_array rfl, Array.size_replicate, ← h.live] at hc
        exact hc.symm
  | nil =>
      simp only [Heap.place, hf]
      have hroom := hroom hf
      refine ⟨List.nodup_nil, ?_, ?_, hfits, by rw [Array.size_push]; exact hroom⟩
      · intro j
        have hj := h.mem_free j
        rw [hf] at hj
        simp only [List.not_mem_nil, false_iff] at hj ⊢
        rintro ⟨slot, hs, hempty⟩
        rw [Array.getElem?_push] at hs
        split at hs
        · cases hs
          exact nomatch hempty
        · exact hj ⟨slot, hs, hempty⟩
      · simp [elementCount, HeapSlot.size, h.live]

theorem release (h : heap.Valid) {handle : Handle} {array : HeapArray}
    (ha : heap.get? handle = some array) : (heap.release handle).Valid := by
  obtain ⟨slot, hs, -, hsa⟩ := get?_eq_some.mp ha
  have hnot : handle.index ∉ heap.free := by
    intro hm
    obtain ⟨slot', hs', hempty⟩ := (h.mem_free _).mp hm
    cases hs.symm.trans hs'
    exact nomatch hsa.symm.trans hempty
  simp only [Heap.release, ha]
  refine ⟨List.nodup_cons.mpr ⟨hnot, h.nodup⟩, ?_, ?_, ?_, by simpa using h.addressable⟩
  · intro j
    rw [List.mem_cons, Array.getElem?_modify]
    by_cases hj : handle.index = j
    · subst hj
      simp [hs]
    · rw [if_neg (by rwa [UInt32.toNat_inj]), ← h.mem_free j]
      simp [Ne.symm hj]
  · have hc := elementCount_modify hs fun slot => ⟨slot.generation + 1, none⟩
    rw [size_of_array hsa, size_of_empty rfl, ← h.live] at hc
    exact (Nat.eq_sub_of_add_eq hc).symm
  · exact Nat.le_trans (Nat.sub_le _ _) h.within

/-- A change of a live array that keeps its length. -/
theorem update (h : heap.Valid) {handle : Handle} {array : HeapArray}
    (ha : heap.get? handle = some array) {change : HeapArray → HeapArray}
    (hc : (change array).elements.size = array.elements.size) :
    (heap.update handle change).Valid := by
  obtain ⟨slot, hs, -, hsa⟩ := get?_eq_some.mp ha
  refine ⟨h.nodup, ?_, ?_, h.within, by simpa [Heap.update] using h.addressable⟩
  · intro j
    rw [Heap.update, h.mem_free j, Array.getElem?_modify]
    split
    · cases heap.slots[j.toNat]? with
      | none => simp
      | some slot => simp
    · rfl
  · have hsum := elementCount_modify hs fun slot =>
      { slot with array := slot.array.map change }
    have hchanged : HeapSlot.size { slot with array := slot.array.map change }
        = array.elements.size := by
      rw [hsa, size_of_array rfl, hc]
    rw [size_of_array hsa, hchanged, ← h.live] at hsum
    exact (Nat.add_right_cancel hsum).symm

theorem setRefcount (h : heap.Valid) {handle : Handle} {array : HeapArray}
    (ha : heap.get? handle = some array) (count : UInt32) :
    (heap.setRefcount handle count).Valid :=
  h.update ha rfl

theorem setElement (h : heap.Valid) {handle : Handle} {array : HeapArray}
    (ha : heap.get? handle = some array) (place : Nat) (value : Value) :
    (heap.setElement handle place value).Valid :=
  h.update ha Array.size_setIfInBounds

end Valid

end Heap

end RegisterMachine
