import Mathlib
import RegisterMachine.Proofs.HeapHistory

/-!
# The heap as a store

A `Store` is all that a client can know of a heap: for each handle, the reference count and the
elements of its array, or nothing.  It has no slots, no generations and no free list.
`Store.serve` answers every call in these terms; the handle of a new array may be any that is not in
use.  `implements_store` says that the heap answers every history as a store does.

A store never runs out of memory.  The heap is made in some memory, of which nothing is known, and
answers as the store does as long as that memory has room for what the limit allows
(`AccommodatesAll`).

A store adds up all lengths where the heap keeps a count, so the two meet in one fact about sums:
over all `2 ^ 64` handles, the live arrays are those in the slots, each once (`sum_get?`).
-/

namespace RegisterMachine

/-- What a store has for a handle in use. -/
structure Cell where
  refcount : Nat
  elements : List Value

/-- The element at an index, if there is one. -/
def Cell.element? (cell : Cell) (index : Int) : Option Value :=
  if 0 ≤ index then cell.elements[index.toNat]? else none

/-- For each handle in use its cell. -/
abbrev Store := Handle → Option Cell

def Handle.ofPair : UInt32 × UInt32 ≃ Handle where
  toFun pair := ⟨pair.1, pair.2⟩
  invFun handle := (handle.index, handle.generation)
  left_inv _ := rfl
  right_inv _ := rfl

instance : Fintype Handle := Fintype.ofEquiv _ Handle.ofPair

namespace Store

open Heap (Call Reply)

/-- The store without cells. -/
def empty : Store := fun _ => none

/-- Number of elements of all cells. -/
def total (s : Store) : Nat := ∑ handle : Handle, (s handle).elim 0 fun cell => cell.elements.length

/-- Number of handles in use. -/
def count (s : Store) : Nat := (Finset.univ.filter fun handle : Handle => (s handle).isSome).card

/-- Answers a call about the cell of a handle; without a cell the call is refused. -/
def atCell (s : Store) (handle : Handle) (reason : String)
    (answer : Cell → Attempt Store Reply) : Attempt Store Reply :=
  match s handle with
  | none => (.error (.heapInvariant handle.index reason), s)
  | some cell => answer cell

/-- Answers a call.  A new array gets the handle `fresh`. -/
def serve (limit : Nat) (fresh : Handle) (s : Store) : Call → Attempt Store Reply
  | .allocate size fill =>
    if limit < s.total + size then (.error (.outOfMemory size), s)
    else (.ok (.handle fresh), Function.update s fresh (some ⟨1, List.replicate size fill⟩))
  | .deallocate handle ignore => s.atCell handle "double free" fun cell =>
    if cell.refcount = 0 ∨ ignore then (.ok .done, Function.update s handle none)
    else
      (.error (.heapInvariant handle.index "free of an array that is still referenced"), s)
  | .refInc handle => s.atCell handle "use of a freed array" fun cell =>
    if cell.refcount = 2 ^ 32 - 1 then
      (.error (.heapInvariant handle.index "refcount overflow"), s)
    else
      (.ok .done, Function.update s handle (some { cell with refcount := cell.refcount + 1 }))
  | .refDec handle => s.atCell handle "use of a freed array" fun cell =>
    if cell.refcount = 0 then
      (.error (.heapInvariant handle.index "refcount would drop below zero"), s)
    else
      (.ok .done, Function.update s handle (some { cell with refcount := cell.refcount - 1 }))
  | .store handle index value => s.atCell handle "use of a freed array" fun cell =>
    if 0 ≤ index ∧ index < cell.elements.length then
      let elements := cell.elements.set index.toNat value
      (.ok .done, Function.update s handle (some { cell with elements }))
    else (.error (.indexOutOfRange index cell.elements.length), s)
  | .load handle index => s.atCell handle "use of a freed array" fun cell =>
    match cell.element? index with
    | some value => (.ok (.value value), s)
    | none => (.error (.indexOutOfRange index cell.elements.length), s)
  | .length handle => s.atCell handle "use of a freed array" fun cell =>
    (.ok (.number cell.elements.length), s)
  | .refcount handle => s.atCell handle "use of a freed array" fun cell =>
    (.ok (.number cell.refcount), s)

/-- `Run limit s calls results s'`: a store answers the calls with these results and ends as
`s'`. -/
inductive Run (limit : Nat) : Store → List Call → List (Except Error Reply) → Store → Prop where
  | nil (s : Store) : Run limit s [] [] s
  | cons {s s' s'' : Store} {call : Call} {result : Except Error Reply} {calls : List Call}
      {results : List (Except Error Reply)} {fresh : Handle} (hfresh : s fresh = none)
      (hserve : s.serve limit fresh call = (result, s')) (hrest : Run limit s' calls results s'') :
      Run limit s (call :: calls) (result :: results) s''

end Store

/-- What a store has for an array. -/
def HeapArray.cell (array : HeapArray) : Cell := ⟨array.refcount.toNat, array.elements.toList⟩

namespace Heap

variable {heap : Heap}

/-! ## Sums over all handles -/

/-- A sum over the indices of slots is a sum over the slots. -/
theorem sum_slots (ha : heap.slots.size ≤ UInt32.size) (f : HeapSlot → Nat) :
    ∑ i : UInt32, heap.slots[i.toNat]?.elim 0 f = (heap.slots.toList.map f).sum := by
  have hindex : ∀ k : Fin (heap.slots.toList.map f).length, (UInt32.ofNat k).toNat = k := by
    intro k
    refine UInt32.toNat_ofNat_of_lt (Nat.lt_of_lt_of_le k.isLt ?_)
    simpa using ha
  rw [← Fin.sum_univ_getElem]
  symm
  refine Finset.sum_of_injOn (fun k => UInt32.ofNat k) ?_ (fun _ _ => Finset.mem_univ _) ?_ ?_
  · intro k _ l _ hkl
    rw [← Fin.val_inj, ← hindex k, ← hindex l]
    exact congrArg UInt32.toNat hkl
  · -- an index that is none of these is past the last slot
    intro i _ hi
    have hsize : heap.slots.size ≤ i.toNat := by
      refine Nat.le_of_not_lt fun hlt => hi ⟨⟨i.toNat, by simpa using hlt⟩, Finset.mem_univ _, ?_⟩
      exact UInt32.ofNat_toNat
    rw [Array.getElem?_eq_none hsize]
    rfl
  · intro k _
    have hk : k.val < heap.slots.size := by simpa using k.isLt
    rw [hindex k, Array.getElem?_eq_getElem hk]
    simp

/-- The live handles of one slot, of which there is one at most. -/
theorem sum_generations (i : UInt32) (f : HeapArray → Nat) :
    ∑ generation : UInt32, (heap.get? ⟨i, generation⟩).elim 0 f
      = heap.slots[i.toNat]?.elim 0 fun slot => slot.array.elim 0 f := by
  cases hs : heap.slots[i.toNat]? with
  | none =>
      refine Finset.sum_eq_zero fun generation _ => ?_
      rw [get?, hs]
      rfl
  | some slot =>
      have hget : ∀ generation, (heap.get? ⟨i, generation⟩).elim 0 f
          = if slot.generation = generation then slot.array.elim 0 f else 0 := by
        intro generation
        rw [get?_of_slot hs, apply_ite fun array => Option.elim array 0 f]
        rfl
      simp only [hget, Finset.sum_ite_eq, Finset.mem_univ, if_true]
      rfl

/-- Summed over all handles, the live arrays are those in the slots. -/
theorem sum_get? (ha : heap.slots.size ≤ UInt32.size) (f : HeapArray → Nat) :
    ∑ handle : Handle, (heap.get? handle).elim 0 f
      = (heap.slots.toList.map fun slot => slot.array.elim 0 f).sum := by
  rw [← Handle.ofPair.sum_comp, Fintype.sum_prod_type, ← sum_slots ha]
  exact Finset.sum_congr rfl fun i _ => sum_generations i f

/-! ## The store that a heap stands for -/

/-- The cells of the live handles. -/
def cells (heap : Heap) : Store := Option.map HeapArray.cell ∘ heap.get?

theorem cells_of_live {handle : Handle} {array : HeapArray} (ha : heap.get? handle = some array) :
    heap.cells handle = some array.cell := by
  rw [cells, Function.comp_apply, ha]
  rfl

theorem cells_of_dead {handle : Handle} (hd : heap.get? handle = none) :
    heap.cells handle = none := by
  rw [cells, Function.comp_apply, hd]
  rfl

theorem cells_empty (memory : Memory) (limit : Nat) : (empty memory limit).cells = Store.empty := by
  funext handle
  exact cells_of_dead (by rw [get?]; rfl)

theorem cells_release {handle : Handle} {array : HeapArray} (ha : heap.get? handle = some array) :
    (heap.release handle).cells = Function.update heap.cells handle none := by
  rw [cells, get?_release ha, Function.comp_update]
  rfl

theorem cells_update {handle : Handle} {array : HeapArray} (ha : heap.get? handle = some array)
    (change : HeapArray → HeapArray) :
    (heap.update handle change).cells
      = Function.update heap.cells handle (some (change array).cell) := by
  rw [cells, get?_update ha, Function.comp_update]
  rfl

theorem cells_place (h : heap.Valid) {size : Nat} (hr : heap.refusal? size = none) (fill : Value) :
    (heap.place size fill).2.cells
      = Function.update heap.cells (heap.place size fill).1
        (some ⟨1, List.replicate size fill⟩) := by
  rw [cells, (get?_place h hr fill).2, Function.comp_update]
  simp [HeapArray.cell, cells]

/-- The count of live elements is the sum of all lengths. -/
theorem total_cells (h : heap.Valid) : heap.cells.total = heap.liveElements := by
  rw [h.live, elementCount, Store.total]
  have hcell : ∀ handle, (heap.cells handle).elim 0 (fun cell => cell.elements.length)
      = (heap.get? handle).elim 0 fun array => array.elements.size := by
    intro handle
    rw [cells, Function.comp_apply, Option.elim_map]
    rfl
  have hslot : ∀ slot : HeapSlot,
      slot.size = slot.array.elim 0 fun array => array.elements.size := by
    intro slot
    rw [HeapSlot.size]
    cases slot.array <;> rfl
  simp only [hcell, sum_get? h.addressable, funext hslot]

theorem sum_occupied (slots : List HeapSlot) :
    (slots.map fun slot => slot.array.elim 0 fun _ => 1).sum
      = slots.countP fun slot => slot.array.isSome := by
  induction slots with
  | nil => rfl
  | cons slot rest ih =>
      rw [List.map_cons, List.sum_cons, ih, List.countP_cons, Nat.add_comm]
      cases slot.array <;> rfl

/-- As many handles are in use as slots are occupied. -/
theorem count_cells (h : heap.Valid) : heap.cells.count = heap.liveArrays := by
  have hcell : ∀ handle, (if (heap.cells handle).isSome then 1 else 0)
      = (heap.get? handle).elim 0 fun _ => 1 := by
    intro handle
    rw [cells, Function.comp_apply]
    cases heap.get? handle <;> rfl
  rw [Store.count, Finset.card_filter]
  simp only [hcell, sum_get? h.addressable, sum_occupied]
  rw [liveArrays, Array.countP_toList]

/-- Some handle is always dead. -/
theorem exists_dead (heap : Heap) : ∃ handle, heap.get? handle = none := by
  cases hs : heap.slots[(0 : UInt32).toNat]? with
  | none => exact ⟨⟨0, 0⟩, by rw [get?, hs]⟩
  | some slot =>
      refine ⟨⟨0, slot.generation + 1⟩, ?_⟩
      rw [get?_of_slot hs, if_neg]
      simp

/-! ## A heap serves as its store does -/

/-- There is room for what a call allocates within the limit: the memory reserves the elements, and
fewer than `2 ^ 32` arrays are live. -/
def Accommodates (heap : Heap) : Call → Prop
  | .allocate size _ =>
    heap.liveElements + size ≤ heap.limit →
      heap.memory.reserves heap.liveElements size = true ∧ heap.liveArrays < 2 ^ 32
  | _ => True

/-- There is room for each of the calls. -/
def AccommodatesAll (heap : Heap) : List Call → Prop
  | [] => True
  | call :: rest => heap.Accommodates call ∧ (heap.perform call).2.AccommodatesAll rest

/-- Where no slot is free, every slot is occupied. -/
theorem liveArrays_of_free_nil (h : heap.Valid) (hf : heap.free = []) :
    heap.liveArrays = heap.slots.size := by
  rw [liveArrays, Array.countP_eq_size]
  intro slot hm
  obtain ⟨k, hk, hs⟩ := Array.mem_iff_getElem.mp hm
  rw [Option.isSome_iff_ne_none]
  intro hempty
  obtain ⟨index, hfree, -⟩ := (h.exists_free_iff k).mpr
    ⟨slot, by rw [Array.getElem?_eq_getElem hk, hs], hempty⟩
  rw [hf] at hfree
  cases hfree

/-- Where there is room only the limit counts. -/
theorem refusal?_of_accommodates (h : heap.Valid) {size : Nat} {fill : Value}
    (hroom : heap.Accommodates (.allocate size fill)) :
    heap.refusal? size
      = if heap.limit < heap.liveElements + size then some (.outOfMemory size) else none := by
  rw [refusal?]
  by_cases hlimit : heap.limit < heap.liveElements + size
  · rw [if_pos hlimit, if_pos (.inl hlimit)]
  · obtain ⟨hreserve, hlive⟩ := hroom (Nat.le_of_not_lt hlimit)
    rw [if_neg hlimit, if_neg]
    rintro (hl | hr | ⟨hempty, hfull⟩)
    · exact hlimit hl
    · cases hreserve.symm.trans hr
    · rw [liveArrays_of_free_nil h (List.isEmpty_iff.mp hempty)] at hlive
      exact Nat.not_lt.mpr hfull hlive

section AtCell

variable {handle : Handle} {array : HeapArray} {reason : String}
  {answer : Cell → Attempt Store Reply}

theorem atCell_of_live (ha : heap.get? handle = some array) :
    heap.cells.atCell handle reason answer = answer array.cell := by
  rw [Store.atCell, cells_of_live ha]

theorem atCell_of_dead (hd : heap.get? handle = none) :
    heap.cells.atCell handle reason answer
      = (.error (.heapInvariant handle.index reason), heap.cells) := by
  rw [Store.atCell, cells_of_dead hd]

end AtCell

theorem cell_refcount_eq_zero {array : HeapArray} :
    array.cell.refcount = 0 ↔ array.refcount = 0 := UInt32.toNat_inj (b := 0)

theorem checkFree_of_live {handle : Handle} {array : HeapArray}
    (ha : heap.get? handle = some array) (ignore : Bool) :
    heap.checkFree handle ignore =
      if array.refcount = 0 ∨ ignore = true then .ok ()
      else .error (.heapInvariant handle.index "free of an array that is still referenced") := by
  rw [checkFree, ha]
  by_cases hfree : array.refcount = 0 ∨ ignore = true
  · rw [if_pos hfree]
    refine if_neg ?_
    rintro ⟨hpos, hkeep⟩
    rcases hfree with hzero | hignore
    · exact UInt32.pos_iff_ne_zero.mp hpos hzero
    · rw [hignore] at hkeep
      cases hkeep
  · rw [if_neg hfree]
    rw [not_or] at hfree
    exact if_pos ⟨UInt32.pos_iff_ne_zero.mpr hfree.1, by simpa using hfree.2⟩

theorem checkInc_of_live {handle : Handle} {array : HeapArray}
    (ha : heap.get? handle = some array) :
    heap.checkInc handle =
      if array.refcount = 0xffffffff then
        .error (.heapInvariant handle.index "refcount overflow")
      else .ok (array.refcount + 1) := by
  rw [checkInc, get_of_live ha]
  by_cases hmax : array.refcount = 0xffffffff
  · rw [if_pos hmax]
    exact if_pos hmax
  · rw [if_neg hmax]
    exact if_neg hmax

theorem checkDec_of_live {handle : Handle} {array : HeapArray}
    (ha : heap.get? handle = some array) :
    heap.checkDec handle =
      if array.refcount = 0 then
        .error (.heapInvariant handle.index "refcount would drop below zero")
      else .ok (array.refcount - 1) := by
  rw [checkDec, get_of_live ha]
  by_cases hzero : array.refcount = 0
  · rw [if_pos hzero]
    exact if_pos hzero
  · rw [if_neg hzero]
    exact if_neg hzero

/-- The answer of a heap, with the store that it stands for afterwards. -/
def observe (heap : Heap) (call : Call) : Attempt Store Reply :=
  ((heap.perform call).1, (heap.perform call).2.cells)

theorem observe_allocate (h : heap.Valid) {size : Nat} {fill : Value}
    (hroom : heap.Accommodates (.allocate size fill)) :
    ∃ fresh, heap.cells fresh = none ∧
      heap.observe (.allocate size fill)
        = heap.cells.serve heap.limit fresh (.allocate size fill) := by
  have hr := refusal?_of_accommodates h hroom
  simp only [Store.serve, total_cells h, observe, perform, allocate]
  by_cases hlimit : heap.limit < heap.liveElements + size
  · rw [if_pos hlimit] at hr
    simp only [if_pos hlimit, hr]
    obtain ⟨fresh, hdead⟩ := exists_dead heap
    exact ⟨fresh, cells_of_dead hdead, rfl⟩
  · rw [if_neg hlimit] at hr
    simp only [if_neg hlimit, hr]
    refine ⟨(heap.place size fill).1, cells_of_dead (get?_place h hr fill).1, ?_⟩
    rw [← cells_place h hr fill]
    rfl

section

variable (heap) (limit : Nat) (fresh handle : Handle)

theorem observe_deallocate (ignore : Bool) :
    heap.observe (.deallocate handle ignore)
      = heap.cells.serve limit fresh (.deallocate handle ignore) := by
  rw [Store.serve, observe, perform, deallocate]
  cases hg : heap.get? handle with
  | none => rw [atCell_of_dead hg, checkFree, hg]; rfl
  | some array =>
      rw [atCell_of_live hg, checkFree_of_live hg]
      simp only [cell_refcount_eq_zero]
      by_cases hfree : array.refcount = 0 ∨ ignore = true
      · simp only [if_pos hfree, ← cells_release hg]
        rfl
      · simp only [if_neg hfree]
        rfl

theorem observe_refInc :
    heap.observe (.refInc handle) = heap.cells.serve limit fresh (.refInc handle) := by
  rw [Store.serve, observe, perform, refInc]
  cases hg : heap.get? handle with
  | none => rw [atCell_of_dead hg, checkInc, get_of_dead hg]; rfl
  | some array =>
      rw [atCell_of_live hg, checkInc_of_live hg]
      by_cases hmax : array.refcount = 0xffffffff
      · have hcell : array.cell.refcount = 2 ^ 32 - 1 := by rw [HeapArray.cell, hmax]; rfl
        simp only [if_pos hmax, if_pos hcell]
        rfl
      · have hcell : array.cell.refcount ≠ 2 ^ 32 - 1 := fun hc => hmax (UInt32.toNat_inj.mp hc)
        have hsucc : (array.refcount + 1).toNat = array.cell.refcount + 1 := by
          have hlt := array.refcount.toNat_lt
          rw [UInt32.toNat_add, Nat.mod_eq_of_lt]
          · rfl
          · simp only [HeapArray.cell] at hcell
            simp only [UInt32.toNat_one]
            omega
        simp only [if_neg hmax, if_neg hcell, ← hsucc]
        exact congrArg (Prod.mk _) (cells_update hg _)

theorem observe_refDec :
    heap.observe (.refDec handle) = heap.cells.serve limit fresh (.refDec handle) := by
  rw [Store.serve, observe, perform, refDec]
  cases hg : heap.get? handle with
  | none => rw [atCell_of_dead hg, checkDec, get_of_dead hg]; rfl
  | some array =>
      rw [atCell_of_live hg, checkDec_of_live hg]
      by_cases hzero : array.refcount = 0
      · simp only [if_pos hzero, if_pos (cell_refcount_eq_zero.mpr hzero)]
        rfl
      · have hcell : array.cell.refcount ≠ 0 := cell_refcount_eq_zero.not.mpr hzero
        have hone : 1 ≤ array.refcount :=
          UInt32.le_iff_toNat_le.mpr (Nat.one_le_iff_ne_zero.mpr hcell)
        have hpred : (array.refcount - 1).toNat = array.cell.refcount - 1 :=
          UInt32.toNat_sub_of_le _ _ hone
        simp only [if_neg hzero, if_neg hcell, ← hpred]
        exact congrArg (Prod.mk _) (cells_update hg _)

theorem observe_store (index : Int) (value : Value) :
    heap.observe (.store handle index value)
      = heap.cells.serve limit fresh (.store handle index value) := by
  rw [Store.serve, observe, perform, store]
  cases hg : heap.get? handle with
  | none => rw [atCell_of_dead hg, locate, length, get_of_dead hg]; rfl
  | some array =>
      have hlocate : heap.locate handle index = checkIndex index array.cell.elements.length := by
        rw [locate, length, get_of_live hg]; rfl
      rw [atCell_of_live hg, hlocate, checkIndex]
      by_cases hin : 0 ≤ index ∧ index < array.cell.elements.length
      · simp only [if_pos hin]
        refine congrArg (Prod.mk _) ((cells_update hg _).trans ?_)
        simp [HeapArray.cell]
      · simp only [if_neg hin]
        rfl

theorem observe_load (index : Int) :
    heap.observe (.load handle index) = heap.cells.serve limit fresh (.load handle index) := by
  rw [Store.serve, observe, perform]
  cases hg : heap.get? handle with
  | none => rw [atCell_of_dead hg, load, get_of_dead hg]; rfl
  | some array =>
      have hload : heap.load handle index = (do
          let place ← checkIndex index array.cell.elements.length
          return array.elements.getD place Value.zero) := by
        rw [load, get_of_live hg]; rfl
      rw [atCell_of_live hg, hload, checkIndex]
      by_cases hin : 0 ≤ index ∧ index < array.cell.elements.length
      · have hplace : index.toNat < array.cell.elements.length := by omega
        have helement : array.cell.element? index
            = some (array.elements.getD index.toNat Value.zero) := by
          rw [Cell.element?, if_pos hin.1, List.getElem?_eq_getElem hplace]
          exact congrArg some (dif_pos hplace).symm
        rw [if_pos hin, helement]
        rfl
      · have helement : array.cell.element? index = none := by
          rw [Cell.element?]
          split
          · exact List.getElem?_eq_none (by omega)
          · rfl
        rw [if_neg hin, helement]
        rfl

theorem observe_length :
    heap.observe (.length handle) = heap.cells.serve limit fresh (.length handle) := by
  rw [Store.serve, observe, perform, length]
  cases hg : heap.get? handle with
  | none => rw [atCell_of_dead hg, get_of_dead hg]; rfl
  | some array => rw [atCell_of_live hg, get_of_live hg]; rfl

theorem observe_refcount :
    heap.observe (.refcount handle) = heap.cells.serve limit fresh (.refcount handle) := by
  rw [Store.serve, observe, perform, refcount]
  cases hg : heap.get? handle with
  | none => rw [atCell_of_dead hg, get_of_dead hg]; rfl
  | some array => rw [atCell_of_live hg, get_of_live hg]; rfl

end

/-- Every call is answered as the store answers it. -/
theorem observe_eq_serve (h : heap.Valid) {call : Call} (hroom : heap.Accommodates call) :
    ∃ fresh, heap.cells fresh = none ∧
      heap.observe call = heap.cells.serve heap.limit fresh call := by
  obtain ⟨fresh, hdead⟩ := exists_dead heap
  have hfresh := cells_of_dead hdead
  cases call with
  | allocate size fill => exact observe_allocate h hroom
  | deallocate handle ignore => exact ⟨fresh, hfresh, observe_deallocate heap _ _ handle ignore⟩
  | refInc handle => exact ⟨fresh, hfresh, observe_refInc heap _ _ handle⟩
  | refDec handle => exact ⟨fresh, hfresh, observe_refDec heap _ _ handle⟩
  | store handle index value => exact ⟨fresh, hfresh, observe_store heap _ _ handle index value⟩
  | load handle index => exact ⟨fresh, hfresh, observe_load heap _ _ handle index⟩
  | length handle => exact ⟨fresh, hfresh, observe_length heap _ _ handle⟩
  | refcount handle => exact ⟨fresh, hfresh, observe_refcount heap _ _ handle⟩

/-! ## Histories -/

/-- The results of calls. -/
def replies (heap : Heap) : List Call → List (Except Error Reply)
  | [] => []
  | call :: rest => (heap.perform call).1 :: (heap.perform call).2.replies rest

theorem run_cells (calls : List Call) :
    ∀ {heap : Heap}, heap.Valid → heap.AccommodatesAll calls →
      Store.Run heap.limit heap.cells calls (heap.replies calls) (heap.after calls).cells := by
  induction calls with
  | nil => intro heap _ _; exact .nil _
  | cons call rest ih =>
      intro heap h hroom
      obtain ⟨fresh, hfresh, hserve⟩ := observe_eq_serve h hroom.1
      have hnext := ih ((perform_outcome heap call).valid h) hroom.2
      rw [(perform_outcome heap call).limit_eq] at hnext
      exact .cons hfresh hserve.symm hnext

/-- **The heap implements a store.**  In whatever memory, as long as there is room for what is
allocated, every history of calls, with whatever handles, is answered as a partial map from handles
to reference counts and elements answers it, and the live arrays are as many as the map has handles.
A call that fails leaves the map alone, and any other leaves the handles alone that it is not about
and does not give. -/
theorem implements_store (memory : Memory) (limit : Nat) (calls : List Call)
    (hroom : (empty memory limit).AccommodatesAll calls) :
    let heap := (empty memory limit).after calls
    Store.Run limit Store.empty calls ((empty memory limit).replies calls) heap.cells ∧
    heap.liveArrays = heap.cells.count ∧
    ∀ call : Call,
      (∀ error, (heap.perform call).1 = .error error →
        (heap.perform call).2.cells = heap.cells) ∧
      (∀ other, call.handle? ≠ some other → (heap.perform call).1 ≠ .ok (.handle other) →
        (heap.perform call).2.cells other = heap.cells other) := by
  intro heap
  have hempty := Valid.empty memory limit
  have hv : heap.Valid := Valid.after calls hempty
  refine ⟨?_, (count_cells hv).symm, ?_⟩
  · rw [← cells_empty memory limit]
    exact run_cells calls hempty hroom
  · intro call
    have ho := perform_outcome heap call
    refine ⟨fun error he => by rw [ho.eq_of_error he], fun other hcall hresult => ?_⟩
    rw [cells, Function.comp_apply, ho.get?_eq hv hcall hresult]
    rfl

/-- A slot that is used twice: the store has two handles one after the other, and the first is not
in use any more when the second is. -/
theorem implements_store_recycling :
    let calls := [Call.allocate 2 Value.zero, .store ⟨0, 0⟩ 1 (.bool true), .load ⟨0, 0⟩ 1,
      .deallocate ⟨0, 0⟩ false, .deallocate ⟨0, 0⟩ true, .allocate 3 Value.zero, .load ⟨0, 0⟩ 1,
      .allocate 2 Value.zero]
    (empty (.ofCapacity 5) 4).AccommodatesAll calls ∧
    Store.Run 4 Store.empty calls
      [.ok (.handle ⟨0, 0⟩), .ok .done, .ok (.value (.bool true)),
        .error (.heapInvariant 0 "free of an array that is still referenced"), .ok .done,
        .ok (.handle ⟨0, 1⟩), .error (.heapInvariant 0 "use of a freed array"),
        .error (.outOfMemory 2)]
      ((empty (.ofCapacity 5) 4).after calls).cells := by
  intro calls
  have hroom : (empty (.ofCapacity 5) 4).AccommodatesAll calls :=
    ⟨fun _ => ⟨by decide, by decide⟩, trivial, trivial, trivial, trivial,
      fun _ => ⟨by decide, by decide⟩, trivial, fun _ => ⟨by decide, by decide⟩, trivial⟩
  exact ⟨hroom, (implements_store (.ofCapacity 5) 4 calls hroom).1⟩

end Heap

end RegisterMachine
