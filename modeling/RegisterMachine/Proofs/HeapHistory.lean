import Mathlib
import RegisterMachine.Proofs.Heap

/-!
# Histories of the heap

A client makes one call after the other, with handles that may be live, stale or made up.
`Heap.perform` answers one call, and `Heap.after` is the heap after a list of calls.

Seen through `get?`, a call that changes the heap changes the array behind one handle
(`get?_place`, `get?_release`, `get?_update`).  `perform_outcome` says which calls do so and what
was checked before; whatever is proved of all histories goes through it.
-/

namespace RegisterMachine

namespace Heap

variable {heap : Heap}

/-! ## The live handles after each change -/

theorem get_of_dead {handle : Handle} (hd : heap.get? handle = none) :
    heap.get handle = .error (.heapInvariant handle.index "use of a freed array") := by
  rw [get, hd]

theorem get_of_live {handle : Handle} {array : HeapArray} (ha : heap.get? handle = some array) :
    heap.get handle = .ok array := by
  rw [get, ha]

theorem get?_of_slot {handle : Handle} {slot : HeapSlot}
    (hs : heap.slots[handle.index.toNat]? = some slot) :
    heap.get? handle = if slot.generation = handle.generation then slot.array else none := by
  rw [get?, hs]

/-- A change of one slot changes what is behind the slot's handle, and nothing else: the slot's
other handles are dead before and after. -/
theorem get?_modify {heap' : Heap} {handle : Handle} {slot : HeapSlot} {f : HeapSlot → HeapSlot}
    (hs : heap.slots[handle.index.toNat]? = some slot) (hgen : slot.generation = handle.generation)
    (hm : heap'.slots = heap.slots.modify handle.index.toNat f)
    (hf : (f slot).generation = slot.generation ∨ (f slot).array = none) :
    heap'.get? = Function.update heap.get? handle (f slot).array := by
  funext other
  rw [Function.update_apply]
  -- another handle of the same slot has another generation; one of another slot sees no change
  by_cases hi : other.index = handle.index
  · have hs' : heap'.slots[other.index.toNat]? = some (f slot) := by
      rw [hm, Array.getElem?_modify, if_pos (congrArg UInt32.toNat hi.symm), hi, hs]
      rfl
    rw [get?_of_slot hs', get?_of_slot (hi ▸ hs), hgen]
    by_cases hg : handle.generation = other.generation
    · rw [if_pos (handle_eq_iff.mpr ⟨hi, hg.symm⟩)]
      rcases hf with hkept | hempty
      · rw [if_pos (by rw [hkept, hgen, hg])]
      · rw [hempty, ite_self]
    · rw [if_neg hg, if_neg fun ho => hg (congrArg Handle.generation ho).symm]
      rcases hf with hkept | hempty
      · rw [if_neg (by rw [hkept, hgen]; exact hg)]
      · rw [hempty, ite_self]
  · have hindex : handle.index.toNat ≠ other.index.toNat :=
      fun he => hi (UInt32.toNat_inj.mp he).symm
    rw [if_neg fun ho => hi (congrArg Handle.index ho), get?, hm, Array.getElem?_modify,
      if_neg hindex, get?]

/-- To release a live handle makes this handle dead, and no other. -/
theorem get?_release {handle : Handle} {array : HeapArray} (ha : heap.get? handle = some array) :
    (heap.release handle).get? = Function.update heap.get? handle none := by
  obtain ⟨slot, hs, hgen, -⟩ := get?_eq_some.mp ha
  have hm : (heap.release handle).slots
      = heap.slots.modify handle.index.toNat fun slot => ⟨slot.generation + 1, none⟩ := rfl
  exact get?_modify hs hgen hm (.inr rfl)

/-- To change the array behind a live handle changes no other. -/
theorem get?_update {handle : Handle} {array : HeapArray} (ha : heap.get? handle = some array)
    (change : HeapArray → HeapArray) :
    (heap.update handle change).get? = Function.update heap.get? handle (some (change array)) := by
  obtain ⟨slot, hs, hgen, hsa⟩ := get?_eq_some.mp ha
  have hm : (heap.update handle change).slots = heap.slots.modify handle.index.toNat fun slot =>
      { slot with array := slot.array.map change } := rfl
  rw [get?_modify hs hgen hm (.inl rfl), hsa]
  rfl

/-- The handle of a new array was dead, and no other handle notices. -/
theorem get?_place (h : heap.Valid) {size : Nat} (hr : heap.refusal? size = none) (fill : Value) :
    heap.get? (heap.place size fill).1 = none ∧
    (heap.place size fill).2.get? =
      Function.update heap.get? (heap.place size fill).1
        (some ⟨1, Array.replicate size fill⟩) := by
  cases hf : heap.free with
  | cons i rest =>
      obtain ⟨slot, hs, hempty⟩ := h.slot_of_free hf
      have hm : (heap.place size fill).2.slots = heap.slots.modify i.toNat fun slot =>
          { slot with array := some ⟨1, Array.replicate size fill⟩ } := by
        simp only [place, hf]
      have hhandle : (heap.place size fill).1 = ⟨i, slot.generation⟩ := by
        simp only [place, hf, hs]
      have hslot : heap.slots[(Handle.mk i slot.generation).index.toNat]? = some slot := hs
      rw [hhandle]
      refine ⟨?_, get?_modify hslot rfl hm (.inl rfl)⟩
      rw [get?_of_slot hslot, hempty, ite_self]
  | nil =>
      -- the new slot is the last one, and its number still is an index
      have hroom := (fits_of_refusal? hr).2 hf
      have hindex : (UInt32.ofNat heap.slots.size).toNat = heap.slots.size :=
        UInt32.toNat_ofNat_of_lt hroom
      simp only [place, hf]
      refine ⟨?_, ?_⟩
      · rw [get?, Array.getElem?_eq_none (by rw [hindex])]
      · funext other
        rw [Function.update_apply]
        by_cases hi : other.index.toNat = heap.slots.size
        · have hi' : other.index = UInt32.ofNat heap.slots.size := by
            rw [← UInt32.toNat_inj, hindex, hi]
          have hnew : (heap.slots.push ⟨0, some ⟨1, Array.replicate size fill⟩⟩)[other.index.toNat]?
              = some ⟨0, some ⟨1, Array.replicate size fill⟩⟩ := by
            rw [hi, Array.getElem?_push_size]
          rw [get?_of_slot hnew]
          by_cases hg : 0 = other.generation
          · rw [if_pos hg, if_pos (handle_eq_iff.mpr ⟨hi', hg.symm⟩)]
          · rw [if_neg hg, if_neg (fun ho => hg (congrArg Handle.generation ho).symm), get?,
              Array.getElem?_eq_none hi.ge]
        · rw [if_neg (fun ho => hi (by rw [ho, hindex])), get?, get?, Array.getElem?_push,
            if_neg hi]

/-! ## Calls -/

/-- What a client can ask of the heap. -/
inductive Call where
  | allocate (size : Nat) (fill : Value)
  | deallocate (handle : Handle) (ignoreReferences : Bool)
  | refInc (handle : Handle)
  | refDec (handle : Handle)
  | store (handle : Handle) (index : Int) (value : Value)
  | load (handle : Handle) (index : Int)
  | length (handle : Handle)
  | refcount (handle : Handle)

/-- What a call that succeeds gives back. -/
inductive Reply where
  | handle (handle : Handle)
  | done
  | value (value : Value)
  | number (n : Nat)

namespace Call

/-- The handle that a call is about. -/
def handle? : Call → Option Handle
  | .allocate .. => none
  | .deallocate handle _ | .refInc handle | .refDec handle | .store handle .. | .load handle _
  | .length handle | .refcount handle => some handle

/-- The handle whose array a call changes without freeing it. -/
def updated? : Call → Option Handle
  | .refInc handle | .refDec handle | .store handle .. => some handle
  | _ => none

/-- Whether a call only reads. -/
def isQuery : Call → Bool
  | .load .. | .length _ | .refcount _ => true
  | _ => false

theorem handle?_of_updated? {call : Call} {handle : Handle} (h : call.updated? = some handle) :
    call.handle? = some handle := by
  cases call with
  | refInc | refDec | store => exact h
  | _ => cases h

end Call

/-- Answers a call. -/
def perform (heap : Heap) : Call → Attempt Heap Reply
  | .allocate size fill => (heap.allocate size fill).map (Except.map .handle) id
  | .deallocate handle ignore =>
    (heap.deallocate handle ignore).map (Except.map fun () => .done) id
  | .refInc handle => (heap.refInc handle).map (Except.map fun () => .done) id
  | .refDec handle => (heap.refDec handle).map (Except.map fun () => .done) id
  | .store handle index value =>
    (heap.store handle index value).map (Except.map fun () => .done) id
  | .load handle index => ((heap.load handle index).map .value, heap)
  | .length handle => ((heap.length handle).map .number, heap)
  | .refcount handle => ((heap.refcount handle).map fun count => .number count.toNat, heap)

/-- The heap after calls. -/
def after (heap : Heap) (calls : List Call) : Heap :=
  calls.foldl (fun heap call => (heap.perform call).2) heap

/-- `Outcome heap call result next`: the call can give `result` and leave the heap as `next`. -/
inductive Outcome (heap : Heap) : Call → Except Error Reply → Heap → Prop where
  | refused (call : Call) (error : Error) : Outcome heap call (.error error) heap
  | answered {call : Call} (hq : call.isQuery = true) (reply : Reply) :
      Outcome heap call (.ok reply) heap
  | allocated {size : Nat} (hr : heap.refusal? size = none) (fill : Value) :
      Outcome heap (.allocate size fill) (.ok (.handle (heap.place size fill).1))
        (heap.place size fill).2
  | released {handle : Handle} {array : HeapArray} (ha : heap.get? handle = some array)
      (ignore : Bool) :
      Outcome heap (.deallocate handle ignore) (.ok .done) (heap.release handle)
  | updated {call : Call} {handle : Handle} {array : HeapArray} {change : HeapArray → HeapArray}
      (hu : call.updated? = some handle) (ha : heap.get? handle = some array)
      (hc : (change array).elements.size = array.elements.size) :
      Outcome heap call (.ok .done) (heap.update handle change)

/-- Whatever a query answers, it leaves the heap alone. -/
theorem Outcome.of_query {call : Call} (hq : call.isQuery = true) (result : Except Error Reply) :
    Outcome heap call result heap := by
  cases result with
  | error error => exact .refused call error
  | ok reply => exact .answered hq reply

/-- What one call can do. -/
theorem perform_outcome (heap : Heap) (call : Call) :
    Outcome heap call (heap.perform call).1 (heap.perform call).2 := by
  cases call with
  | allocate size fill =>
      rw [perform, allocate]
      cases hr : heap.refusal? size with
      | some error => exact .refused _ error
      | none => exact .allocated hr fill
  | deallocate handle ignore =>
      rw [perform, deallocate]
      cases hc : heap.checkFree handle ignore with
      | error error => exact .refused _ error
      | ok =>
          obtain ⟨array, ha⟩ := get?_of_checkFree hc
          exact .released ha ignore
  | refInc handle =>
      rw [perform, refInc]
      cases hc : heap.checkInc handle with
      | error error => exact .refused _ error
      | ok count =>
          obtain ⟨array, ha⟩ := get?_of_checkInc hc
          exact .updated rfl ha rfl
  | refDec handle =>
      rw [perform, refDec]
      cases hc : heap.checkDec handle with
      | error error => exact .refused _ error
      | ok count =>
          obtain ⟨array, ha⟩ := get?_of_checkDec hc
          exact .updated rfl ha rfl
  | store handle index value =>
      rw [perform, store]
      cases hc : heap.locate handle index with
      | error error => exact .refused _ error
      | ok place =>
          obtain ⟨array, ha, -⟩ := locate_lt hc
          exact .updated rfl ha Array.size_setIfInBounds
  | load handle index => exact .of_query rfl _
  | length handle => exact .of_query rfl _
  | refcount handle => exact .of_query rfl _

namespace Outcome

variable {call : Call} {result : Except Error Reply} {next : Heap}

/-- A call that fails leaves the heap as it was. -/
theorem eq_of_error (h : Outcome heap call result next) {error : Error}
    (he : result = .error error) : next = heap := by
  cases h with
  | refused | answered => rfl
  | _ => cases he

theorem limit_eq (h : Outcome heap call result next) : next.limit = heap.limit := by
  cases h with
  | allocated => exact limit_place heap _ _
  | _ => rfl

theorem valid (h : Outcome heap call result next) (hv : heap.Valid) : next.Valid := by
  cases h with
  | refused | answered => exact hv
  | allocated hr fill => exact hv.place hr fill
  | released ha => exact hv.release ha
  | updated _ ha hc => exact hv.update ha hc

/-- A handle that the call is neither about nor gives back keeps its array. -/
theorem get?_eq (h : Outcome heap call result next) (hv : heap.Valid) {other : Handle}
    (hcall : call.handle? ≠ some other) (hresult : result ≠ .ok (.handle other)) :
    next.get? other = heap.get? other := by
  cases h with
  | refused | answered => rfl
  | allocated hr fill =>
      rw [(get?_place hv hr fill).2]
      exact Function.update_of_ne (fun ho => hresult (by rw [ho])) _ _
  | released ha =>
      rw [get?_release ha]
      exact Function.update_of_ne (fun ho => hcall (by rw [ho]; rfl)) _ _
  | updated hu ha =>
      rw [get?_update ha]
      exact Function.update_of_ne
        (fun ho => hcall (by rw [ho]; exact Call.handle?_of_updated? hu)) _ _

end Outcome

theorem after_limit (calls : List Call) : ∀ heap : Heap, (heap.after calls).limit = heap.limit := by
  induction calls with
  | nil => intro heap; rfl
  | cons call rest ih => intro heap; exact (ih _).trans (perform_outcome heap call).limit_eq

namespace Valid

theorem after (calls : List Call) : ∀ {heap : Heap}, heap.Valid → (heap.after calls).Valid := by
  induction calls with
  | nil => intro heap h; exact h
  | cons call rest ih => intro heap h; exact ih ((perform_outcome heap call).valid h)

/-- The free list names the empty slots, whatever number they have. -/
theorem exists_free_iff (h : heap.Valid) (i : Nat) :
    (∃ index ∈ heap.free, index.toNat = i) ↔
      ∃ slot, heap.slots[i]? = some slot ∧ slot.array = none := by
  constructor
  · rintro ⟨index, hm, rfl⟩
    exact (h.mem_free index).mp hm
  · rintro ⟨slot, hs, hempty⟩
    have hi : i < UInt32.size :=
      Nat.lt_of_lt_of_le (Array.getElem?_eq_some_iff.mp hs).1 h.addressable
    have hindex : (UInt32.ofNat i).toNat = i := UInt32.toNat_ofNat_of_lt hi
    refine ⟨UInt32.ofNat i, (h.mem_free _).mpr ⟨slot, ?_, hempty⟩, hindex⟩
    rw [hindex, hs]

/-- An occupied slot stays as it is when an array is placed. -/
theorem getElem?_place (h : heap.Valid) {i : Nat} {slot : HeapSlot} {array : HeapArray}
    (hs : heap.slots[i]? = some slot) (ha : slot.array = some array) (size : Nat) (fill : Value) :
    (heap.place size fill).2.slots[i]? = some slot := by
  cases hf : heap.free with
  | nil =>
      have hi : i ≠ heap.slots.size := Nat.ne_of_lt (Array.getElem?_eq_some_iff.mp hs).1
      simp only [Heap.place, hf]
      rw [Array.getElem?_push, if_neg hi, hs]
  | cons index rest =>
      obtain ⟨vacant, hv, hempty⟩ := h.slot_of_free hf
      have hi : index.toNat ≠ i := by
        rintro rfl
        cases hv.symm.trans hs
        cases hempty.symm.trans ha
      simp only [Heap.place, hf]
      rw [Array.getElem?_modify, if_neg hi, hs]

theorem getElem?_allocate (h : heap.Valid) {i : Nat} {slot : HeapSlot} {array : HeapArray}
    (hs : heap.slots[i]? = some slot) (ha : slot.array = some array) (size : Nat) (fill : Value) :
    (heap.allocate size fill).2.slots[i]? = some slot := by
  rw [Heap.allocate]
  cases heap.refusal? size with
  | some error => exact hs
  | none => exact h.getElem?_place hs ha size fill

/-- What a released array had is taken off the count. -/
theorem liveElements_release (h : heap.Valid) {handle : Handle} {array : HeapArray}
    (ha : heap.get? handle = some array) :
    (heap.release handle).liveElements + array.elements.size = heap.liveElements := by
  simp only [Heap.release, ha]
  exact Nat.sub_add_cancel (h.size_le_live ha)

theorem liveElements_deallocate (h : heap.Valid) {handle : Handle} {ignore : Bool}
    (hok : (heap.deallocate handle ignore).1 = .ok ()) :
    ∃ array, heap.get? handle = some array ∧
      (heap.deallocate handle ignore).2.liveElements + array.elements.size
        = heap.liveElements := by
  rw [Heap.deallocate] at hok ⊢
  cases hc : heap.checkFree handle ignore with
  | error error => rw [hc] at hok; cases hok
  | ok =>
      obtain ⟨array, ha⟩ := get?_of_checkFree hc
      exact ⟨array, ha, h.liveElements_release ha⟩

end Valid

/-- **The parts of the heap agree after every history.**  The free list has no index twice and names
the empty slots exactly; the count of live elements is the sum of all lengths and stays within the
limit.  So an allocation leaves every occupied slot as it is, and a deallocation takes off the count
what the count holds. -/
theorem representation_invariant (memory : Memory) (limit : Nat) (calls : List Call) :
    let heap := (empty memory limit).after calls
    heap.free.Nodup ∧
    (∀ i : Nat, (∃ index ∈ heap.free, index.toNat = i) ↔
      ∃ slot, heap.slots[i]? = some slot ∧ slot.array = none) ∧
    heap.liveElements = heap.elementCount ∧
    heap.liveElements ≤ limit ∧
    (∀ (size : Nat) (fill : Value) (i : Nat) (slot : HeapSlot) (array : HeapArray),
      heap.slots[i]? = some slot → slot.array = some array →
      (heap.allocate size fill).2.slots[i]? = some slot) ∧
    (∀ handle ignore, (heap.deallocate handle ignore).1 = .ok () →
      ∃ array, heap.get? handle = some array ∧
        (heap.deallocate handle ignore).2.liveElements + array.elements.size
          = heap.liveElements) := by
  intro heap
  have hv : heap.Valid := Valid.after calls (Valid.empty memory limit)
  have hlimit : heap.limit = limit := after_limit calls (empty memory limit)
  refine ⟨hv.nodup, hv.exists_free_iff, hv.live, hlimit ▸ hv.within, ?_, ?_⟩
  · intro size fill i slot array hs ha
    exact hv.getElem?_allocate hs ha size fill
  · intro handle ignore hok
    exact hv.liveElements_deallocate hok

end Heap

end RegisterMachine
