import Mathlib
import RegisterMachine.Proofs.HeapHistory

/-!
# Generations

The generation of a slot is the number of times that its array was freed, as far as 32 bits tell it
(`generation_after`).  No other call moves it.  So a handle that was issued at some time is live
again exactly if its slot is occupied and was freed a multiple of `2 ^ 32` times since, and up to
then every call with a freed handle is refused.
-/

namespace RegisterMachine

namespace Heap

variable {heap : Heap} {i : UInt32} {slot : HeapSlot}

/-- Whether a call with this result freed the array in slot `i`. -/
def Call.freed (call : Call) (result : Except Error Reply) (i : UInt32) : Bool :=
  match call, result with
  | .deallocate handle _, .ok _ => handle.index = i
  | _, _ => false

/-- How often calls free the array in slot `i`. -/
def timesFreed (heap : Heap) (i : UInt32) : List Call → Nat
  | [] => 0
  | call :: rest =>
    (call.freed (heap.perform call).1 i).toNat + (heap.perform call).2.timesFreed i rest

/-- Whether slot `i` holds an array. -/
def Occupied (heap : Heap) (i : UInt32) : Prop :=
  ∃ slot array, heap.slots[i.toNat]? = some slot ∧ slot.array = some array

/-! ## What moves a generation -/

/-- A change of one slot that keeps its generation keeps all generations. -/
theorem generation_modify (hs : heap.slots[i.toNat]? = some slot) (j : Nat)
    {f : HeapSlot → HeapSlot} (hf : ∀ slot, (f slot).generation = slot.generation) :
    ∃ slot', (heap.slots.modify j f)[i.toNat]? = some slot' ∧
      slot'.generation = slot.generation := by
  rw [Array.getElem?_modify, hs]
  by_cases hj : j = i.toNat
  · rw [if_pos hj]
    exact ⟨f slot, rfl, hf slot⟩
  · rw [if_neg hj]
    exact ⟨slot, rfl, rfl⟩

/-- To place an array keeps the generations of all slots. -/
theorem generation_place (hs : heap.slots[i.toNat]? = some slot) (size : Nat) (fill : Value) :
    ∃ slot', (heap.place size fill).2.slots[i.toNat]? = some slot' ∧
      slot'.generation = slot.generation := by
  cases hf : heap.free with
  | nil =>
      have hi : i.toNat ≠ heap.slots.size := Nat.ne_of_lt (Array.getElem?_eq_some_iff.mp hs).1
      refine ⟨slot, ?_, rfl⟩
      simp only [place, hf]
      rw [Array.getElem?_push, if_neg hi, hs]
  | cons index rest =>
      simp only [place, hf]
      exact generation_modify hs _ fun _ => rfl

/-- So does a change of an array. -/
theorem generation_update (hs : heap.slots[i.toNat]? = some slot) (handle : Handle)
    (change : HeapArray → HeapArray) :
    ∃ slot', (heap.update handle change).slots[i.toNat]? = some slot' ∧
      slot'.generation = slot.generation :=
  generation_modify hs _ fun _ => rfl

theorem generation_kept {generation generation' : UInt32} {freed : Bool}
    (hg : generation' = generation) (hf : freed = false) :
    generation' = generation + UInt32.ofNat freed.toNat := by
  rw [hg, hf]
  exact (UInt32.add_zero _).symm

/-- One call adds one to the generation of the slot that it frees, and keeps the others. -/
theorem Outcome.generation {call : Call} {result : Except Error Reply} {next : Heap}
    (h : Outcome heap call result next) (hs : heap.slots[i.toNat]? = some slot) :
    ∃ slot', next.slots[i.toNat]? = some slot' ∧
      slot'.generation = slot.generation + UInt32.ofNat (call.freed result i).toNat := by
  cases h with
  | refused call error =>
      have hf : call.freed (.error error) i = false := by cases call <;> rfl
      exact ⟨slot, hs, generation_kept rfl hf⟩
  | answered hq reply =>
      have hf : call.freed (.ok reply) i = false := by
        cases call with
        | load | length | refcount => rfl
        | _ => cases hq
      exact ⟨slot, hs, generation_kept rfl hf⟩
  | allocated hr fill =>
      obtain ⟨slot', hs', hg⟩ := generation_place hs _ fill
      exact ⟨slot', hs', generation_kept hg rfl⟩
  | @released handle array ha ignore =>
      simp only [release, Array.getElem?_modify, hs, UInt32.toNat_inj, Call.freed]
      by_cases hi : handle.index = i
      · rw [if_pos hi]
        exact ⟨_, rfl, by simp [hi]⟩
      · rw [if_neg hi]
        exact ⟨slot, rfl, by simp [hi]⟩
  | @updated _ handle array change hu ha hc =>
      have hf : call.freed (.ok .done) i = false := by
        cases call with
        | refInc | refDec | store => rfl
        | _ => cases hu
      obtain ⟨slot', hs', hg⟩ := generation_update hs handle change
      exact ⟨slot', hs', generation_kept hg hf⟩

/-- The generation of a slot after calls: one more for each time that they freed it. -/
theorem generation_after (calls : List Call) :
    ∀ {heap : Heap} {slot : HeapSlot}, heap.slots[i.toNat]? = some slot →
      ∃ slot', (heap.after calls).slots[i.toNat]? = some slot' ∧
        slot'.generation = slot.generation + UInt32.ofNat (heap.timesFreed i calls) := by
  induction calls with
  | nil =>
      intro heap slot hs
      exact ⟨slot, hs, (UInt32.add_zero _).symm⟩
  | cons call rest ih =>
      intro heap slot hs
      obtain ⟨slot₁, hs₁, hg₁⟩ := (perform_outcome heap call).generation hs
      obtain ⟨slot₂, hs₂, hg₂⟩ := ih hs₁
      refine ⟨slot₂, hs₂, ?_⟩
      rw [hg₂, hg₁, timesFreed, UInt32.ofNat_add, UInt32.add_assoc]

/-- A count of 32 bits comes back after each `2 ^ 32` steps, and not before. -/
theorem add_ofNat_eq_self_iff (generation : UInt32) (n : Nat) :
    generation + UInt32.ofNat n = generation ↔ 2 ^ 32 ∣ n := by
  rw [← UInt32.toNat_inj, UInt32.toNat_add, UInt32.toNat_ofNat']
  have := generation.toNat_lt
  omega

/-! ## Handles -/

/-- A call with a dead handle is refused. -/
theorem perform_of_dead {handle : Handle} (hd : heap.get? handle = none) {call : Call}
    (hcall : call.handle? = some handle) : ∃ error, heap.perform call = (.error error, heap) := by
  cases call with
  | allocate => cases hcall
  | deallocate handle' ignore =>
      cases hcall
      exact ⟨_, by rw [perform, deallocate, checkFree, hd]; rfl⟩
  | refInc handle' =>
      cases hcall
      exact ⟨_, by rw [perform, refInc, checkInc, get_of_dead hd]; rfl⟩
  | refDec handle' =>
      cases hcall
      exact ⟨_, by rw [perform, refDec, checkDec, get_of_dead hd]; rfl⟩
  | store handle' index value =>
      cases hcall
      exact ⟨_, by rw [perform, store, locate, length, get_of_dead hd]; rfl⟩
  | load handle' index =>
      cases hcall
      exact ⟨_, by rw [perform, load, get_of_dead hd]; rfl⟩
  | length handle' =>
      cases hcall
      exact ⟨_, by rw [perform, length, get_of_dead hd]; rfl⟩
  | refcount handle' =>
      cases hcall
      exact ⟨_, by rw [perform, refcount, get_of_dead hd]; rfl⟩

/-- The handle that an allocation gives is live. -/
theorem get?_of_allocate (h : heap.Valid) {size : Nat} {fill : Value} {handle : Handle}
    (hok : (heap.allocate size fill).1 = .ok handle) :
    ∃ array, (heap.allocate size fill).2.get? handle = some array := by
  rw [allocate] at hok ⊢
  cases hr : heap.refusal? size with
  | some error => rw [hr] at hok; cases hok
  | none =>
      rw [hr] at hok
      cases hok
      show ∃ array, (heap.place size fill).2.get? (heap.place size fill).1 = some array
      rw [(get?_place h hr fill).2, Function.update_self]
      exact ⟨_, rfl⟩

/-- When a handle that was live is live after calls. -/
theorem live_after_iff {handle : Handle} {array : HeapArray} (ha : heap.get? handle = some array)
    (calls : List Call) :
    (∃ array, (heap.after calls).get? handle = some array) ↔
      (heap.after calls).Occupied handle.index ∧ 2 ^ 32 ∣ heap.timesFreed handle.index calls := by
  obtain ⟨slot, hs, hgen, -⟩ := get?_eq_some.mp ha
  obtain ⟨slot', hs', hgen'⟩ := generation_after calls hs
  -- both sides say that the slot is occupied and its generation is that of the handle
  rw [hgen] at hgen'
  rw [← add_ofNat_eq_self_iff handle.generation, ← hgen']
  constructor
  · rintro ⟨array', ha'⟩
    obtain ⟨slot'', hs'', hg, hsa⟩ := get?_eq_some.mp ha'
    cases hs'.symm.trans hs''
    exact ⟨⟨slot', array', hs', hsa⟩, hg⟩
  · rintro ⟨⟨slot'', array', hs'', hsa⟩, hg⟩
    cases hs'.symm.trans hs''
    exact ⟨array', get?_eq_some.mpr ⟨slot', hs', hg, hsa⟩⟩

theorem get_eq_ok {handle : Handle} {array : HeapArray} :
    heap.get handle = .ok array ↔ heap.get? handle = some array :=
  ⟨get?_of_get, get_of_live⟩

/-- **A stale handle is found out, exactly.**  Let `handle` be issued by an allocation in a history,
and let more calls follow.  It is live exactly if its slot is occupied and was freed a multiple of
`2 ^ 32` times since; so once it was freed, every call with it is refused until its slot was freed
`2 ^ 32` times.  No slot ever has two live handles. -/
theorem stale_handle_detection (memory : Memory) (limit : Nat) (earlier : List Call) (size : Nat)
    (fill : Value) (handle : Handle)
    (hissued : (((empty memory limit).after earlier).allocate size fill).1 = .ok handle)
    (later : List Call) :
    let issued := (((empty memory limit).after earlier).allocate size fill).2
    let heap := issued.after later
    let freed := issued.timesFreed handle.index later
    ((∃ array, heap.get handle = .ok array) ↔ heap.Occupied handle.index ∧ 2 ^ 32 ∣ freed) ∧
    (0 < freed → freed < 2 ^ 32 → ∀ call : Call, call.handle? = some handle →
      ∃ error, heap.perform call = (.error error, heap)) ∧
    (∀ a b : Handle, ∀ x y : HeapArray, heap.get a = .ok x → heap.get b = .ok y → a ≠ b →
      a.index ≠ b.index) := by
  intro issued heap freed
  obtain ⟨array, hlive⟩ : ∃ array, issued.get? handle = some array :=
    get?_of_allocate (Valid.after earlier (Valid.empty memory limit)) hissued
  have hiff := live_after_iff hlive later
  simp only [get_eq_ok]
  refine ⟨hiff, ?_, ?_⟩
  · intro hpos hlt call hcall
    have hdead : heap.get? handle = none := by
      rw [Option.eq_none_iff_forall_ne_some]
      intro array' ha'
      exact Nat.not_dvd_of_pos_of_lt hpos hlt (hiff.mp ⟨array', ha'⟩).2
    exact perform_of_dead hdead hcall
  · intro a b x y ha hb hne hi
    exact hne (eq_of_live ha hb hi)

/-- A slot that was freed and used again: it is occupied, and its first handle is refused. -/
theorem stale_handle_detection_reused :
    let issued := (((empty .unbounded 4).after []).allocate 1 Value.zero).2
    let later := [Call.deallocate ⟨0, 0⟩ true, Call.allocate 2 Value.zero]
    (((empty .unbounded 4).after []).allocate 1 Value.zero).1 = .ok ⟨0, 0⟩ ∧
    (issued.after later).Occupied 0 ∧ issued.timesFreed 0 later = 1 ∧
    (¬ ∃ array, (issued.after later).get ⟨0, 0⟩ = .ok array) ∧
    ∃ error,
      (issued.after later).perform (.load ⟨0, 0⟩ 0) = (.error error, issued.after later) := by
  intro issued later
  have hissued : (((empty .unbounded 4).after []).allocate 1 Value.zero).1 = .ok ⟨0, 0⟩ := rfl
  have hfreed : issued.timesFreed 0 later = 1 := rfl
  obtain ⟨hiff, hrefused, -⟩ :=
    stale_handle_detection .unbounded 4 [] 1 Value.zero ⟨0, 0⟩ hissued later
  refine ⟨hissued, ⟨_, _, rfl, rfl⟩, hfreed, ?_, ?_⟩
  · intro hlive
    exact absurd (hfreed ▸ (hiff.mp hlive).2) (by decide)
  · exact hrefused (by rw [hfreed]; decide) (by rw [hfreed]; decide) _ rfl

end Heap

end RegisterMachine
