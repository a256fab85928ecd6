import Mathlib
import RegisterMachine.Heap.Basic
import RegisterMachine.Proofs.Heap

/-!
# Equality is bisimilarity

Arrays can hold each other in circles, so that "equal elements" cannot be unfolded to an end.  What
it means for two values to look alike is said by a relation: `Alike heap R a b` holds if `a` and `b`
may be related as far as one look goes, and what the look shows is related by `R`.  A bisimulation
is a relation that never promises more than one look bears out, and two values look alike if some
bisimulation relates them.

`valuesEqual` decides this:

| direction                     | argument                                                       |
|-------------------------------|----------------------------------------------------------------|
| `exists_opened`               | the pairs that a comparison opened are a bisimulation          |
| `allEqual_of_isBisimulation`  | no pair that a bisimulation relates is ever a reason to say no |

The comparison opens each pair of live arrays once.  There are at most as many live arrays as slots,
so the bound that it is given is never the reason to stop (`card_unopened_le`).
-/

namespace RegisterMachine

/-- Whether a value is an array. -/
def Value.isArray : Value → Bool
  | .array _ => true
  | _ => false

namespace Heap

/-- What one look at two values must show if `R` relates them: the same array twice, two live arrays
of the same length with elements related by `R`, or two equal values that are no arrays. -/
inductive Alike (heap : Heap) (R : Value → Value → Prop) : Value → Value → Prop
  | same (handle : Handle) : Alike heap R (.array handle) (.array handle)
  | elementwise {g h : Handle} {x y : HeapArray} :
      heap.get? g = some x → heap.get? h = some y →
      List.Forall₂ R x.elements.toList y.elements.toList →
      Alike heap R (.array g) (.array h)
  | plain {a b : Value} :
      a.isArray = false → b.isArray = false → a.shallowEq b = true → Alike heap R a b

/-- Every pair that the relation relates stands up to a look. -/
def IsBisimulation (heap : Heap) (R : Value → Value → Prop) : Prop :=
  ∀ a b, R a b → heap.Alike R a b

variable {heap : Heap} {seen : Std.HashSet (Handle × Handle)} {room : Nat}

/-! ## What one look shows -/

/-- Values that are equal without a look into arrays, and not both arrays, are no arrays. -/
theorem plain_of_shallowEq {a b : Value} (hne : ∀ g h, a = .array g → b = .array h → False)
    (heq : a.shallowEq b = true) : a.isArray = false ∧ b.isArray = false := by
  cases a with
  | array g =>
      cases b with
      | array h => exact (hne g h rfl rfl).elim
      | _ => cases heq
  | _ =>
      cases b with
      | array h => cases heq
      | _ => exact ⟨rfl, rfl⟩

/-- Two different arrays stand up to a look only if both are live, and then their elements are
related in pairs. -/
theorem Alike.elements {R : Value → Value → Prop} {g h : Handle}
    (hl : heap.Alike R (.array g) (.array h)) (hne : g ≠ h) :
    ∃ x y, heap.get? g = some x ∧ heap.get? h = some y ∧
      List.Forall₂ R x.elements.toList y.elements.toList := by
  cases hl with
  | same => exact absurd rfl hne
  | elementwise hx hy helements => exact ⟨_, _, hx, hy, helements⟩
  | plain ha => cases ha

/-- Values that are not both arrays stand up to a look only if they are equal without one. -/
theorem Alike.shallowEq {R : Value → Value → Prop} {a b : Value} (h : heap.Alike R a b)
    (hne : ∀ g h, a = .array g → b = .array h → False) : a.shallowEq b = true := by
  cases h with
  | same handle => exact (hne handle handle rfl rfl).elim
  | elementwise => exact (hne _ _ rfl rfl).elim
  | plain _ _ heq => exact heq

/-! ## What was opened is a bisimulation -/

/-- What a comparison answers once the pairs in `S` are opened: a pair of them is taken to be
equal. -/
inductive Settled (S : Set (Handle × Handle)) : Value → Value → Prop
  | same (handle : Handle) : Settled S (.array handle) (.array handle)
  | opened {g h : Handle} : (g, h) ∈ S → Settled S (.array g) (.array h)
  | plain {a b : Value} :
      a.isArray = false → b.isArray = false → a.shallowEq b = true → Settled S a b

/-- A comparison that says yes has opened some pairs beside those in `seen`; each of them stands up
to a look, if the opened pairs are taken to be equal, and so do the pairs that it was given. -/
theorem exists_opened {work : List (Value × Value)}
    (h : heap.allEqual room seen work = true) :
    ∃ S : Set (Handle × Handle), (∀ p ∈ seen, p ∈ S) ∧
      (∀ g h, (g, h) ∈ S → (g, h) ∉ seen → heap.Alike (Settled S) (.array g) (.array h)) ∧
      ∀ p ∈ work, Settled S p.1 p.2 := by
  fun_induction allEqual heap room seen work with
  | case1 room seen =>
      refine ⟨{p | p ∈ seen}, fun p hp => hp, ?_, List.forall_mem_nil _⟩
      intro g h hS hnot
      exact absurd hS hnot
  | case2 room seen b rest ih =>
      obtain ⟨S, hseen, hlook, hrest⟩ := ih h
      exact ⟨S, hseen, hlook, List.forall_mem_cons.mpr ⟨.same b, hrest⟩⟩
  | case3 room seen a b rest hne x y hy hx hmem ih =>
      obtain ⟨S, hseen, hlook, hrest⟩ := ih h
      have hS : (a, b) ∈ S := hseen _ (Std.HashSet.mem_iff_contains.mpr hmem)
      exact ⟨S, hseen, hlook, List.forall_mem_cons.mpr ⟨.opened hS, hrest⟩⟩
  | case4 => cases h
  | case5 seen a b rest hne x y hy hx hnew hsize room ih =>
      obtain ⟨S, hseen, hlook, hwork⟩ := ih h
      obtain ⟨hpairs, hrest⟩ := List.forall_mem_append.mp hwork
      have hS : (a, b) ∈ S := hseen _ Std.HashSet.mem_insert_self
      have helements : List.Forall₂ (Settled S) x.elements.toList y.elements.toList :=
        List.forall₂_iff_zip.mpr ⟨by simpa using hsize, fun hp => hpairs _ hp⟩
      refine ⟨S, fun p hp => hseen p (Std.HashSet.mem_insert.mpr (.inr hp)), ?_,
        List.forall_mem_cons.mpr ⟨.opened hS, hrest⟩⟩
      intro g h hgh hnot
      -- the pair that was opened here has just been looked at; of the others `ih` knows
      by_cases heq : (a, b) = (g, h)
      · cases heq
        exact .elementwise hx hy helements
      · refine hlook g h hgh fun hmem => ?_
        rcases Std.HashSet.mem_insert.mp hmem with h | h
        · exact heq (eq_of_beq h)
        · exact hnot h
  | case6 => cases h
  | case7 => cases h
  | case8 room seen a b rest hne ih =>
      rw [Bool.and_eq_true] at h
      obtain ⟨S, hseen, hlook, hrest⟩ := ih h.2
      obtain ⟨ha, hb⟩ := plain_of_shallowEq hne h.1
      exact ⟨S, hseen, hlook, List.forall_mem_cons.mpr ⟨.plain ha hb h.1, hrest⟩⟩

/-- Pairs that stand up to a look on their own authority are a bisimulation. -/
theorem isBisimulation_settled {S : Set (Handle × Handle)}
    (h : ∀ g h, (g, h) ∈ S → heap.Alike (Settled S) (.array g) (.array h)) :
    heap.IsBisimulation (Settled S) := by
  intro a b hab
  cases hab with
  | same handle => exact .same handle
  | opened hS => exact h _ _ hS
  | plain ha hb heq => exact .plain ha hb heq

/-! ## How many pairs there are to open -/

/-- The handle that the array in slot `i` would have now. -/
def handleAt (heap : Heap) (i : Nat) : Handle :=
  ⟨UInt32.ofNat i, (heap.slots[i]?.map HeapSlot.generation).getD 0⟩

/-- For each slot the handle of its array. -/
def slotHandles (heap : Heap) : Finset Handle :=
  (Finset.range heap.slots.size).image heap.handleAt

/-- Pairs of such handles that a comparison has not opened yet. -/
def unopened (heap : Heap) (seen : Std.HashSet (Handle × Handle)) : Finset (Handle × Handle) :=
  (heap.slotHandles ×ˢ heap.slotHandles).filter fun p => p ∉ seen

theorem mem_slotHandles {handle : Handle} {array : HeapArray}
    (h : heap.get? handle = some array) : handle ∈ heap.slotHandles := by
  obtain ⟨slot, hs, hgen, -⟩ := get?_eq_some.mp h
  refine Finset.mem_image.mpr ⟨handle.index.toNat, ?_, ?_⟩
  · exact Finset.mem_range.mpr (Array.getElem?_eq_some_iff.mp hs).1
  · rw [handleAt, hs, UInt32.ofNat_toNat]
    exact congrArg (Handle.mk handle.index) hgen

theorem mem_unopened {g h : Handle} {x y : HeapArray} (hx : heap.get? g = some x)
    (hy : heap.get? h = some y) (hnew : ¬ seen.contains (g, h) = true) :
    (g, h) ∈ heap.unopened seen := by
  refine Finset.mem_filter.mpr ⟨?_, fun hmem => hnew (Std.HashSet.mem_iff_contains.mp hmem)⟩
  exact Finset.mem_product.mpr ⟨mem_slotHandles hx, mem_slotHandles hy⟩

/-- To open a pair leaves fewer of them. -/
theorem card_unopened_insert {p : Handle × Handle} (hp : p ∈ heap.unopened seen) :
    (heap.unopened (seen.insert p)).card < (heap.unopened seen).card := by
  refine Finset.card_lt_card (Finset.ssubset_iff_subset_ne.mpr ⟨?_, ?_⟩)
  · intro q hq
    obtain ⟨hlive, hnew⟩ := Finset.mem_filter.mp hq
    exact Finset.mem_filter.mpr
      ⟨hlive, fun hmem => hnew (Std.HashSet.mem_insert.mpr (.inr hmem))⟩
  · intro heq
    rw [← heq] at hp
    exact (Finset.mem_filter.mp hp).2 Std.HashSet.mem_insert_self

/-- There are at most as many pairs of live arrays as pairs of slots. -/
theorem card_unopened_le (heap : Heap) (seen : Std.HashSet (Handle × Handle)) :
    (heap.unopened seen).card ≤ heap.slots.size * heap.slots.size := by
  have hslots : heap.slotHandles.card ≤ heap.slots.size := by
    rw [slotHandles]
    exact Finset.card_image_le.trans (Finset.card_range _).le
  calc (heap.unopened seen).card
      ≤ (heap.slotHandles ×ˢ heap.slotHandles).card := Finset.card_filter_le _ _
    _ = heap.slotHandles.card * heap.slotHandles.card := Finset.card_product _ _
    _ ≤ heap.slots.size * heap.slots.size := Nat.mul_le_mul hslots hslots

/-! ## A bisimulation is never contradicted -/

/-- With room for all pairs that are not opened yet, a comparison of related values says yes. -/
theorem allEqual_of_isBisimulation {R : Value → Value → Prop} (hR : heap.IsBisimulation R)
    {work : List (Value × Value)} (hroom : (heap.unopened seen).card ≤ room)
    (hwork : ∀ p ∈ work, R p.1 p.2) : heap.allEqual room seen work = true := by
  fun_induction allEqual heap room seen work with
  | case1 => rfl
  | case2 room seen b rest ih => exact ih hroom (List.forall_mem_cons.mp hwork).2
  | case3 room seen a b rest hne x y hy hx hmem ih =>
      exact ih hroom (List.forall_mem_cons.mp hwork).2
  | case4 seen a b rest hne x y hy hx hnew hsize =>
      -- a pair is left to be opened, so there was room for it
      have hpos := Finset.card_pos.mpr ⟨_, mem_unopened hx hy hnew⟩
      omega
  | case5 seen a b rest hne x y hy hx hnew hsize room ih =>
      obtain ⟨hab, hrest⟩ := List.forall_mem_cons.mp hwork
      obtain ⟨x', y', hx', hy', helements⟩ := (hR _ _ hab).elements hne
      cases hx.symm.trans hx'
      cases hy.symm.trans hy'
      refine ih ?_ (List.forall_mem_append.mpr ⟨fun p hp => ?_, hrest⟩)
      · have hless := card_unopened_insert (mem_unopened hx hy hnew)
        omega
      · exact (List.forall₂_iff_zip.mp helements).2 hp
  | case6 room seen a b rest hne x y hy hx hnew hsize =>
      obtain ⟨hab, -⟩ := List.forall_mem_cons.mp hwork
      obtain ⟨x', y', hx', hy', helements⟩ := (hR _ _ hab).elements hne
      cases hx.symm.trans hx'
      cases hy.symm.trans hy'
      exact absurd (by simpa using helements.length_eq) hsize
  | case7 room seen a b rest hne hdead =>
      obtain ⟨hab, -⟩ := List.forall_mem_cons.mp hwork
      obtain ⟨x, y, hx, hy, -⟩ := (hR _ _ hab).elements hne
      exact (hdead x y hx hy).elim
  | case8 room seen a b rest hne ih =>
      obtain ⟨hab, hrest⟩ := List.forall_mem_cons.mp hwork
      rw [Bool.and_eq_true]
      exact ⟨(hR a b hab).shallowEq hne, ih hroom hrest⟩

/-- With enough room, a comparison says yes exactly if a bisimulation relates the two values. -/
theorem allEqual_iff (heap : Heap) (hroom : heap.slots.size * heap.slots.size ≤ room)
    (a b : Value) :
    heap.allEqual room ∅ [(a, b)] = true ↔
      ∃ R : Value → Value → Prop, heap.IsBisimulation R ∧ R a b := by
  constructor
  · intro h
    obtain ⟨S, -, hlook, hwork⟩ := exists_opened h
    refine ⟨Settled S, isBisimulation_settled fun g h hgh => ?_, hwork _ List.mem_cons_self⟩
    exact hlook g h hgh Std.HashSet.not_mem_empty
  · rintro ⟨R, hR, hab⟩
    refine allEqual_of_isBisimulation hR ((card_unopened_le heap ∅).trans hroom) ?_
    exact List.forall_mem_singleton.mpr hab

/-! ## Equality of values -/

/-- To be the same array twice is a bisimulation, whether or not the array is live. -/
theorem isBisimulation_same (heap : Heap) (handle : Handle) :
    heap.IsBisimulation fun a b => a = .array handle ∧ b = .array handle := by
  rintro a b ⟨rfl, rfl⟩
  exact .same handle

/-- A handle that is not live stands up to a look beside itself only. -/
theorem Alike.eq_of_dead {R : Value → Value → Prop} {a b : Value} (h : heap.Alike R a b)
    {handle : Handle} (hd : heap.get? handle = none)
    (hab : a = .array handle ∨ b = .array handle) : a = b := by
  cases h with
  | same => rfl
  | elementwise hx hy =>
      rcases hab with h | h
      · cases h
        cases hd.symm.trans hx
      · cases h
        cases hd.symm.trans hy
  | plain ha hb =>
      rcases hab with rfl | rfl
      · cases ha
      · cases hb

/-- **Equality is bisimilarity.**  Two values are equal exactly if some relation relates them that
relates only the same array twice, live arrays of one length with related elements, and equal values
that are no arrays.  The bound on the pairs that are opened never decides: with any higher one the
answer is the same.  And a handle that is not live is equal to itself only. -/
theorem valuesEqual_iff_bisimulation (heap : Heap) (a b : Value) :
    (heap.valuesEqual a b = true ↔
      ∃ R : Value → Value → Prop, R a b ∧ heap.IsBisimulation R) ∧
    (∀ room, heap.slots.size * heap.slots.size ≤ room →
      heap.allEqual room ∅ [(a, b)] = heap.valuesEqual a b) ∧
    (∀ handle, heap.get? handle = none → a = .array handle ∨ b = .array handle →
      (heap.valuesEqual a b = true ↔ a = b)) := by
  have hiff := allEqual_iff heap (Nat.le_refl _) a b
  refine ⟨?_, ?_, ?_⟩
  · rw [valuesEqual, hiff]
    simp only [and_comm]
  · intro room hroom
    rw [Bool.eq_iff_iff, valuesEqual, hiff, allEqual_iff heap hroom]
  · intro handle hd hab
    rw [valuesEqual, hiff]
    constructor
    · rintro ⟨R, hR, hRab⟩
      exact (hR a b hRab).eq_of_dead hd hab
    · rintro rfl
      have ha : a = .array handle := or_self_iff.mp hab
      exact ⟨_, isBisimulation_same heap handle, ha, ha⟩

/-- Two arrays that hold each other, and one that holds itself. -/
def circles : Heap where
  slots := #[⟨0, some ⟨1, #[.array ⟨1, 0⟩]⟩⟩, ⟨0, some ⟨1, #[.array ⟨0, 0⟩]⟩⟩,
    ⟨0, some ⟨1, #[.array ⟨2, 0⟩]⟩⟩]
  free := []
  liveElements := 3
  limit := 3
  memory := .unbounded

/-- However deep one looks, a circle of two shows what a circle of one does.  An old handle of the
same slot shows nothing. -/
theorem valuesEqual_circles :
    circles.valuesEqual (.array ⟨0, 0⟩) (.array ⟨2, 0⟩) = true ∧
    ¬ circles.valuesEqual (.array ⟨0, 0⟩) (.array ⟨0, 7⟩) = true := by
  refine ⟨(valuesEqual_iff_bisimulation circles _ _).1.mpr ?_, ?_⟩
  · refine ⟨fun a b => (a = .array ⟨0, 0⟩ ∨ a = .array ⟨1, 0⟩) ∧ b = .array ⟨2, 0⟩,
      ⟨.inl rfl, rfl⟩, ?_⟩
    rintro a b ⟨rfl | rfl, rfl⟩
    · exact .elementwise rfl rfl (.cons ⟨.inr rfl, rfl⟩ .nil)
    · exact .elementwise rfl rfl (.cons ⟨.inl rfl, rfl⟩ .nil)
  · have hold := (valuesEqual_iff_bisimulation circles (.array ⟨0, 0⟩) (.array ⟨0, 7⟩)).2.2
      ⟨0, 7⟩ rfl (.inr rfl)
    rw [hold]
    decide

end Heap

end RegisterMachine
