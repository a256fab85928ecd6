import Mathlib
import RegisterMachine.Proofs.Bisimulation

/-!
# Equality is an equivalence, up to NaN

Equality of values is bisimilarity, and what makes bisimilarity symmetric and transitive is that the
relations which witness it can be turned around and composed.  Two things are not as usual.  An
array is equal to itself without a look at its elements, so that two looks of which one shows the
same array twice have no elements in the middle to compose (`Alike.comp`); and a NaN is not equal to
itself, so that the identity is no bisimulation.

| law           | plain values        | all values              |
|---------------|---------------------|-------------------------|
| symmetry      | `shallowEq_symm`    | `Bisimilar.symm`        |
| transitivity  | `shallowEq_trans`   | `Bisimilar.trans`       |
| reflexivity   | `shallowEq_self`    | `bisimilar_self_iff`    |

Plain values are compared by a key (`Value.key?`): a floating-point number by its place on the line
of numbers, which a NaN does not have, and any other value by itself.
-/

namespace RegisterMachine

namespace Value

/-- Whether a value is a NaN of either width. -/
def isNaN : Value → Bool
  | .f32 x => x.isNaN
  | .f64 x => x.isNaN
  | _ => false

/-- What a value is compared by: a floating-point number by its place among the numbers of its
width, any other value by itself. -/
def key? : Value → Option (Value ⊕ NumType × Int)
  | .f32 x => x.rank?.map fun r => .inr (.f32, r)
  | .f64 x => x.rank?.map fun r => .inr (.f64, r)
  | value => some (.inl value)

/-- Values are equal without a look into arrays exactly if they have the same key. -/
theorem shallowEq_iff {a b : Value} :
    a.shallowEq b = true ↔ a.key? = b.key? ∧ b.key?.isSome = true := by
  cases a <;> cases b <;> simp only [shallowEq, key?, Binary32.eq, Binary64.eq]
  case f32.f32 x y => cases x.rank? <;> cases y.rank? <;> simp [onRanks]
  case f64.f64 x y => cases x.rank? <;> cases y.rank? <;> simp [onRanks]
  case f32.f64 x y => cases x.rank? <;> cases y.rank? <;> simp
  case f64.f32 x y => cases x.rank? <;> cases y.rank? <;> simp
  all_goals simp

theorem shallowEq_symm {a b : Value} (h : a.shallowEq b = true) : b.shallowEq a = true := by
  obtain ⟨hkey, hsome⟩ := shallowEq_iff.mp h
  exact shallowEq_iff.mpr ⟨hkey.symm, hkey ▸ hsome⟩

theorem shallowEq_trans {a b c : Value} (h : a.shallowEq b = true) (h' : b.shallowEq c = true) :
    a.shallowEq c = true := by
  obtain ⟨hkey, -⟩ := shallowEq_iff.mp h
  obtain ⟨hkey', hsome⟩ := shallowEq_iff.mp h'
  exact shallowEq_iff.mpr ⟨hkey.trans hkey', hsome⟩

theorem shallowEq_self {a : Value} : a.shallowEq a = true ↔ a.isNaN = false := by
  rw [shallowEq_iff]
  cases a <;> simp [key?, isNaN, Binary32.isNaN, Binary64.isNaN]

end Value

namespace Heap

variable {heap : Heap} {R S : Value → Value → Prop} {a b c : Value}

/-! ## What one look shows -/

theorem Alike.mono (hRS : ∀ a b, R a b → S a b) (h : heap.Alike R a b) : heap.Alike S a b := by
  cases h with
  | same handle => exact .same handle
  | elementwise hx hy helements => exact .elementwise hx hy (helements.imp hRS)
  | plain ha hb heq => exact .plain ha hb heq

theorem Alike.symm (h : heap.Alike R a b) : heap.Alike (flip R) b a := by
  cases h with
  | same handle => exact .same handle
  | elementwise hx hy helements => exact .elementwise hy hx helements.flip
  | plain ha hb heq => exact .plain hb ha (Value.shallowEq_symm heq)

/-- Two looks show what one does, with the composite relation for the elements.  If one of them
shows the same array twice, what the other shows is all there is to see. -/
theorem Alike.comp (h : heap.Alike R a b) (h' : heap.Alike S b c) :
    heap.Alike (fun x z => R x z ∨ S x z ∨ Relation.Comp R S x z) a c := by
  cases h with
  | same handle => exact h'.mono fun _ _ hS => .inr (.inl hS)
  | elementwise hx hy helements =>
      cases h' with
      | same handle => exact .elementwise hx hy (helements.imp fun _ _ hR => .inl hR)
      | elementwise hy' hz helements' =>
          cases hy.symm.trans hy'
          refine .elementwise hx hz (forall₂_comp ?_ helements helements')
          intro x y z hR hS
          exact .inr (.inr ⟨y, hR, hS⟩)
      | plain hb => cases hb
  | plain ha hb heq =>
      cases h' with
      | same => cases hb
      | elementwise => cases hb
      | plain _ hc heq' => exact .plain ha hc (Value.shallowEq_trans heq heq')

/-- A NaN stands up to no look. -/
theorem Alike.isNaN (h : heap.Alike R a b) : a.isNaN = false := by
  cases h with
  | same => rfl
  | elementwise => rfl
  | plain _ _ heq =>
      exact Value.shallowEq_self.mp (Value.shallowEq_trans heq (Value.shallowEq_symm heq))

/-! ## Bisimilarity -/

/-- Two values look alike, however deep one looks. -/
def Bisimilar (heap : Heap) (a b : Value) : Prop :=
  ∃ R : Value → Value → Prop, heap.IsBisimulation R ∧ R a b

theorem valuesEqual_iff_bisimilar : heap.valuesEqual a b = true ↔ heap.Bisimilar a b :=
  allEqual_iff heap (Nat.le_refl _) a b

/-- Bisimilarity is the largest bisimulation. -/
theorem isBisimulation_bisimilar (heap : Heap) : heap.IsBisimulation heap.Bisimilar := by
  rintro a b ⟨R, hR, hab⟩
  exact (hR a b hab).mono fun _ _ h => ⟨R, hR, h⟩

theorem Bisimilar.symm (h : heap.Bisimilar a b) : heap.Bisimilar b a :=
  ⟨flip heap.Bisimilar, fun _ _ h => (isBisimulation_bisimilar heap _ _ h).symm, h⟩

theorem Bisimilar.trans (h : heap.Bisimilar a b) (h' : heap.Bisimilar b c) :
    heap.Bisimilar a c := by
  -- bisimilarity itself stands beside the composite for the looks that show an array twice
  refine ⟨fun x z => heap.Bisimilar x z ∨ Relation.Comp heap.Bisimilar heap.Bisimilar x z, ?_,
    .inr ⟨b, h, h'⟩⟩
  have hlook := isBisimulation_bisimilar heap
  rintro x z (hxz | ⟨y, hxy, hyz⟩)
  · exact (hlook x z hxz).mono fun _ _ h => .inl h
  · refine ((hlook x y hxy).comp (hlook y z hyz)).mono ?_
    rintro _ _ (h | h | h)
    · exact .inl h
    · exact .inl h
    · exact .inr h

theorem bisimilar_self_iff : heap.Bisimilar a a ↔ a.isNaN = false := by
  refine ⟨fun h => (isBisimulation_bisimilar heap a a h).isNaN, fun h => ?_⟩
  refine ⟨fun x y => x = a ∧ y = a, ?_, rfl, rfl⟩
  rintro x y ⟨hx, hy⟩
  rw [hx, hy]
  cases a with
  | array handle => exact .same handle
  | _ => exact .plain rfl rfl (Value.shallowEq_self.mpr h)

/-- **Equality of values is an equivalence, up to NaN.**  It is symmetric and transitive, and every
value but a NaN is equal to itself: also an array that holds a NaN, and a handle that is not
live. -/
theorem valuesEqual_equivalence (heap : Heap) (a b c : Value) :
    heap.valuesEqual a b = heap.valuesEqual b a ∧
    (heap.valuesEqual a b = true → heap.valuesEqual b c = true → heap.valuesEqual a c = true) ∧
    (heap.valuesEqual a a = true ↔ a.isNaN = false) := by
  refine ⟨?_, ?_, ?_⟩
  · rw [Bool.eq_iff_iff, valuesEqual_iff_bisimilar, valuesEqual_iff_bisimilar]
    exact ⟨Bisimilar.symm, Bisimilar.symm⟩
  · simp only [valuesEqual_iff_bisimilar]
    exact Bisimilar.trans
  · rw [valuesEqual_iff_bisimilar]
    exact bisimilar_self_iff

/-- Two arrays that hold each other are equal, since both are equal to one that holds itself. -/
theorem valuesEqual_equivalence_circles :
    circles.valuesEqual (.array ⟨0, 0⟩) (.array ⟨1, 0⟩) = true ∧
    ¬ circles.valuesEqual (.f64 ⟨0x7ff8000000000001⟩) (.f64 ⟨0x7ff8000000000001⟩) = true := by
  have hcircles : circles.IsBisimulation fun a b =>
      (a = .array ⟨0, 0⟩ ∨ a = .array ⟨1, 0⟩) ∧ b = .array ⟨2, 0⟩ := by
    rintro a b ⟨rfl | rfl, rfl⟩
    · exact .elementwise rfl rfl (.cons ⟨.inr rfl, rfl⟩ .nil)
    · exact .elementwise rfl rfl (.cons ⟨.inl rfl, rfl⟩ .nil)
  have hfirst : circles.valuesEqual (.array ⟨0, 0⟩) (.array ⟨2, 0⟩) = true :=
    valuesEqual_iff_bisimilar.mpr ⟨_, hcircles, .inl rfl, rfl⟩
  have hsecond : circles.valuesEqual (.array ⟨1, 0⟩) (.array ⟨2, 0⟩) = true :=
    valuesEqual_iff_bisimilar.mpr ⟨_, hcircles, .inr rfl, rfl⟩
  obtain ⟨hcomm, -, -⟩ :=
    valuesEqual_equivalence circles (.array ⟨1, 0⟩) (.array ⟨2, 0⟩) (.array ⟨2, 0⟩)
  obtain ⟨-, htrans, -⟩ :=
    valuesEqual_equivalence circles (.array ⟨0, 0⟩) (.array ⟨2, 0⟩) (.array ⟨1, 0⟩)
  obtain ⟨-, -, hself⟩ := valuesEqual_equivalence circles (.f64 ⟨0x7ff8000000000001⟩)
    (.array ⟨0, 0⟩) (.array ⟨0, 0⟩)
  refine ⟨htrans hfirst (hcomm.symm.trans hsecond), ?_⟩
  rw [hself]
  decide

end Heap

end RegisterMachine
