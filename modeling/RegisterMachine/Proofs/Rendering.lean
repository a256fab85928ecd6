import Mathlib
import RegisterMachine.Proofs.Equivalence

/-!
# Texts of values

An array may hold itself, so that its elements cannot be printed to the end.  What is printed is a
finite picture: an array is opened, and its elements are shown in their order, unless it is freed or
stands inside itself.  `Shows heap path value picture` says so rule by rule, for a value that stands
inside the arrays of `path`; the text of a value is the text of its picture.

| fact                                             | reason                                       |
|--------------------------------------------------|----------------------------------------------|
| there is a picture (`exists_shows`)              | the arrays of a path are live, and different |
| there is only one (`Shows.unique`)               | no two rules apply to the same value         |
| it depends on the path only where it meets it    | `Shows.of_append`                            |
| values that look alike have pictures of one text | `Shows.text_eq`                              |

The bound on the arrays that are opened is the number of live ones.  A path holds each of them at
most once (`length_le_liveArrays`), so that the bound never ends a picture.
-/

namespace RegisterMachine

/-! ## Pictures -/

/-- What is printed of a value: a value that is no array, an array that stands inside itself, an
array that is not live, or an array with its elements. -/
inductive Picture where
  | plain (value : Value)
  | repeated (handle : Handle)
  | freed (handle : Handle)
  | opened (handle : Handle) (elements : List Picture)

namespace Picture

/-- The value that is shown. -/
def value : Picture → Value
  | plain value => value
  | repeated handle | freed handle | opened handle _ => .array handle

mutual

/-- The text of a picture. -/
def text : Picture → String
  | plain value => value.text
  | repeated _ => "[...]"
  | freed handle => "<freed array #" ++ toString handle.index ++ ">"
  | opened _ elements => "[" ++ ", ".intercalate (texts elements) ++ "]"

def texts : List Picture → List String
  | [] => []
  | part :: rest => text part :: texts rest

end

mutual

/-- How deep opened arrays are nested. -/
def depth : Picture → Nat
  | plain _ | repeated _ | freed _ => 0
  | opened _ elements => maxDepth elements + 1

def maxDepth : List Picture → Nat
  | [] => 0
  | part :: rest => max (depth part) (maxDepth rest)

end

theorem texts_eq_map (parts : List Picture) : texts parts = parts.map text := by
  induction parts with
  | nil => rfl
  | cons part rest ih => rw [texts, ih, List.map_cons]

theorem maxDepth_le {parts : List Picture} {bound : Nat}
    (h : ∀ part ∈ parts, part.depth ≤ bound) : maxDepth parts ≤ bound := by
  induction parts with
  | nil => exact Nat.zero_le bound
  | cons part rest ih =>
      obtain ⟨hpart, hrest⟩ := List.forall_mem_cons.mp h
      exact max_le hpart (ih hrest)

theorem depth_le_maxDepth {part : Picture} :
    ∀ {parts : List Picture}, part ∈ parts → part.depth ≤ maxDepth parts
  | first :: rest, h => by
      rcases List.mem_cons.mp h with rfl | h
      · exact le_max_left _ _
      · exact (depth_le_maxDepth h).trans (le_max_right _ _)

/-- `part` occurs in the picture `root` inside the arrays `enclosing`, innermost first. -/
inductive Occurs (root : Picture) : List Handle → Picture → Prop
  | root : Occurs root [] root
  | element {enclosing : List Handle} {handle : Handle} {elements : List Picture}
      {part : Picture} :
      Occurs root enclosing (.opened handle elements) → part ∈ elements →
      Occurs root (handle :: enclosing) part

end Picture

namespace Heap

/-- The picture of a value that stands inside the arrays of `path`, rule by rule. -/
inductive Shows (heap : Heap) : List Handle → Value → Picture → Prop
  | plain {path : List Handle} {value : Value} :
      value.isArray = false → Shows heap path value (.plain value)
  | repeated {path : List Handle} {handle : Handle} :
      handle ∈ path → Shows heap path (.array handle) (.repeated handle)
  | freed {path : List Handle} {handle : Handle} :
      handle ∉ path → heap.get? handle = none →
      Shows heap path (.array handle) (.freed handle)
  | opened {path : List Handle} {handle : Handle} {array : HeapArray}
      {elements : List Picture} :
      handle ∉ path → heap.get? handle = some array →
      array.elements.toList.length = elements.length →
      (∀ shown ∈ array.elements.toList.zip elements,
        Shows heap (handle :: path) shown.1 shown.2) →
      Shows heap path (.array handle) (.opened handle elements)

namespace Shows

variable {heap : Heap} {path : List Handle} {value : Value} {picture : Picture}

theorem elements {handle : Handle} {array : HeapArray} {elements : List Picture}
    (hnew : handle ∉ path) (hlive : heap.get? handle = some array)
    (h : List.Forall₂ (heap.Shows (handle :: path)) array.elements.toList elements) :
    heap.Shows path (.array handle) (.opened handle elements) := by
  obtain ⟨hlength, hshown⟩ := List.forall₂_iff_zip.mp h
  exact .opened hnew hlive hlength fun _ hp => hshown hp

/-- Induction on a picture, with the elements of an array in pairs. -/
theorem induction
    {motive : ∀ path value picture, heap.Shows path value picture → Prop}
    (plain : ∀ path value (h : value.isArray = false), motive path value _ (.plain h))
    (repeated : ∀ path handle (h : handle ∈ path), motive path _ _ (.repeated h))
    (freed : ∀ path handle (hnew : handle ∉ path) (hdead : heap.get? handle = none),
      motive path _ _ (.freed hnew hdead))
    (opened : ∀ path handle array elements (hnew : handle ∉ path)
      (hlive : heap.get? handle = some array)
      (hshown : List.Forall₂ (heap.Shows (handle :: path)) array.elements.toList elements),
      List.Forall₂ (fun value picture => ∃ h, motive (handle :: path) value picture h)
        array.elements.toList elements →
      motive path _ _ (.elements hnew hlive hshown))
    (h : heap.Shows path value picture) : motive path value picture h := by
  induction h with
  | plain hplain => exact plain _ _ hplain
  | repeated hmem => exact repeated _ _ hmem
  | freed hnew hdead => exact freed _ _ hnew hdead
  | opened hnew hlive hlength hshown ih =>
      exact opened _ _ _ _ hnew hlive
        (List.forall₂_iff_zip.mpr ⟨hlength, fun hp => hshown _ hp⟩)
        (List.forall₂_iff_zip.mpr ⟨hlength, fun hp => ⟨hshown _ hp, ih _ hp⟩⟩)

theorem value_eq (h : heap.Shows path value picture) : picture.value = value := by
  cases h with
  | plain => rfl
  | repeated => rfl
  | freed => rfl
  | opened => rfl

/-! ### What the rules say of an array -/

section Inversion

variable {handle : Handle}

theorem eq_repeated (h : heap.Shows path (.array handle) picture) (hmem : handle ∈ path) :
    picture = .repeated handle := by
  cases h with
  | plain hplain => cases hplain
  | repeated => rfl
  | freed hnew => exact absurd hmem hnew
  | opened hnew => exact absurd hmem hnew

theorem eq_freed (h : heap.Shows path (.array handle) picture) (hnew : handle ∉ path)
    (hdead : heap.get? handle = none) : picture = .freed handle := by
  cases h with
  | plain hplain => cases hplain
  | repeated hmem => exact absurd hmem hnew
  | freed => rfl
  | opened _ hlive => cases hdead.symm.trans hlive

theorem eq_opened {array : HeapArray} (h : heap.Shows path (.array handle) picture)
    (hnew : handle ∉ path) (hlive : heap.get? handle = some array) :
    ∃ elements, picture = .opened handle elements ∧
      List.Forall₂ (heap.Shows (handle :: path)) array.elements.toList elements := by
  cases h with
  | plain hplain => cases hplain
  | repeated hmem => exact absurd hmem hnew
  | freed _ hdead => cases hdead.symm.trans hlive
  | @opened _ _ array' elements _ hlive' hlength hshown =>
      cases hlive.symm.trans hlive'
      exact ⟨elements, rfl, List.forall₂_iff_zip.mpr ⟨hlength, fun hp => hshown _ hp⟩⟩

end Inversion

theorem eq_plain (h : heap.Shows path value picture) (hplain : value.isArray = false) :
    picture = .plain value := by
  cases h with
  | plain => rfl
  | repeated => cases hplain
  | freed => cases hplain
  | opened => cases hplain

/-- A value has one picture only. -/
theorem unique (h : heap.Shows path value picture) :
    ∀ other, heap.Shows path value other → other = picture := by
  induction h using Shows.induction with
  | plain path value hplain =>
      intro other hother
      exact hother.eq_plain hplain
  | repeated path handle hmem =>
      intro other hother
      exact hother.eq_repeated hmem
  | freed path handle hnew hdead =>
      intro other hother
      exact hother.eq_freed hnew hdead
  | opened path handle array elements hnew hlive _ ih =>
      intro other hother
      obtain ⟨elements', rfl, hshown⟩ := hother.eq_opened hnew hlive
      have heq : List.Forall₂ Eq elements' elements :=
        forall₂_comp (fun _ _ _ hshows ⟨_, hunique⟩ => hunique _ hshows) hshown.flip ih
      rw [List.forall₂_eq_eq_eq] at heq
      rw [heq]

end Shows

variable {heap : Heap} {path : List Handle} {value : Value} {picture : Picture}

/-! ## There is a picture -/

/-- The slots that hold an array. -/
def occupied (heap : Heap) : List Nat := heap.slots.toList.findIdxs (·.array.isSome)

theorem length_occupied (heap : Heap) : heap.occupied.length = heap.liveArrays := by
  rw [occupied, List.length_findIdxs, liveArrays, Array.countP_toList]

theorem mem_occupied {handle : Handle} {array : HeapArray} (h : heap.get? handle = some array) :
    handle.index.toNat ∈ heap.occupied := by
  obtain ⟨slot, hslot, -, harray⟩ := get?_eq_some.mp h
  obtain ⟨hlt, hslot⟩ := Array.getElem?_eq_some_iff.mp hslot
  refine List.mem_findIdxs_iff_exists_getElem_pos.mpr ⟨hlt, ?_⟩
  rw [Array.getElem_toList, hslot, harray]
  rfl

/-- A path of different live arrays is no longer than there are live arrays. -/
theorem length_le_liveArrays (hnodup : path.Nodup)
    (hlive : ∀ handle ∈ path, ∃ array, heap.get? handle = some array) :
    path.length ≤ heap.liveArrays := by
  have hindices : (path.map (·.index.toNat)).Nodup := by
    refine hnodup.map_on fun g hg h hh hindex => ?_
    obtain ⟨x, hx⟩ := hlive g hg
    obtain ⟨y, hy⟩ := hlive h hh
    exact eq_of_live hx hy (UInt32.toNat_inj.mp hindex)
  have hsubset : path.map (·.index.toNat) ⊆ heap.occupied := by
    intro i hi
    obtain ⟨handle, hmem, rfl⟩ := List.mem_map.mp hi
    obtain ⟨array, harray⟩ := hlive handle hmem
    exact mem_occupied harray
  have hle := (hindices.subperm hsubset).length_le
  rwa [List.length_map, length_occupied] at hle

/-- No array has to be opened to print the value. -/
theorem exists_shows_of_closed
    (hclosed : ∀ handle, value = .array handle → handle ∉ path → heap.get? handle = none) :
    ∃ picture, heap.Shows path value picture ∧ picture.depth = 0 := by
  cases value with
  | array handle =>
      by_cases hmem : handle ∈ path
      · exact ⟨.repeated handle, .repeated hmem, rfl⟩
      · exact ⟨.freed handle, .freed hmem (hclosed handle rfl hmem), rfl⟩
  | _ => exact ⟨.plain _, .plain rfl, rfl⟩

/-- With room for the live arrays that are not on the path, a value has a picture in which no more
arrays are nested than there is room for. -/
theorem exists_shows (room : Nat) :
    ∀ {path : List Handle} (value : Value), path.Nodup →
      (∀ handle ∈ path, ∃ array, heap.get? handle = some array) →
      heap.liveArrays ≤ room + path.length →
      ∃ picture, heap.Shows path value picture ∧ picture.depth ≤ room := by
  induction room with
  | zero =>
      intro path value hnodup hlive hroom
      obtain ⟨picture, hshows, hdepth⟩ := exists_shows_of_closed fun handle _ hnew => by
        by_contra hsome
        obtain ⟨array, hget⟩ := Option.ne_none_iff_exists'.mp hsome
        -- the path with this array would be longer than there are live arrays
        have hlonger := length_le_liveArrays (List.nodup_cons.mpr ⟨hnew, hnodup⟩)
          (List.forall_mem_cons.mpr ⟨⟨array, hget⟩, hlive⟩)
        rw [List.length_cons] at hlonger
        omega
      exact ⟨picture, hshows, hdepth.le⟩
  | succ room ih =>
      intro path value hnodup hlive hroom
      by_cases hopen : ∃ handle array, value = .array handle ∧ handle ∉ path ∧
          heap.get? handle = some array
      · obtain ⟨handle, array, rfl, hnew, hget⟩ := hopen
        have hinner := fun element => ih element (List.nodup_cons.mpr ⟨hnew, hnodup⟩)
          (List.forall_mem_cons.mpr ⟨⟨array, hget⟩, hlive⟩)
          (by rw [List.length_cons]; omega)
        choose draw hshows hdepth using hinner
        refine ⟨.opened handle (array.elements.toList.map draw), .elements hnew hget ?_, ?_⟩
        · rw [List.forall₂_map_right_iff, List.forall₂_same]
          exact fun element _ => hshows element
        · refine Nat.succ_le_succ (Picture.maxDepth_le fun part hpart => ?_)
          obtain ⟨element, -, rfl⟩ := List.mem_map.mp hpart
          exact hdepth element
      · obtain ⟨picture, hshows, hdepth⟩ := exists_shows_of_closed fun handle hvalue hnew => by
          by_contra hsome
          obtain ⟨array, hget⟩ := Option.ne_none_iff_exists'.mp hsome
          exact hopen ⟨handle, array, hvalue, hnew, hget⟩
        exact ⟨picture, hshows, by omega⟩

theorem exists_picture (heap : Heap) (value : Value) :
    ∃ picture, heap.Shows [] value picture ∧ picture.depth ≤ heap.liveArrays :=
  exists_shows heap.liveArrays value List.nodup_nil (List.forall_mem_nil _) (Nat.le_refl _)

/-! ## The text of a value is that of its picture -/

/-- The set holds the keys of the arrays of the path. -/
def Tracks (keys : Std.TreeSet Nat) (path : List Handle) : Prop :=
  ∀ handle : Handle, keys.contains handle.key = true ↔ handle ∈ path

theorem key_inj {a b : Handle} : a.key = b.key ↔ a = b := by
  refine ⟨fun h => ?_, congrArg Handle.key⟩
  have ha : a.index.toNat < UInt32.size := a.index.toNat_lt
  have hb : b.index.toNat < UInt32.size := b.index.toNat_lt
  rw [Handle.key, Handle.key] at h
  have hindex : a.index.toNat = b.index.toNat := by
    simpa [Nat.mul_add_mod_of_lt, ha, hb] using congrArg (· % UInt32.size) h
  rw [hindex] at h
  have hgeneration : a.generation.toNat = b.generation.toNat :=
    Nat.eq_of_mul_eq_mul_right (Nat.zero_lt_of_lt ha) (Nat.add_right_cancel h)
  exact handle_eq_iff.mpr ⟨UInt32.toNat_inj.mp hindex, UInt32.toNat_inj.mp hgeneration⟩

theorem Tracks.empty : Tracks ∅ [] := by
  intro handle
  rw [Std.TreeSet.contains_emptyc]
  simp

theorem Tracks.insert {keys : Std.TreeSet Nat} (h : Tracks keys path) (handle : Handle) :
    Tracks (keys.insert handle.key) (handle :: path) := by
  intro other
  rw [Std.TreeSet.contains_insert, Bool.or_eq_true, beq_iff_eq, Nat.compare_eq_eq, key_inj,
    h other, List.mem_cons, eq_comm]

theorem Tracks.contains_eq_false {keys : Std.TreeSet Nat} (h : Tracks keys path) {handle : Handle}
    (hnew : handle ∉ path) : keys.contains handle.key = false :=
  Bool.eq_false_iff.mpr (mt (h handle).mp hnew)

theorem appendAll_eq {append : String → Value → String} {values : List Value}
    {parts : List Picture}
    (h : List.Forall₂ (fun value part => ∀ text, append text value = text ++ part.text)
      values parts) :
    ∀ text, appendAll append text values = text ++ ", ".intercalate (Picture.texts parts) := by
  induction h with
  | nil => intro text; simp [appendAll, Picture.texts]
  | @cons value part values parts hfirst hrest ih =>
      intro text
      cases hrest with
      | nil => simp [appendAll, Picture.texts, hfirst]
      | cons =>
          rw [appendAll, hfirst, ih]
          simp only [Picture.texts, String.intercalate_cons_cons, String.append_assoc]
          exact List.cons_ne_nil _ _

/-- The text of a value is the text of its picture, if there is room for its arrays. -/
theorem Shows.renderWithin_eq (h : heap.Shows path value picture) :
    ∀ {room : Nat} {keys : Std.TreeSet Nat}, picture.depth ≤ room → Tracks keys path →
      ∀ text, heap.renderWithin room keys text value = text ++ picture.text := by
  induction h using Shows.induction with
  | plain path value hplain =>
      intro room keys _ _ text
      cases value with
      | array handle => cases hplain
      | _ => simp only [renderWithin, Picture.text]
  | repeated path handle hmem =>
      intro room keys _ hkeys text
      rw [renderWithin, if_pos ((hkeys handle).mpr hmem), Picture.text]
  | freed path handle hnew hdead =>
      intro room keys _ hkeys text
      rw [renderWithin, hkeys.contains_eq_false hnew, hdead]
      simp only [Bool.false_eq_true, if_false, Picture.text, String.append_assoc]
  | opened path handle array elements hnew hget hshown ih =>
      intro room keys hdepth hkeys text
      cases room with
      | zero => cases hdepth
      | succ room =>
          have hinner : List.Forall₂ (fun value part => ∀ text,
              heap.renderWithin room (keys.insert handle.key) text value = text ++ part.text)
              array.elements.toList elements := by
            refine (forall₂_mem ih).imp fun element part ⟨_, hpart, _, ih⟩ => ?_
            refine ih ?_ (hkeys.insert handle)
            exact (Picture.depth_le_maxDepth hpart).trans (Nat.le_of_succ_le_succ hdepth)
          rw [renderWithin, hkeys.contains_eq_false hnew, hget]
          simp only [Bool.false_eq_true, if_false, appendAll_eq hinner, Picture.text,
            String.append_assoc]

theorem render_of_shows (h : heap.Shows [] value picture) : heap.render value = picture.text := by
  obtain ⟨other, hshows, hdepth⟩ := exists_picture heap value
  obtain rfl := h.unique other hshows
  rw [render, hshows.renderWithin_eq hdepth .empty, String.empty_append]

/-! ## Arrays inside arrays -/

/-- `inner` is an element of the live array `outer`. -/
def HasElement (heap : Heap) (outer inner : Value) : Prop :=
  ∃ handle array, outer = .array handle ∧ heap.get? handle = some array ∧
    inner ∈ array.elements.toList

/-- What can be reached from a value through elements of live arrays. -/
def Reaches (heap : Heap) : Value → Value → Prop := Relation.ReflTransGen heap.HasElement

/-- `inner` stands inside the live array `outer`, at any depth. -/
def Contains (heap : Heap) : Value → Value → Prop := Relation.TransGen heap.HasElement

/-- What occurs in a picture is the picture of what it shows, and every array around it contains
it. -/
theorem Shows.of_occurs (h : heap.Shows [] value picture) {enclosing : List Handle}
    {part : Picture} (hpart : picture.Occurs enclosing part) :
    heap.Shows enclosing part.value part ∧
      ∀ handle ∈ enclosing, heap.Contains (.array handle) part.value := by
  induction hpart with
  | root =>
      rw [h.value_eq]
      exact ⟨h, List.forall_mem_nil _⟩
  | @element enclosing handle elements part _ hmem ih =>
      obtain ⟨hshows, hcontains⟩ := ih
      cases hshows with
      | @opened _ _ array _ hnew hget hlength hshown =>
          have hshown := List.forall₂_iff_zip.mpr ⟨hlength, fun hp => hshown _ hp⟩
          obtain ⟨element, helement, hshows⟩ := exists_of_mem_right hshown hmem
          rw [hshows.value_eq]
          have hheld : heap.HasElement (.array handle) element :=
            ⟨handle, array, rfl, hget, helement⟩
          refine ⟨hshows, List.forall_mem_cons.mpr ⟨.single hheld, fun outer houter => ?_⟩⟩
          exact (hcontains outer houter).tail hheld

/-- A picture depends only on those arrays of the path that can be reached from the value. -/
theorem Shows.of_append (h : heap.Shows path value picture) :
    ∀ (inner : List Handle) {outer other : List Handle}, path = inner ++ outer →
      (∀ handle ∈ outer, ¬ heap.Reaches value (.array handle)) →
      (∀ handle ∈ other, ¬ heap.Reaches value (.array handle)) →
      heap.Shows (inner ++ other) value picture := by
  induction h using Shows.induction with
  | plain path value hplain =>
      intro inner outer other _ _ _
      exact .plain hplain
  | repeated path handle hmem =>
      rintro inner outer other rfl houter _
      rcases List.mem_append.mp hmem with hmem | hmem
      · exact .repeated (List.mem_append_left _ hmem)
      · exact absurd .refl (houter handle hmem)
  | freed path handle hnew hdead =>
      rintro inner outer other rfl _ hother
      refine .freed (fun hmem => ?_) hdead
      rcases List.mem_append.mp hmem with hmem | hmem
      · exact hnew (List.mem_append_left _ hmem)
      · exact hother handle hmem .refl
  | opened path handle array elements hnew hget hshown ih =>
      rintro inner outer other rfl houter hother
      refine .elements (fun hmem => ?_) hget ?_
      · rcases List.mem_append.mp hmem with hmem | hmem
        · exact hnew (List.mem_append_left _ hmem)
        · exact hother handle hmem .refl
      · refine (forall₂_mem ih).imp fun element part ⟨helement, _, _, ih⟩ => ?_
        have hheld : heap.HasElement (.array handle) element :=
          ⟨handle, array, rfl, hget, helement⟩
        exact ih (handle :: inner) rfl
          (fun g hg hreaches => houter g hg (hreaches.head hheld))
          (fun g hg hreaches => hother g hg (hreaches.head hheld))

/-- An array that does not contain itself has the same picture wherever it stands. -/
theorem Shows.of_not_contains {enclosing : List Handle} {handle : Handle} {part : Picture}
    (h : heap.Shows enclosing (.array handle) part)
    (henclosing : ∀ outer ∈ enclosing, heap.Contains (.array outer) (.array handle))
    (hself : ¬ heap.Contains (.array handle) (.array handle)) :
    heap.Shows [] (.array handle) part := by
  refine h.of_append [] rfl (fun outer houter hreaches => ?_) (List.forall_mem_nil _)
  exact hself (Relation.TransGen.trans_right hreaches (henclosing outer houter))

/-! ## The text of a value -/

/-- **Texts of values.**  Every value has exactly one picture, and its text is that of the picture.
No more arrays are nested in it than are live, and more room would change nothing.  An array is cut
short exactly where it stands inside itself; so one that does not contain itself is printed in full,
and in the same way, wherever it occurs. -/
theorem render_cycle_safe (heap : Heap) (value : Value) :
    ∃ picture : Picture, heap.Shows [] value picture ∧ heap.render value = picture.text ∧
      (∀ other, heap.Shows [] value other → other = picture) ∧
      picture.depth ≤ heap.liveArrays ∧
      (∀ room, heap.liveArrays ≤ room → heap.renderWithin room ∅ "" value = heap.render value) ∧
      ∀ enclosing part handle, picture.Occurs enclosing part → part.value = .array handle →
        (part = .repeated handle ↔ handle ∈ enclosing) ∧
        (¬ heap.Contains (.array handle) (.array handle) →
          part.text = heap.render (.array handle)) := by
  obtain ⟨picture, hshows, hdepth⟩ := exists_picture heap value
  refine ⟨picture, hshows, render_of_shows hshows, hshows.unique, hdepth, fun room hroom => ?_, ?_⟩
  · rw [hshows.renderWithin_eq (hdepth.trans hroom) .empty, String.empty_append,
      render_of_shows hshows]
  · intro enclosing part handle hoccurs hvalue
    obtain ⟨hpart, hcontains⟩ := hshows.of_occurs hoccurs
    rw [hvalue] at hpart hcontains
    refine ⟨⟨?_, hpart.eq_repeated⟩, fun hself => ?_⟩
    · rintro rfl
      cases hpart with
      | repeated hmem => exact hmem
    · rw [render_of_shows (hpart.of_not_contains hcontains hself)]

-- The first two arrays hold each other, the third one holds itself.
example : circles.render (.array ⟨0, 0⟩) = "[[[...]]]" ∧
    circles.render (.array ⟨2, 0⟩) = "[[...]]" ∧
    circles.render (.array ⟨2, 7⟩) = "<freed array #2>" := by
  decide +kernel

/-! ## Equal values have equal texts -/

end Heap

/-- Whether a value is a floating-point number. -/
def Value.isFloat : Value → Bool
  | .f32 _ | .f64 _ => true
  | _ => false

theorem Value.key?_of_isFloat {a : Value} (h : a.isFloat = false) : a.key? = some (.inl a) := by
  cases a with
  | f32 => cases h
  | f64 => cases h
  | _ => rfl

/-- Values other than floating-point numbers are equal, without a look into arrays, only if they are
the same. -/
theorem Value.eq_of_shallowEq {a b : Value} (ha : a.isFloat = false) (hb : b.isFloat = false)
    (h : a.shallowEq b = true) : a = b := by
  obtain ⟨hkey, -⟩ := shallowEq_iff.mp h
  rw [key?_of_isFloat ha, key?_of_isFloat hb] at hkey
  exact Sum.inl.inj (Option.some.inj hkey)

theorem Value.isNaN_of_isFloat {a : Value} (h : a.isFloat = false) : a.isNaN = false := by
  cases a with
  | f32 => cases h
  | f64 => cases h
  | _ => rfl

namespace Heap

variable {heap : Heap} {path : List Handle} {a b : Value}

/-- From the value one reaches neither a live array that contains itself nor a floating-point
number. -/
structure Tame (heap : Heap) (value : Value) : Prop where
  acyclic : ∀ other, heap.Reaches value other → ¬ heap.Contains other other
  floatless : ∀ other, heap.Reaches value other → other.isFloat = false

theorem Tame.element (h : heap.Tame a) (helement : heap.HasElement a b) : heap.Tame b where
  acyclic other hother := h.acyclic other (hother.head helement)
  floatless other hother := h.floatless other (hother.head helement)

/-- A tame value is not inside itself. -/
theorem Tame.notMem {handle : Handle} (h : heap.Tame (.array handle))
    (hpath : ∀ outer ∈ path, heap.Contains (.array outer) (.array handle)) : handle ∉ path :=
  fun hmem => h.acyclic _ .refl (hpath handle hmem)

/-- The elements of two live arrays that look alike, one of which is tame, look alike in pairs.  If
it is the same array twice, that takes a look at its elements. -/
theorem Bisimilar.elements {g h : Handle} {x : HeapArray}
    (hab : heap.Bisimilar (.array g) (.array h))
    (htame : heap.Tame (.array g)) (hx : heap.get? g = some x) :
    ∃ y, heap.get? h = some y ∧
      List.Forall₂ heap.Bisimilar x.elements.toList y.elements.toList := by
  by_cases heq : g = h
  · subst heq
    refine ⟨x, hx, List.forall₂_same.mpr fun element helement => ?_⟩
    have hheld : heap.HasElement (.array g) element := ⟨g, x, rfl, hx, helement⟩
    exact bisimilar_self_iff.mpr
      (Value.isNaN_of_isFloat (htame.floatless element (.single hheld)))
  · obtain ⟨x', y, hx', hy, helements⟩ :=
      (isBisimulation_bisimilar heap _ _ hab).elements heq
    cases hx.symm.trans hx'
    exact ⟨y, hy, helements⟩

/-- Tame values that look alike have pictures of one text. -/
theorem Shows.text_eq {picture : Picture} (h : heap.Shows path a picture) :
    ∀ {path' : List Handle} {b : Value} {picture' : Picture}, heap.Shows path' b picture' →
      heap.Bisimilar a b → heap.Tame a → heap.Tame b →
      (∀ outer ∈ path, heap.Contains (.array outer) a) →
      (∀ outer ∈ path', heap.Contains (.array outer) b) →
      picture.text = picture'.text := by
  induction h using Shows.induction with
  | plain path a hplain =>
      intro path' b picture' h' hab ha hb _ _
      have hlook := isBisimulation_bisimilar heap a b hab
      have heq : a.shallowEq b = true :=
        hlook.shallowEq fun g _ hg _ => by rw [hg] at hplain; cases hplain
      obtain rfl := Value.eq_of_shallowEq (ha.floatless a .refl) (hb.floatless b .refl) heq
      rw [h'.eq_plain hplain]
  | repeated path handle hmem =>
      intro path' b picture' _ _ ha _ hpath _
      exact absurd hmem (ha.notMem hpath)
  | freed path handle hnew hdead =>
      intro path' b picture' h' hab _ hb _ hpath'
      obtain rfl := (isBisimulation_bisimilar heap _ _ hab).eq_of_dead hdead (.inl rfl)
      rw [h'.eq_freed (hb.notMem hpath') hdead]
  | opened path handle array elements hnew hget hshown ih =>
      intro path' b picture' h' hab ha hb hpath hpath'
      cases b with
      | array handle' =>
          obtain ⟨array', hget', hpairs⟩ := hab.elements ha hget
          obtain ⟨elements', rfl, hshown'⟩ := h'.eq_opened (hb.notMem hpath') hget'
          have hinner : List.Forall₂ (fun part element' => ∀ part',
              heap.Shows (handle' :: path') element' part' → part.text = part'.text)
              elements array'.elements.toList := by
            refine forall₂_comp ?_ (List.Forall₂.flip ih) (forall₂_mem hpairs)
            rintro part element element' ⟨-, ih⟩ ⟨helement, helement', hab⟩ part' hpart'
            have hheld : heap.HasElement (.array handle) element :=
              ⟨handle, array, rfl, hget, helement⟩
            have hheld' : heap.HasElement (.array handle') element' :=
              ⟨handle', array', rfl, hget', helement'⟩
            refine ih hpart' hab (ha.element hheld) (hb.element hheld') ?_ ?_
            · exact List.forall_mem_cons.mpr
                ⟨.single hheld, fun outer houter => (hpath outer houter).tail hheld⟩
            · exact List.forall_mem_cons.mpr
                ⟨.single hheld', fun outer houter => (hpath' outer houter).tail hheld'⟩
          have htexts :
              List.Forall₂ Eq (elements.map Picture.text) (elements'.map Picture.text) := by
            rw [List.forall₂_map_left_iff, List.forall₂_map_right_iff]
            exact forall₂_comp (fun _ _ _ htext hshows => htext _ hshows) hinner hshown'
          rw [List.forall₂_eq_eq_eq] at htexts
          rw [Picture.text, Picture.text, Picture.texts_eq_map, Picture.texts_eq_map, htexts]
      | _ =>
          cases isBisimulation_bisimilar heap _ _ hab with
          | plain hplain => cases hplain

/-- **Equal values have equal texts**, unless floating-point numbers or arrays that contain
themselves are in them. -/
theorem render_eq_of_valuesEqual (ha : heap.Tame a) (hb : heap.Tame b)
    (h : heap.valuesEqual a b = true) : heap.render a = heap.render b := by
  obtain ⟨picture, hpicture, -⟩ := exists_picture heap a
  obtain ⟨picture', hpicture', -⟩ := exists_picture heap b
  rw [render_of_shows hpicture, render_of_shows hpicture']
  exact hpicture.text_eq hpicture' (valuesEqual_iff_bisimilar.mp h) ha hb (List.forall_mem_nil _)
    (List.forall_mem_nil _)

/-- Values look alike if one look shows values that do. -/
theorem bisimilar_of_alike (h : heap.Alike heap.Bisimilar a b) : heap.Bisimilar a b := by
  refine ⟨fun x y => heap.Bisimilar x y ∨ x = a ∧ y = b, ?_, .inr ⟨rfl, rfl⟩⟩
  rintro x y (hxy | ⟨rfl, rfl⟩)
  · exact (isBisimulation_bisimilar heap x y hxy).mono fun _ _ h => .inl h
  · exact h.mono fun _ _ h => .inl h

/-- Values are tame where no array holds a floating-point number or an array of a later slot. -/
theorem tame_of_descending
    (h : ∀ handle array, heap.get? handle = some array → ∀ element ∈ array.elements.toList,
      element.isFloat = false ∧
        ∀ inner, element = .array inner → inner.index.toNat < handle.index.toNat)
    (ha : a.isFloat = false) : heap.Tame a := by
  have hdescends : ∀ {outer inner : Value}, heap.Contains outer inner →
      ∃ g, outer = .array g ∧ ∀ g', inner = .array g' → g'.index.toNat < g.index.toNat := by
    intro outer inner hcontains
    induction hcontains with
    | single hheld =>
        obtain ⟨g, array, rfl, hget, helement⟩ := hheld
        exact ⟨g, rfl, (h g array hget _ helement).2⟩
    | tail _ hheld ih =>
        obtain ⟨g, rfl, hless⟩ := ih
        obtain ⟨g', array, rfl, hget, helement⟩ := hheld
        refine ⟨g, rfl, fun inner hinner => ?_⟩
        exact ((h g' array hget _ helement).2 inner hinner).trans (hless g' rfl)
  refine ⟨fun other _ hself => ?_, fun other hreaches => ?_⟩
  · obtain ⟨g, rfl, hless⟩ := hdescends hself
    exact Nat.lt_irrefl _ (hless g rfl)
  · cases hreaches with
    | refl => exact ha
    | tail _ hheld =>
        obtain ⟨g, array, rfl, hget, helement⟩ := hheld
        exact (h g array hget _ helement).1

/-- A freed slot; two arrays that show the same and hold its old handle; an array that holds one of
them twice, and one that holds both. -/
def twins : Heap where
  slots := #[⟨1, none⟩, ⟨0, some ⟨1, #[.i32 7, .array ⟨0, 0⟩]⟩⟩,
    ⟨0, some ⟨1, #[.i32 7, .array ⟨0, 0⟩]⟩⟩, ⟨0, some ⟨1, #[.array ⟨1, 0⟩, .array ⟨1, 0⟩]⟩⟩,
    ⟨0, some ⟨1, #[.array ⟨1, 0⟩, .array ⟨2, 0⟩]⟩⟩]
  free := [0]
  liveElements := 8
  limit := 8
  memory := .unbounded

theorem tame_twins (ha : a.isFloat = false) : twins.Tame a := by
  refine tame_of_descending (fun handle array hget element helement => ?_) ha
  obtain ⟨slot, hslot, -, harray⟩ := get?_eq_some.mp hget
  obtain ⟨hlt, rfl⟩ := Array.getElem?_eq_some_iff.mp hslot
  have hsize : handle.index.toNat < 5 := hlt
  clear hget hslot
  generalize handle.index.toNat = i at *
  interval_cases i <;> cases harray <;> simp at helement
  · rcases helement with rfl | rfl <;> simp [Value.isFloat]
  · rcases helement with rfl | rfl <;> simp [Value.isFloat]
  · subst helement
    simp [Value.isFloat]
  · rcases helement with rfl | rfl <;> simp [Value.isFloat]

/-- The two outer arrays are equal, though only one of them shares its elements; both are printed
in full, with the old handle twice. -/
theorem render_eq_of_valuesEqual_twins :
    twins.valuesEqual (.array ⟨3, 0⟩) (.array ⟨4, 0⟩) = true ∧
    twins.render (.array ⟨3, 0⟩) = twins.render (.array ⟨4, 0⟩) ∧
    twins.render (.array ⟨4, 0⟩) = "[[7, <freed array #0>], [7, <freed array #0>]]" := by
  have hself : ∀ {a : Value}, a.isNaN = false → twins.Bisimilar a a := bisimilar_self_iff.mpr
  have hinner : twins.Bisimilar (.array ⟨1, 0⟩) (.array ⟨2, 0⟩) :=
    bisimilar_of_alike (.elementwise rfl rfl (.cons (hself rfl) (.cons (hself rfl) .nil)))
  have hsame : twins.Bisimilar (.array ⟨3, 0⟩) (.array ⟨4, 0⟩) :=
    bisimilar_of_alike (.elementwise rfl rfl (.cons (hself rfl) (.cons hinner .nil)))
  have hequal := valuesEqual_iff_bisimilar.mpr hsame
  refine ⟨hequal, render_eq_of_valuesEqual (tame_twins rfl) (tame_twins rfl) hequal, ?_⟩
  decide +kernel

end Heap

end RegisterMachine
