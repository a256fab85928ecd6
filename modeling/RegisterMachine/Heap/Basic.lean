import RegisterMachine.Error
import RegisterMachine.Value
import Std.Data.HashSet
import Std.Data.TreeSet

/-!
# The heap

Arrays live in slots.  A slot has a generation that grows by one whenever its array is freed; a
handle is live if its slot holds an array and has the handle's generation.  Freed slots are used
again, the last freed first.  A reference count changes only when it is asked to: to store an
array in another one does not count, and to free an array leaves the arrays in it alone.

Every operation that can fail comes as a check, which reads the heap only, and an action, which is
total and does the writing; the operation itself is the action behind its check.

Arrays may hold themselves.  The text of a value shows such an array as `[...]` where it stands
inside itself; a comparison does not look again into a pair of arrays that it has met before.
-/

namespace RegisterMachine

structure HeapArray where
  refcount : UInt32
  elements : Array Value

structure HeapSlot where
  generation : UInt32
  array : Option HeapArray

/-- The memory that arrays are made in, as far as a heap can tell: whether there is room for `size`
more elements beside the `live` ones.  That is for the host to say; nothing is known about it. -/
structure Memory where
  reserves : (live size : Nat) → Bool

/-- Memory that never runs out. -/
def Memory.unbounded : Memory := ⟨fun _ _ => true⟩

/-- Memory with room for so many elements. -/
def Memory.ofCapacity (elements : Nat) : Memory := ⟨fun live size => live + size ≤ elements⟩

/-- The heap: its slots, the free ones (last freed first), the number of elements of all live
arrays, how many elements there may be, and the memory that they are made in. -/
structure Heap where
  slots : Array HeapSlot
  free : List UInt32
  liveElements : Nat
  limit : Nat
  memory : Memory

namespace Heap

/-- Elements that a heap may hold unless told otherwise. -/
def defaultLimit : Nat := 16 * 1024 * 1024

def empty (memory : Memory) (limit : Nat) : Heap := ⟨#[], [], 0, limit, memory⟩

/-- The array behind a handle, if the handle is live. -/
def get? (heap : Heap) (handle : Handle) : Option HeapArray :=
  match heap.slots[handle.index.toNat]? with
  | some slot => if slot.generation = handle.generation then slot.array else none
  | none => none

def get (heap : Heap) (handle : Handle) : Except Error HeapArray :=
  match heap.get? handle with
  | some array => .ok array
  | none => .error (.heapInvariant handle.index "use of a freed array")

def liveArrays (heap : Heap) : Nat := heap.slots.countP (·.array.isSome)

/-! ## Allocation -/

/-- Why an array of a given size cannot be allocated, if so: the limit, the memory, or no slot is
left. -/
def refusal? (heap : Heap) (size : Nat) : Option Error :=
  if heap.limit < heap.liveElements + size ∨ heap.memory.reserves heap.liveElements size = false ∨
      (heap.free.isEmpty ∧ UInt32.size ≤ heap.slots.size) then
    some (.outOfMemory size)
  else none

/-- Puts a new array into the last freed slot, or into a new one. -/
def place (heap : Heap) (size : Nat) (fill : Value) : Handle × Heap :=
  let array : HeapArray := ⟨1, Array.replicate size fill⟩
  let liveElements := heap.liveElements + size
  match heap.free with
  | index :: rest =>
    let generation := match heap.slots[index.toNat]? with
      | some slot => slot.generation
      | none => 0
    let slots := heap.slots.modify index.toNat fun slot => { slot with array := some array }
    (⟨index, generation⟩, { heap with slots, free := rest, liveElements })
  | [] =>
    (⟨UInt32.ofNat heap.slots.size, 0⟩,
      { heap with slots := heap.slots.push ⟨0, some array⟩, liveElements })

/-- A new array of `size` copies of `fill`, with one reference. -/
def allocate (heap : Heap) (size : Nat) (fill : Value) : Attempt Heap Handle :=
  match heap.refusal? size with
  | some error => (.error error, heap)
  | none =>
    let (handle, heap) := heap.place size fill
    (.ok handle, heap)

/-- An action behind its check. -/
@[inline] def behind {α : Type} (heap : Heap) (check : Except Error α) (act : α → Heap) :
    Attempt Heap Unit :=
  match check with
  | .error error => (.error error, heap)
  | .ok a => (.ok (), act a)

/-! ## Deallocation -/

/-- Whether an array may be freed: it is live, and has no references unless these are ignored. -/
def checkFree (heap : Heap) (handle : Handle) (ignoreReferences : Bool) : Except Error Unit :=
  match heap.get? handle with
  | none => .error (.heapInvariant handle.index "double free")
  | some array =>
    if 0 < array.refcount ∧ !ignoreReferences then
      .error (.heapInvariant handle.index "free of an array that is still referenced")
    else .ok ()

/-- Empties the slot of a live handle. -/
def release (heap : Heap) (handle : Handle) : Heap :=
  let size := match heap.get? handle with
    | some array => array.elements.size
    | none => 0
  { heap with
    slots := heap.slots.modify handle.index.toNat fun slot => ⟨slot.generation + 1, none⟩
    free := handle.index :: heap.free
    liveElements := heap.liveElements - size }

def deallocate (heap : Heap) (handle : Handle) (ignoreReferences : Bool) : Attempt Heap Unit :=
  heap.behind (heap.checkFree handle ignoreReferences) fun _ => heap.release handle

/-! ## Reference counts -/

/-- Changes the array behind a live handle. -/
def update (heap : Heap) (handle : Handle) (change : HeapArray → HeapArray) : Heap :=
  { heap with
    slots := heap.slots.modify handle.index.toNat fun slot =>
      { slot with array := slot.array.map change } }

def setRefcount (heap : Heap) (handle : Handle) (count : UInt32) : Heap :=
  heap.update handle fun array => { array with refcount := count }

def refcount (heap : Heap) (handle : Handle) : Except Error UInt32 := do
  return (← heap.get handle).refcount

/-- The reference count after one more reference. -/
def checkInc (heap : Heap) (handle : Handle) : Except Error UInt32 := do
  let array ← heap.get handle
  if array.refcount = 0xffffffff then throw (.heapInvariant handle.index "refcount overflow")
  return array.refcount + 1

/-- The reference count after one reference less. -/
def checkDec (heap : Heap) (handle : Handle) : Except Error UInt32 := do
  let array ← heap.get handle
  if array.refcount = 0 then throw (.heapInvariant handle.index "refcount would drop below zero")
  return array.refcount - 1

def refInc (heap : Heap) (handle : Handle) : Attempt Heap Unit :=
  heap.behind (heap.checkInc handle) (heap.setRefcount handle)

/-- Drops a reference; an array without references stays until it is freed. -/
def refDec (heap : Heap) (handle : Handle) : Attempt Heap Unit :=
  heap.behind (heap.checkDec handle) (heap.setRefcount handle)

/-! ## Elements -/

def length (heap : Heap) (handle : Handle) : Except Error Nat := do
  return (← heap.get handle).elements.size

/-- The place of an index in an array of a given length. -/
def checkIndex (index : Int) (length : Nat) : Except Error Nat :=
  if 0 ≤ index ∧ index < length then .ok index.toNat
  else .error (.indexOutOfRange index length)

def locate (heap : Heap) (handle : Handle) (index : Int) : Except Error Nat := do
  checkIndex index (← heap.length handle)

def load (heap : Heap) (handle : Handle) (index : Int) : Except Error Value := do
  let array ← heap.get handle
  let place ← checkIndex index array.elements.size
  return array.elements.getD place Value.zero

def setElement (heap : Heap) (handle : Handle) (place : Nat) (value : Value) : Heap :=
  heap.update handle fun array =>
    { array with elements := array.elements.setIfInBounds place value }

def store (heap : Heap) (handle : Handle) (index : Int) (value : Value) : Attempt Heap Unit :=
  heap.behind (heap.locate handle index) fun place => heap.setElement handle place value

/-! ## Texts -/

/-- Appends values to a text, with commas between them. -/
def appendAll (append : String → Value → String) (text : String) : List Value → String
  | [] => text
  | [value] => append text value
  | value :: rest => appendAll append (append text value ++ ", ") rest

/-- Appends a value that stands inside the arrays of `path` to a text.  `room` bounds how many more
arrays can be opened. -/
def renderWithin (heap : Heap) : Nat → Std.TreeSet Nat → String → Value → String
  | room, path, text, .array handle =>
    if path.contains handle.key then text ++ "[...]"
    else
      match heap.get? handle with
      | none => text ++ "<freed array #" ++ toString handle.index ++ ">"
      | some array =>
        match room with
        | 0 => text ++ "[...]"
        | room + 1 =>
          appendAll (heap.renderWithin room (path.insert handle.key)) (text ++ "[")
            array.elements.toList ++ "]"
  | _, _, text, value => text ++ value.text

/-- The text of a value with the elements of its arrays.  No path holds more arrays than are
live. -/
def render (heap : Heap) (value : Value) : String :=
  heap.renderWithin heap.liveArrays ∅ "" value

/-! ## Equality -/

/-- Whether all the pairs are equal.  `seen` are the pairs of live arrays that were opened so far
and `room` bounds how many more of them there can be. -/
def allEqual (heap : Heap) (room : Nat) (seen : Std.HashSet (Handle × Handle)) :
    List (Value × Value) → Bool
  | [] => true
  | (.array a, .array b) :: rest =>
    if a = b then heap.allEqual room seen rest
    else
      match heap.get? a, heap.get? b with
      | some x, some y =>
        if seen.contains (a, b) then heap.allEqual room seen rest
        else if x.elements.size = y.elements.size then
          match room with
          | 0 => false
          | room + 1 =>
            heap.allEqual room (seen.insert (a, b))
              (x.elements.toList.zip y.elements.toList ++ rest)
        else false
      | _, _ => false
  | (a, b) :: rest => a.shallowEq b && heap.allEqual room seen rest
termination_by work => (room, work.length)

/-- Whether two values look alike: numbers as numbers, arrays by length and by elements, whatever
their slots.  A handle that is not live is equal to itself only.  There are at most as many pairs
of live arrays as pairs of slots. -/
def valuesEqual (heap : Heap) (a b : Value) : Bool :=
  heap.allEqual (heap.slots.size * heap.slots.size) ∅ [(a, b)]

end Heap

end RegisterMachine
