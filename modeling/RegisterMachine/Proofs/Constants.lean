import Mathlib
import RegisterMachine.Proofs.Persistence

/-!
# Interned constants

The index of a constant table names the first place of each constant that the table holds
(`Indexed.positions_eq_some_iff`, `Indexed.mem_positions_iff`), so the place that adding a constant
gives is one where the table holds it (`Indexed.add_eq_ok`).  Tables only grow: a place that was
given stays good whatever is added later (`Extends`, `positions_addAll`).  `constants_interned` says
this of all tables that can be reached, also of those that were read with a constant in them twice.

Two floating-point constants are the same if their bits are, so that equality of constants is
equality of values of the type throughout.
-/

namespace RegisterMachine

namespace ConstantTable

variable {α : Type} [DecidableEq α] [Hashable α]

theorem getElem?_firstPlaces (value : α) (entries : List α) :
    (firstPlaces ∅ 0 entries)[value]? = (entries.findIdx? (· == value)).map UInt16.ofNat := by
  induction entries using List.reverseRecOn with
  | nil => simp [firstPlaces]
  | append_singleton entries last ih =>
      have hmem : last ∈ firstPlaces ∅ 0 entries ↔
          ((firstPlaces ∅ 0 entries)[last]?).isSome = true :=
        Std.ExtHashMap.isSome_getElem?_iff_mem.symm
      rw [firstPlaces_append, Std.ExtHashMap.getElem?_insertIfNew, ih, List.findIdx?_append,
        Nat.zero_add]
      by_cases hlast : last = value
      · subst hlast
        simp only [hmem, ih, BEq.rfl, true_and]
        cases entries.findIdx? (· == last) <;> simp [List.findIdx?_cons]
      · simp [hlast, List.findIdx?_cons]

/-- The table holds the constant there, and nowhere before. -/
def FirstAt (table : ConstantTable α) (value : α) (index : UInt16) : Prop :=
  table.get? index = some value ∧ ∀ i < index.toNat, table.entries[i]? ≠ some value

namespace Indexed

variable {table : ConstantTable α}

/-- The index gives each constant its first place. -/
theorem positions_eq (h : table.Indexed) (value : α) :
    table.positions[value]? = (table.entries.toList.findIdx? (· == value)).map UInt16.ofNat := by
  have hpositions : table.positions = firstPlaces ∅ 0 table.entries.toList :=
    congrArg positions h.eq_ofEntries
  rw [hpositions, getElem?_firstPlaces]

/-- Sixteen bits hold every place of a table. -/
theorem toNat_ofNat (h : table.Indexed) {i : Nat} (hi : i < table.entries.size) :
    (UInt16.ofNat i).toNat = i :=
  UInt16.toNat_ofNat_of_lt (hi.trans_le h.size_le)

/-- The table holds a constant at the place that the index gives it. -/
theorem get?_of_positions (h : table.Indexed) {value : α} {index : UInt16}
    (hp : table.positions[value]? = some index) : table.get? index = some value := by
  rw [h.positions_eq, Option.map_eq_some_iff] at hp
  obtain ⟨i, hi, rfl⟩ := hp
  obtain ⟨hlt, hvalue, -⟩ := List.findIdx?_eq_some_iff_getElem.mp hi
  rw [Array.length_toList] at hlt
  rw [get?, h.toNat_ofNat hlt, Array.getElem?_eq_getElem hlt]
  simpa using hvalue

/-- The place that the index gives a constant is the first one at which the table holds it. -/
theorem positions_eq_some_iff (h : table.Indexed) {value : α} {index : UInt16} :
    table.positions[value]? = some index ↔ table.FirstAt value index := by
  constructor
  · intro hp
    refine ⟨h.get?_of_positions hp, fun i hi => ?_⟩
    rw [h.positions_eq, Option.map_eq_some_iff] at hp
    obtain ⟨k, hk, rfl⟩ := hp
    obtain ⟨hlt, -, hfirst⟩ := List.findIdx?_eq_some_iff_getElem.mp hk
    rw [Array.length_toList] at hlt
    rw [h.toNat_ofNat hlt] at hi
    rw [Array.getElem?_eq_getElem (hi.trans hlt)]
    simpa using hfirst i hi
  · rintro ⟨hget, hfirst⟩
    obtain ⟨hlt, hvalue⟩ := Array.getElem?_eq_some_iff.mp hget
    have hfound : table.entries.toList.findIdx? (· == value) = some index.toNat := by
      refine List.findIdx?_eq_some_iff_getElem.mpr ⟨hlt, by simpa using hvalue, fun j hj => ?_⟩
      have hne := hfirst j hj
      rw [Array.getElem?_eq_getElem (hj.trans hlt)] at hne
      simpa using hne
    rw [h.positions_eq, hfound, Option.map_some, UInt16.ofNat_toNat]

/-- The index holds the constants of the table and no others. -/
theorem mem_positions_iff (h : table.Indexed) {value : α} :
    value ∈ table.positions ↔ value ∈ table.entries := by
  rw [← Std.ExtHashMap.isSome_getElem?_iff_mem, h.positions_eq, Option.isSome_map,
    List.findIdx?_isSome, List.any_beq', List.contains_iff_mem, Array.mem_toList_iff]

theorem positions_eq_none_iff (h : table.Indexed) {value : α} :
    table.positions[value]? = none ↔ value ∉ table.entries := by
  rw [← h.mem_positions_iff, ← Std.ExtHashMap.isSome_getElem?_iff_mem, Bool.not_eq_true,
    Option.isSome_eq_false_iff, Option.isNone_iff_eq_none]

end Indexed

/-- Every place of the one table is as good in the other. -/
def Extends (table table' : ConstantTable α) : Prop :=
  ∀ index value, table.get? index = some value → table'.get? index = some value

namespace Added

variable {table : ConstantTable α} {value : α} {attempt : Attempt (ConstantTable α) UInt16}

theorem getElem?_entries (h : table.Added value attempt) {i : Nat} (hi : i < table.entries.size) :
    attempt.2.entries[i]? = table.entries[i]? := by
  cases h with
  | found => rfl
  | refused => rfl
  | appended => rw [Array.getElem?_push_lt hi, Array.getElem?_eq_getElem hi]

theorem toExtends (h : table.Added value attempt) : table.Extends attempt.2 := by
  intro index v hv
  obtain ⟨hlt, -⟩ := Array.getElem?_eq_some_iff.mp hv
  exact (h.getElem?_entries hlt).trans hv

/-- A constant that has a place keeps it. -/
theorem positions_of_some (h : table.Added value attempt) {v : α} {index : UInt16}
    (hv : table.positions[v]? = some index) : attempt.2.positions[v]? = some index := by
  cases h with
  | found => exact hv
  | refused => exact hv
  | appended hnew =>
      have hne : value ≠ v := by
        rintro rfl
        cases hnew.symm.trans hv
      rw [Std.ExtHashMap.getElem?_insert, if_neg (by simpa using hne), hv]

/-- The place that is given is the place that the constant has from now on. -/
theorem positions_of_ok {index : UInt16} {table' : ConstantTable α}
    (h : table.Added value (.ok index, table')) : table'.positions[value]? = some index := by
  cases h with
  | found hp => exact hp
  | appended => exact Std.ExtHashMap.getElem?_insert_self

/-- A constant is refused exactly if it is a new one and the table is full. -/
theorem error_iff (h : table.Added value attempt) (ht : table.Indexed) :
    (∃ error, attempt.1 = .error error) ↔
      table.entries.size = maxTableLength ∧ value ∉ table.entries := by
  rw [← ht.positions_eq_none_iff]
  cases h with
  | found hp => simp [hp]
  | appended hp hroom => simp [hroom.ne]
  | refused hp hfull => simp [hp, hfull.antisymm ht.size_le]

theorem eq_of_error (h : table.Added value attempt) {error : Error}
    (herror : attempt.1 = .error error) : attempt.2 = table := by
  cases h with
  | found => rfl
  | appended => cases herror
  | refused => rfl

/-- Only constants that the table does not hold are added to it. -/
theorem nodup (h : table.Added value attempt) (ht : table.Indexed)
    (hn : table.entries.toList.Nodup) : attempt.2.entries.toList.Nodup := by
  cases h with
  | found => exact hn
  | refused => exact hn
  | appended hp =>
      have hnew : value ∉ table.entries := ht.positions_eq_none_iff.mp hp
      rw [Array.toList_push, ← List.concat_eq_append, List.nodup_concat]
      exact ⟨fun hmem => hnew (Array.mem_toList_iff.mp hmem), hn⟩

end Added

/-- A constant that was added is found at the place that was given, and the places before it are as
they were. -/
theorem Indexed.add_eq_ok [Constant α] {table table' : ConstantTable α} (h : table.Indexed)
    {value : α} {index : UInt16} (hadd : table.add value = (.ok index, table')) :
    table'.Indexed ∧ table.Extends table' ∧ table'.get? index = some value := by
  have hadded : table.Added value (.ok index, table') := hadd ▸ table.added value
  have hindexed := hadded.indexed h
  exact ⟨hindexed, hadded.toExtends, hindexed.get?_of_positions hadded.positions_of_ok⟩

/-! ## Histories of a table -/

/-- The tables that a history starts with: an empty one, or one that was read. -/
inductive Initial [Constant α] : ConstantTable α → Prop
  | empty : Initial .empty
  | read {input rest : List UInt8} {table : ConstantTable α} :
      decode.run input = .ok (table, rest) → Initial table

/-- Adds constants one after the other; one that is refused leaves the table as it was. -/
def addAll [Constant α] (table : ConstantTable α) (values : List α) : ConstantTable α :=
  values.foldl (fun table value => (table.add value).2) table

section

variable [Constant α] {table : ConstantTable α}

theorem Initial.indexed (h : table.Initial) : table.Indexed := by
  cases h with
  | empty => exact .empty
  | read hread => exact (written_of_decode hread).1

/-- What adding keeps, adding one constant after the other keeps. -/
theorem addAll_induction {P : ConstantTable α → Prop} (values : List α)
    (hstep : ∀ table value, P table → P (table.add value).2) :
    ∀ {table : ConstantTable α}, P table → P (table.addAll values) := by
  induction values with
  | nil => intro table h; exact h
  | cons value rest ih => intro table h; exact ih (hstep table value h)

theorem Indexed.addAll (h : table.Indexed) (values : List α) : (table.addAll values).Indexed :=
  addAll_induction values (fun _ value h => h.add value) h

theorem positions_addAll {value : α} {index : UInt16} (h : table.positions[value]? = some index)
    (values : List α) : (table.addAll values).positions[value]? = some index :=
  addAll_induction (P := fun table => table.positions[value]? = some index) values
    (fun table v h => (table.added v).positions_of_some h) h

theorem add_of_positions {value : α} {index : UInt16} (h : table.positions[value]? = some index) :
    table.add value = (.ok index, table) := by
  rw [ConstantTable.add, h]

theorem nodup_addAll_empty (values : List α) :
    ((empty : ConstantTable α).addAll values).entries.toList.Nodup :=
  (addAll_induction (P := fun table => table.Indexed ∧ table.entries.toList.Nodup) values
    (fun table value h => ⟨h.1.add value, (table.added value).nodup h.1 h.2⟩)
    ⟨.empty, List.nodup_nil⟩).2

/-- **Constants are interned.**  Of every table that is reached by adding constants, some of which
may be refused, to an empty table or to one that was read:

- the index names the first place of each constant that the table holds, and knows no others;
- a place that adding a constant gives is one where the table then holds it, the entries that were
  there stay, and to add the constant again at any later time gives the same place;
- a constant is refused exactly if the table has 65536 entries and none of them is this constant,
  and the table is as before;
- no constant stands twice in a table that was empty at the start. -/
theorem constants_interned {start : ConstantTable α} (hstart : start.Initial) (values : List α) :
    let table := start.addAll values
    (∀ value index, table.positions[value]? = some index ↔ table.FirstAt value index) ∧
    (∀ value, value ∈ table.positions ↔ value ∈ table.entries) ∧
    (∀ value index table', table.add value = (.ok index, table') →
      table'.get? index = some value ∧
      (∀ i < table.entries.size, table'.entries[i]? = table.entries[i]?) ∧
      ∀ later, (table'.addAll later).add value = (.ok index, table'.addAll later)) ∧
    (∀ value, (∃ error, (table.add value).1 = .error error) ↔
      table.entries.size = 65536 ∧ value ∉ table.entries) ∧
    (∀ value error, (table.add value).1 = .error error → (table.add value).2 = table) ∧
    (start = .empty → table.entries.toList.Nodup) := by
  intro table
  have hindexed : table.Indexed := hstart.indexed.addAll values
  refine ⟨fun _ _ => hindexed.positions_eq_some_iff, fun _ => hindexed.mem_positions_iff, ?_,
    fun value => (table.added value).error_iff hindexed,
    fun value _ => (table.added value).eq_of_error, ?_⟩
  · intro value index table' hadd
    have hadded : table.Added value (.ok index, table') := hadd ▸ table.added value
    refine ⟨(hindexed.add_eq_ok hadd).2.2, fun _ => hadded.getElem?_entries, fun later => ?_⟩
    exact add_of_positions (positions_addAll hadded.positions_of_ok later)
  · rintro rfl
    exact nodup_addAll_empty values

end

-- The two zeros are equal as numbers, and different constants.
example : (⟨0⟩ : Binary32) ≠ ⟨0x80000000⟩ ∧ Binary32.eq ⟨0⟩ ⟨0x80000000⟩ = true := by decide

/-- A table that only reading can give: it is full, and all entries are the same constant. -/
def crowded : ConstantTable Int32 := .ofEntries (Array.replicate 65536 0)

/-- The full table still gives the constant that it holds its first place, and refuses any other. -/
theorem constants_interned_crowded :
    crowded.add 0 = (.ok 0, crowded) ∧
    (∃ error, (crowded.add 1).1 = .error error) ∧ (crowded.add 1).2 = crowded := by
  have hindexed : crowded.Indexed := ⟨rfl, (Array.size_replicate ..).le⟩
  have hread := hindexed.reads (fun _ _ => trivial) []
  obtain ⟨hindex, -, -, herror, hsame, -⟩ := constants_interned (.read hread) []
  have hfirst : crowded.FirstAt 0 0 := by
    refine ⟨?_, fun i hi => absurd hi (Nat.not_lt_zero i)⟩
    exact Array.getElem?_replicate.trans (if_pos (by decide))
  have hnew : (1 : Int32) ∉ crowded.entries := by
    intro hmem
    cases (Array.mem_replicate.mp hmem).2
  have hrefused := (herror 1).mpr ⟨Array.size_replicate .., hnew⟩
  refine ⟨add_of_positions ((hindex 0 0).mpr hfirst), hrefused, ?_⟩
  obtain ⟨error, hadd⟩ := hrefused
  exact hsame 1 error hadd

end ConstantTable

namespace Program

/-- Every constant of the one program is in the same place in the other. -/
structure Extends (p q : Program) : Prop where
  i32Constants : p.i32Constants.Extends q.i32Constants
  i64Constants : p.i64Constants.Extends q.i64Constants
  f32Constants : p.f32Constants.Extends q.f32Constants
  f64Constants : p.f64Constants.Extends q.f64Constants
  strings : p.strings.Extends q.strings

namespace Extends

/-- Programs with the same tables. -/
theorem of_eq {p q : Program} (h₁ : q.i32Constants = p.i32Constants)
    (h₂ : q.i64Constants = p.i64Constants) (h₃ : q.f32Constants = p.f32Constants)
    (h₄ : q.f64Constants = p.f64Constants) (h₅ : q.strings = p.strings) : p.Extends q := by
  refine ⟨?_, ?_, ?_, ?_, ?_⟩ <;> intro index value hv <;> simpa [h₁, h₂, h₃, h₄, h₅] using hv

theorem refl (p : Program) : p.Extends p := of_eq rfl rfl rfl rfl rfl

theorem trans {p q r : Program} (h : p.Extends q) (h' : q.Extends r) : p.Extends r where
  i32Constants index value hv := h'.i32Constants index value (h.i32Constants index value hv)
  i64Constants index value hv := h'.i64Constants index value (h.i64Constants index value hv)
  f32Constants index value hv := h'.f32Constants index value (h.f32Constants index value hv)
  f64Constants index value hv := h'.f64Constants index value (h.f64Constants index value hv)
  strings index value hv := h'.strings index value (h.strings index value hv)

end Extends

end Program

end RegisterMachine
