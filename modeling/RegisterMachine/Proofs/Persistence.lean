import Mathlib
import RegisterMachine.Program.File
import RegisterMachine.Proofs.Codec
import RegisterMachine.Proofs.Plan

/-!
# Stored programs

A program is stored as bytes and loaded again.  Storing checks nothing, loading does, so that not
every program comes back.  `stored_program_round_trip` says which do: those whose entry exists and
whose names, texts and instruction lists are no longer than a sequence may be; and what comes back
is the program, with the index of each of its constant tables.  In the other direction,
`stored_form_canonical` says that the bytes of a program that was loaded are the only ones it is
loaded from, and that no stored program is a prefix of another.

The index is not stored.  It is rebuilt from the entries, and is the same because adding constants
keeps it so (`ConstantTable.Indexed`).
-/

namespace RegisterMachine

open Reader (Reads)

/-! ## Constant tables -/

namespace ConstantTable

variable {α : Type} [DecidableEq α] [Hashable α]

/-- A constant that has no place yet gets one, whether or not older places are kept. -/
theorem insert_eq_insertIfNew {positions : Std.ExtHashMap α UInt16} {value : α}
    (h : positions[value]? = none) (index : UInt16) :
    positions.insert value index = positions.insertIfNew value index := by
  apply Std.ExtHashMap.ext_getElem?
  intro key
  have hnew : value ∉ positions := by
    rw [← Std.ExtHashMap.isSome_getElem?_iff_mem, h]
    exact Bool.false_ne_true
  rw [Std.ExtHashMap.getElem?_insert, Std.ExtHashMap.getElem?_insertIfNew]
  simp only [hnew, not_false_eq_true, and_true]

theorem firstPlaces_append (value : α) (entries : List α) :
    ∀ (positions : Std.ExtHashMap α UInt16) (start : Nat),
      firstPlaces positions start (entries ++ [value])
        = (firstPlaces positions start entries).insertIfNew value
          (UInt16.ofNat (start + entries.length)) := by
  induction entries with
  | nil => intro positions start; rfl
  | cons head rest ih =>
      intro positions start
      rw [List.cons_append, firstPlaces, ih, firstPlaces, List.length_cons, Nat.add_assoc,
        Nat.add_comm 1]

/-- What adding a constant comes to: it has a place, or it gets the next one, or there is none
left. -/
inductive Added (table : ConstantTable α) (value : α) : Attempt (ConstantTable α) UInt16 → Prop
  | found {index : UInt16} :
      table.positions[value]? = some index → Added table value (.ok index, table)
  | appended :
      table.positions[value]? = none → table.entries.size < maxTableLength →
      Added table value (.ok (UInt16.ofNat table.entries.size),
        ⟨table.entries.push value, table.positions.insert value (UInt16.ofNat table.entries.size)⟩)
  | refused {error : Error} :
      table.positions[value]? = none → maxTableLength ≤ table.entries.size →
      Added table value (.error error, table)

theorem added [Constant α] (table : ConstantTable α) (value : α) :
    table.Added value (table.add value) := by
  rw [ConstantTable.add]
  cases hp : table.positions[value]? with
  | some index => exact .found hp
  | none =>
      by_cases hfull : maxTableLength ≤ table.entries.size
      · simp only [if_pos hfull]
        exact .refused hp hfull
      · simp only [if_neg hfull]
        exact .appended hp (Nat.lt_of_not_le hfull)

/-- The index of a table is that of its entries, and 16 bits reach all of them. -/
structure Indexed (table : ConstantTable α) : Prop where
  eq_ofEntries : table = ofEntries table.entries
  size_le : table.entries.size ≤ maxTableLength

theorem Added.indexed {table : ConstantTable α} {value : α}
    {attempt : Attempt (ConstantTable α) UInt16} (h : table.Added value attempt)
    (ht : table.Indexed) : attempt.2.Indexed := by
  cases h with
  | found => exact ht
  | refused => exact ht
  | appended hnew hroom =>
      refine ⟨?_, ?_⟩
      · have hpositions : table.positions = firstPlaces ∅ 0 table.entries.toList :=
          congrArg positions ht.eq_ofEntries
        rw [ofEntries, Array.toList_push, firstPlaces_append, ← hpositions,
          ← insert_eq_insertIfNew hnew, Nat.zero_add, Array.length_toList]
      · rw [Array.size_push]
        exact hroom

namespace Indexed

variable {table : ConstantTable α}

theorem empty : Indexed (ConstantTable.empty : ConstantTable α) := ⟨rfl, Nat.zero_le _⟩

theorem add [Constant α] (h : table.Indexed) (value : α) : (table.add value).2.Indexed :=
  (table.added value).indexed h

theorem reads [Constant α] (h : table.Indexed)
    (hw : ∀ a ∈ table.entries, (Constant.codec : Codec α).Within maxLength a) :
    Reads decode table.encode (.ok table) := by
  have hsize : table.entries.size ≤ maxLength := h.size_le.trans (by decide)
  have hentries := (Codec.seq (Constant.codec : Codec α)).reads_encode table.entries ⟨hsize, hw⟩
  refine hentries.bind_nil ?_
  rw [if_neg (Nat.not_lt.mpr h.size_le), ← h.eq_ofEntries]
  exact Reads.pure table

theorem refuses [Constant α] (h : table.Indexed)
    (ha : ∀ a ∈ table.entries, (Constant.codec : Codec α).Within (2 ^ 64 - 1) a)
    (hn : ¬ ∀ a ∈ table.entries, (Constant.codec : Codec α).Within maxLength a) :
    Reads (decode : Reader (ConstantTable α)) table.encode (.error .lengthOverflow) := by
  have hsize : table.entries.size ≤ 2 ^ 64 - 1 := h.size_le.trans (by decide)
  have hentries := (Codec.seq (Constant.codec : Codec α)).refuses_encode table.entries ⟨hsize, ha⟩
    fun hw => hn hw.2
  exact hentries.fail_nil _

end Indexed

/-- A table that was read is indexed, and its bytes are those that it would be written as. -/
theorem written_of_decode [Constant α] {input rest : List UInt8} {table : ConstantTable α}
    (h : decode.run input = .ok (table, rest)) :
    table.Indexed ∧ (∀ a ∈ table.entries, (Constant.codec : Codec α).Within maxLength a) ∧
      input = table.encode ++ rest := by
  obtain ⟨entries, middle, hentries, hcheck⟩ := Reader.run_bind_eq_ok h
  obtain ⟨hw, hinput⟩ := Codec.written_of_decode _ hentries
  split at hcheck
  · cases hcheck
  · rename_i hsize
    cases hcheck
    exact ⟨⟨rfl, Nat.le_of_not_lt hsize⟩, hw.2, hinput⟩

end ConstantTable

/-! ## Programs -/

namespace Function

/-- The name, the file name and the code of a function are at most `limit` long. -/
def Within (limit : Nat) (f : Function) : Prop :=
  f.name.utf8ByteSize ≤ limit ∧ f.location.file.utf8ByteSize ≤ limit ∧ f.code.size ≤ limit

theorem within_codec {limit : Nat} {f : Function} :
    codec.Within limit f ↔ f.Within limit := by
  simp [codec, Within, Codec.Within, SourceLocation.codec, Codec.u16, Codec.u32, Instruction.codec]

theorem length_encode (f : Function) :
    (codec.encode f).length
      = 34 + f.name.utf8ByteSize + f.location.file.utf8ByteSize + 4 * f.code.size := by
  have hcode : (f.code.toList.flatMap Instruction.codec.encode).length = 4 * f.code.size := by
    have hword : ∀ i, (Instruction.codec.encode i).length = 4 := fun i => length_littleEndian 4 _
    simp [List.length_flatMap, hword, Nat.mul_comm]
  simp only [codec, Codec.encode, SourceLocation.codec, Codec.u16, Codec.u32, Codec.encodeLength,
    List.length_append, length_littleEndian, length_toUTF8, hcode]
  omega

end Function

namespace Program

/-- The functions are few enough to be read, and the tables are indexed. -/
structure Sound (p : Program) : Prop where
  functions : p.functions.size ≤ maxLength
  i32Constants : p.i32Constants.Indexed
  i64Constants : p.i64Constants.Indexed
  f32Constants : p.f32Constants.Indexed
  f64Constants : p.f64Constants.Indexed
  strings : p.strings.Indexed

/-- All names, texts and instruction lists are at most `limit` long. -/
def Within (limit : Nat) (p : Program) : Prop :=
  (∀ f ∈ p.functions, f.Within limit) ∧ ∀ s ∈ p.strings.entries, s.utf8ByteSize ≤ limit

theorem within_functions {limit : Nat} {p : Program} (hsize : p.functions.size ≤ limit)
    (h : ∀ f ∈ p.functions, f.Within limit) :
    (Codec.seq Function.codec).Within limit p.functions :=
  ⟨hsize, fun f hf => Function.within_codec.mpr (h f hf)⟩

theorem encode_eq (p : Program) :
    p.encode = (Codec.seq Function.codec).encode p.functions ++ (p.i32Constants.encode ++
      (p.i64Constants.encode ++ (p.f32Constants.encode ++ (p.f64Constants.encode ++
        (p.strings.encode ++ (Codec.u16.encode p.globalCount ++ Codec.u16.encode p.entry)))))) := by
  simp only [encode, List.append_assoc]

namespace Sound

variable {p : Program}

/-- Numbers have no length, so that the four tables of them are always read. -/
theorem reads_numbers {α : Type} (h : p.Sound)
    {next : ConstantTable Int32 → ConstantTable Int64 → ConstantTable Binary32 →
      ConstantTable Binary64 → Reader α} {bytes : List UInt8} {result : Except DecodeError α}
    (hnext : Reads (next p.i32Constants p.i64Constants p.f32Constants p.f64Constants) bytes
      result) :
    Reads (do
        let i32Constants ← ConstantTable.decode
        let i64Constants ← ConstantTable.decode
        let f32Constants ← ConstantTable.decode
        let f64Constants ← ConstantTable.decode
        next i32Constants i64Constants f32Constants f64Constants)
      (p.i32Constants.encode ++ (p.i64Constants.encode ++ (p.f32Constants.encode ++
        (p.f64Constants.encode ++ bytes)))) result := by
  refine (h.i32Constants.reads fun _ _ => trivial).bind ?_
  refine (h.i64Constants.reads fun _ _ => trivial).bind ?_
  refine (h.f32Constants.reads fun _ _ => trivial).bind ?_
  exact (h.f64Constants.reads fun _ _ => trivial).bind hnext

theorem reads (h : p.Sound) (hw : p.Within maxLength) : Reads decode p.encode (.ok p) := by
  rw [encode_eq]
  refine ((Codec.seq Function.codec).reads_encode _ (within_functions h.functions hw.1)).bind ?_
  refine h.reads_numbers ((h.strings.reads hw.2).bind ?_)
  refine (Codec.u16.reads_encode p.globalCount trivial).bind ?_
  exact (Codec.u16.reads_encode p.entry trivial).bind_nil (Reads.pure p)

theorem refuses (h : p.Sound) (ha : p.Within (2 ^ 64 - 1)) (hn : ¬ p.Within maxLength) :
    Reads decode p.encode (.error .lengthOverflow) := by
  rw [encode_eq]
  by_cases hf : ∀ f ∈ p.functions, f.Within maxLength
  · have hs : ¬ ∀ s ∈ p.strings.entries, s.utf8ByteSize ≤ maxLength := fun hs => hn ⟨hf, hs⟩
    refine ((Codec.seq Function.codec).reads_encode _ (within_functions h.functions hf)).bind ?_
    exact h.reads_numbers ((h.strings.refuses ha.2 hs).fail _ _)
  · have hsize : p.functions.size ≤ 2 ^ 64 - 1 := h.functions.trans (by decide)
    refine ((Codec.seq Function.codec).refuses_encode _ (within_functions hsize ha.1) ?_).fail _ _
    intro hw
    exact hf fun f hm => Function.within_codec.mp (hw.2 f hm)

end Sound

/-- A program that was read is sound and short enough, and its bytes are those that it would be
written as. -/
theorem written_of_decode {input rest : List UInt8} {p : Program}
    (h : decode.run input = .ok (p, rest)) :
    p.Sound ∧ p.Within maxLength ∧ input = p.encode ++ rest := by
  obtain ⟨functions, input₁, hfunctions, h⟩ := Reader.run_bind_eq_ok h
  obtain ⟨i32Constants, input₂, hi32, h⟩ := Reader.run_bind_eq_ok h
  obtain ⟨i64Constants, input₃, hi64, h⟩ := Reader.run_bind_eq_ok h
  obtain ⟨f32Constants, input₄, hf32, h⟩ := Reader.run_bind_eq_ok h
  obtain ⟨f64Constants, input₅, hf64, h⟩ := Reader.run_bind_eq_ok h
  obtain ⟨strings, input₆, hstrings, h⟩ := Reader.run_bind_eq_ok h
  obtain ⟨globalCount, input₇, hglobal, h⟩ := Reader.run_bind_eq_ok h
  obtain ⟨entry, input₈, hentry, h⟩ := Reader.run_bind_eq_ok h
  cases h
  obtain ⟨hwf, e₀⟩ := Codec.written_of_decode _ hfunctions
  obtain ⟨h₁, -, e₁⟩ := ConstantTable.written_of_decode hi32
  obtain ⟨h₂, -, e₂⟩ := ConstantTable.written_of_decode hi64
  obtain ⟨h₃, -, e₃⟩ := ConstantTable.written_of_decode hf32
  obtain ⟨h₄, -, e₄⟩ := ConstantTable.written_of_decode hf64
  obtain ⟨h₅, hws, e₅⟩ := ConstantTable.written_of_decode hstrings
  obtain ⟨-, e₆⟩ := Codec.written_of_decode _ hglobal
  obtain ⟨-, e₇⟩ := Codec.written_of_decode _ hentry
  refine ⟨⟨hwf.1, h₁, h₂, h₃, h₄, h₅⟩, ⟨fun f hf => ?_, hws⟩, ?_⟩
  · exact Function.within_codec.mp (hwf.2 f hf)
  · rw [e₀, e₁, e₂, e₃, e₄, e₅, e₆, e₇, encode_eq]
    simp only [List.append_assoc]

/-! ## How many bytes there can be -/

/-- A program that can be read has fewer than `2 ^ 64` bytes. -/
theorem length_encode_lt {p : Program} (h : p.Sound) (hw : p.Within maxLength) :
    p.encode.length < 2 ^ 64 := by
  have hsize : maxTableLength ≤ maxLength := by decide
  have hf := (Codec.seq Function.codec).length_encode_le _ (within_functions h.functions hw.1)
  have h₁ := (Codec.seq Codec.i32).length_encode_le p.i32Constants.entries
    ⟨h.i32Constants.size_le.trans hsize, fun _ _ => trivial⟩
  have h₂ := (Codec.seq Codec.i64).length_encode_le p.i64Constants.entries
    ⟨h.i64Constants.size_le.trans hsize, fun _ _ => trivial⟩
  have h₃ := (Codec.seq Codec.f32).length_encode_le p.f32Constants.entries
    ⟨h.f32Constants.size_le.trans hsize, fun _ _ => trivial⟩
  have h₄ := (Codec.seq Codec.f64).length_encode_le p.f64Constants.entries
    ⟨h.f64Constants.size_le.trans hsize, fun _ _ => trivial⟩
  have h₅ := (Codec.seq Codec.string).length_encode_le p.strings.entries
    ⟨h.strings.size_le.trans hsize, hw.2⟩
  have h₆ := Codec.u16.length_encode_le p.globalCount trivial
  have h₇ := Codec.u16.length_encode_le p.entry trivial
  have hbound : (Codec.seq Function.codec).maxSize + ((Codec.seq Codec.i32).maxSize +
      ((Codec.seq Codec.i64).maxSize + ((Codec.seq Codec.f32).maxSize +
      ((Codec.seq Codec.f64).maxSize + ((Codec.seq Codec.string).maxSize +
      (Codec.u16.maxSize + Codec.u16.maxSize)))))) < 2 ^ 64 := by decide
  rw [encode_eq]
  simp only [List.length_append]
  refine Nat.lt_of_le_of_lt ?_ hbound
  exact Nat.add_le_add hf (Nat.add_le_add h₁ (Nat.add_le_add h₂ (Nat.add_le_add h₃
    (Nat.add_le_add h₄ (Nat.add_le_add h₅ (Nat.add_le_add h₆ h₇))))))

theorem length_encode_mem {α : Type} (codec : Codec α) {items : Array α} {a : α} (ha : a ∈ items) :
    (codec.encode a).length ≤ ((Codec.seq codec).encode items).length := by
  rw [Codec.encode, List.length_append, List.length_flatMap]
  have hmem := List.mem_map_of_mem (f := fun a => (codec.encode a).length)
    (Array.mem_toList_iff.mpr ha)
  exact (List.le_sum_of_mem hmem).trans (Nat.le_add_left _ _)

/-- No length in a program is more than that of its bytes. -/
theorem within_length (p : Program) : p.Within p.encode.length := by
  have hlength := congrArg List.length (encode_eq p)
  simp only [List.length_append] at hlength
  refine ⟨fun f hf => ?_, fun s hs => ?_⟩
  · have hmem := length_encode_mem Function.codec hf
    rw [Function.length_encode] at hmem
    refine ⟨?_, ?_, ?_⟩ <;> omega
  · have hmem : (Codec.string.encode s).length ≤ p.strings.encode.length :=
      length_encode_mem Codec.string hs
    rw [Codec.encode, List.length_append, length_toUTF8] at hmem
    omega

/-! ## Loading -/

/-- The entry is one of the functions, if there are any. -/
def EntryExists (p : Program) : Prop := p.functions.size = 0 ∨ p.entry.toNat < p.functions.size

theorem entryExists_iff {p : Program} :
    p.EntryExists ↔ ¬ ((!p.functions.isEmpty) = true ∧ p.functions.size ≤ p.entry.toNat) := by
  rw [EntryExists, not_and_or, Nat.not_le, Bool.not_eq_true', Bool.not_eq_false,
    Array.isEmpty_iff_size_eq_zero]

theorem readWith_of_reads {α : Type} {reader : Reader α} {bytes : List UInt8} {a : α}
    (h : Reads reader bytes (.ok a)) (rest : List UInt8) :
    readWith reader (bytes ++ rest) = .ok (a, rest) := by
  rw [readWith, h]
  rfl

theorem run_of_readWith {α : Type} {reader : Reader α} {input : List UInt8} {a : α}
    {rest : List UInt8} (h : readWith reader input = .ok (a, rest)) :
    reader.run input = .ok (a, rest) := by
  rw [readWith] at h
  cases hr : reader.run input with
  | error error => rw [hr] at h; cases h
  | ok result => rw [hr] at h; cases h; rfl

/-- Behind the header the program is read, and two checks follow. -/
theorem ofBytes_stored (body : List UInt8) :
    ofBytes (magic ++ version ++ body) = (do
      let (program, rest) ← readWith decode body
      if !rest.isEmpty then throw (.decoding "trailing bytes")
      let entry := program.entry
      if !program.functions.isEmpty ∧ program.functions.size ≤ entry.toNat then
        throw (.decoding s!"entry function {entry} does not exist")
      return program) := by
  have hmagic := readWith_of_reads (Reader.reads_take magic) (version ++ body)
  have hversion := readWith_of_reads (Reader.reads_take version) body
  rw [List.append_assoc, ofBytes, List.take_left, if_neg (Nat.lt_irrefl _), hmagic]
  refine (if_neg fun hne : magic ≠ magic => hne rfl).trans ?_
  rw [hversion]
  rfl

/-- A sound program that is short enough and whose entry exists is loaded back. -/
theorem ofBytes_toBytes {p : Program} (h : p.Sound) (hw : p.Within maxLength)
    (he : p.EntryExists) : ofBytes p.toBytes = .ok p := by
  have hread := readWith_of_reads (h.reads hw) []
  rw [List.append_nil] at hread
  rw [toBytes, ofBytes_stored, hread]
  exact if_neg (entryExists_iff.mp he)

/-- What is loaded is sound and short enough, its entry exists, and its bytes are those that it
would be stored as. -/
theorem stored_of_ofBytes {input : List UInt8} {p : Program} (h : ofBytes input = .ok p) :
    p.Sound ∧ p.Within maxLength ∧ p.EntryExists ∧ input = p.toBytes := by
  obtain ⟨-, h⟩ := check_eq_ok.mp h
  obtain ⟨⟨first, input₁⟩, hfirst, h⟩ := bind_eq_ok.mp h
  obtain ⟨hmagic, h⟩ := check_eq_ok.mp h
  obtain ⟨⟨stated, input₂⟩, hstated, h⟩ := bind_eq_ok.mp h
  obtain ⟨hversion, h⟩ := check_eq_ok.mp h
  obtain ⟨⟨program, rest⟩, hprogram, h⟩ := bind_eq_ok.mp h
  obtain ⟨hrest, h⟩ := check_eq_ok.mp h
  obtain ⟨hentry, h⟩ := check_eq_ok.mp h
  cases h
  obtain ⟨-, e₁⟩ := Reader.written_take (run_of_readWith hfirst)
  obtain ⟨-, e₂⟩ := Reader.written_take (run_of_readWith hstated)
  obtain ⟨hsound, hwithin, e₃⟩ := written_of_decode (run_of_readWith hprogram)
  have hempty : rest = [] := by simpa using hrest
  refine ⟨hsound, hwithin, entryExists_iff.mpr hentry, ?_⟩
  rw [e₁, e₂, e₃, hempty, not_not.mp hmagic, not_not.mp hversion, toBytes, List.append_nil,
    List.append_assoc]

theorem Within.mono {p : Program} {limit limit' : Nat} (h : p.Within limit) (hle : limit ≤ limit') :
    p.Within limit' := by
  refine ⟨fun f hf => ?_, fun s hs => (h.2 s hs).trans hle⟩
  obtain ⟨hname, hfile, hcode⟩ := h.1 f hf
  exact ⟨hname.trans hle, hfile.trans hle, hcode.trans hle⟩

/-- What is loaded from the bytes of a sound program is this program. -/
theorem Sound.eq_of_ofBytes {p q : Program} (h : p.Sound) (hq : ofBytes p.toBytes = .ok q) :
    q = p ∧ p.Within maxLength := by
  obtain ⟨hsound, hwithin, -, hbytes⟩ := stored_of_ofBytes hq
  have hencode : p.encode = q.encode := List.append_cancel_left hbytes
  have hread := hsound.reads hwithin []
  rw [← hencode] at hread
  -- the bytes can be read, so that they are few, and no length in `p` is cut short by them
  have haddressable : p.Within (2 ^ 64 - 1) := by
    refine (within_length p).mono (Nat.le_sub_one_of_lt ?_)
    rw [hencode]
    exact length_encode_lt hsound hwithin
  have hp : p.Within maxLength := by
    by_contra hn
    cases hread.symm.trans (h.refuses haddressable hn [])
  cases hread.symm.trans (h.reads hp [])
  exact ⟨rfl, hp⟩

/-! ## Histories of a program -/

/-- What can be done to a program while it is built. -/
inductive Edit where
  | addFunction (function : Function)
  | addInt32 (value : Int32)
  | addInt64 (value : Int64)
  | addBinary32 (value : Binary32)
  | addBinary64 (value : Binary64)
  | addString (value : String)
  | setGlobalCount (count : UInt16)
  | setEntry (index : UInt16)
  /-- Takes the stored program in some bytes. -/
  | load (input : List UInt8)
  /-- Takes what the program itself is stored as. -/
  | reload

/-- Takes a stored program, if the bytes are one. -/
def loaded (p : Program) (input : List UInt8) : Program :=
  match ofBytes input with
  | .ok q => q
  | .error _ => p

/-- Does what can be done; an edit that fails leaves the program as it was. -/
def edit (p : Program) : Edit → Program
  | .addFunction function => (p.addFunction function).2
  | .addInt32 value => (p.addConstant value).2
  | .addInt64 value => (p.addConstant value).2
  | .addBinary32 value => (p.addConstant value).2
  | .addBinary64 value => (p.addConstant value).2
  | .addString value => (p.addConstant value).2
  | .setGlobalCount count => { p with globalCount := count }
  | .setEntry index => { p with entry := index }
  | .load input => p.loaded input
  | .reload => p.loaded p.toBytes

namespace Sound

variable {p : Program}

theorem empty : Program.empty.Sound :=
  ⟨Nat.zero_le _, .empty, .empty, .empty, .empty, .empty⟩

theorem addFunction (h : p.Sound) (function : Function) : (p.addFunction function).2.Sound := by
  rw [Program.addFunction]
  by_cases hfull : maxTableLength ≤ p.functions.size
  · rw [if_pos hfull]
    exact h
  · rw [if_neg hfull]
    have hsize : p.functions.size + 1 ≤ maxLength :=
      (Nat.lt_of_not_le hfull).trans_le (by decide)
    exact { h with functions := by rw [Array.size_push]; exact hsize }

theorem loaded (h : p.Sound) (input : List UInt8) : (p.loaded input).Sound := by
  rw [Program.loaded]
  cases hload : ofBytes input with
  | error error => exact h
  | ok q => exact (stored_of_ofBytes hload).1

theorem edit (h : p.Sound) (e : Edit) : (p.edit e).Sound := by
  cases e with
  | addFunction function => exact h.addFunction function
  | addInt32 value => exact { h with i32Constants := h.i32Constants.add value }
  | addInt64 value => exact { h with i64Constants := h.i64Constants.add value }
  | addBinary32 value => exact { h with f32Constants := h.f32Constants.add value }
  | addBinary64 value => exact { h with f64Constants := h.f64Constants.add value }
  | addString value => exact { h with strings := h.strings.add value }
  | setGlobalCount count => exact { h with }
  | setEntry index => exact { h with }
  | load input => exact h.loaded input
  | reload => exact h.loaded p.toBytes

theorem history (edits : List Edit) :
    ∀ {p : Program}, p.Sound → (edits.foldl Program.edit p).Sound := by
  induction edits with
  | nil => intro p h; exact h
  | cons e rest ih => intro p h; exact ih (h.edit e)

end Sound

/-- **What is stored is what is loaded.**  A program with any history comes back exactly if its
entry exists, or it has no functions, and all its names, source files, texts and instruction lists
have a length of at most 16,000,000; and it comes back as it was, the indices of its constant
tables included. -/
theorem stored_program_round_trip (edits : List Edit) :
    let p := edits.foldl Program.edit Program.empty
    ((∃ q, ofBytes p.toBytes = .ok q) ↔
      (p.functions.size = 0 ∨ p.entry.toNat < p.functions.size) ∧
      (∀ f ∈ p.functions, f.name.utf8ByteSize ≤ 16000000 ∧
        f.location.file.utf8ByteSize ≤ 16000000 ∧ f.code.size ≤ 16000000) ∧
      (∀ s ∈ p.strings.entries, s.utf8ByteSize ≤ 16000000)) ∧
    (∀ q, ofBytes p.toBytes = .ok q → q = p) := by
  intro p
  have hsound : p.Sound := Sound.history edits Sound.empty
  refine ⟨⟨?_, ?_⟩, fun q hq => (hsound.eq_of_ofBytes hq).1⟩
  · rintro ⟨q, hq⟩
    obtain ⟨rfl, hwithin⟩ := hsound.eq_of_ofBytes hq
    exact ⟨(stored_of_ofBytes hq).2.2.1, hwithin⟩
  · rintro ⟨hentry, hwithin⟩
    exact ⟨p, ofBytes_toBytes hsound hwithin hentry⟩

/-! ## One form for each program -/

/-- Nothing may follow a stored program. -/
theorem ofBytes_append {p : Program} (h : p.Sound) (hw : p.Within maxLength) {rest : List UInt8}
    (hne : rest ≠ []) : ofBytes (p.toBytes ++ rest) = .error (.decoding "trailing bytes") := by
  have hread := readWith_of_reads (h.reads hw) rest
  have hrest : (!rest.isEmpty) = true := by simpa using hne
  rw [toBytes, List.append_assoc, ofBytes_stored, hread]
  exact if_pos hrest

/-- **The stored form is canonical and prefix-free.**  Bytes that are loaded are those that the
program is stored as, so no others give the same program; none of their proper prefixes is loaded,
and neither are they with more bytes behind them. -/
theorem stored_form_canonical {input : List UInt8} {p : Program} (h : ofBytes input = .ok p) :
    p.toBytes = input ∧
    (∀ other, ofBytes other = .ok p → other = input) ∧
    (∀ part, part <+: input → part ≠ input → ∃ error, ofBytes part = .error error) ∧
    (∀ rest, rest ≠ [] → ofBytes (input ++ rest) = .error (.decoding "trailing bytes")) := by
  obtain ⟨hsound, hwithin, -, hinput⟩ := stored_of_ofBytes h
  refine ⟨hinput.symm, ?_, ?_, ?_⟩
  · intro other hother
    rw [hinput]
    exact (stored_of_ofBytes hother).2.2.2
  · rintro part ⟨rest, hpart⟩ hne
    have hrest : rest ≠ [] := by
      rintro rfl
      exact hne (by rw [← hpart, List.append_nil])
    cases hload : ofBytes part with
    | error error => exact ⟨error, rfl⟩
    | ok q =>
        -- a stored program in front of the rest would leave the rest unread
        obtain ⟨hsound', hwithin', -, hbytes⟩ := stored_of_ofBytes hload
        have hreject := ofBytes_append hsound' hwithin' hrest
        rw [← hbytes, hpart, h] at hreject
        cases hreject
  · intro rest hne
    rw [hinput]
    exact ofBytes_append hsound hwithin hne

/-- A program that only loading can give: a constant stands twice in its table, and another is a
signaling NaN with a payload. -/
def repeatingProgram : Program :=
  { Program.empty with
    i32Constants := .ofEntries #[7, 7]
    f32Constants := .ofEntries #[⟨0xffa00001⟩] }

theorem stored_form_canonical_repeating :
    ofBytes repeatingProgram.toBytes = .ok repeatingProgram ∧
    (∀ other, ofBytes other = .ok repeatingProgram → other = repeatingProgram.toBytes) ∧
    (∃ error, ofBytes repeatingProgram.toBytes.dropLast = .error error) ∧
    ofBytes (repeatingProgram.toBytes ++ [0]) = .error (.decoding "trailing bytes") := by
  have hsound : repeatingProgram.Sound :=
    ⟨Nat.zero_le _, ⟨rfl, by decide⟩, .empty, ⟨rfl, by decide⟩, .empty, .empty⟩
  have hwithin : repeatingProgram.Within maxLength :=
    ⟨fun _ h => absurd h (Array.not_mem_empty _), fun _ h => absurd h (Array.not_mem_empty _)⟩
  have hload := ofBytes_toBytes hsound hwithin (.inl rfl)
  obtain ⟨-, honly, hprefix, hrest⟩ := stored_form_canonical hload
  refine ⟨hload, honly, hprefix _ (List.dropLast_prefix _) ?_, hrest [0] (List.cons_ne_nil _ _)⟩
  intro h
  have hlength := congrArg List.length h
  rw [List.length_dropLast, toBytes, List.length_append, List.length_append] at hlength
  have hversion : version.length = 3 := rfl
  omega

end Program

end RegisterMachine
