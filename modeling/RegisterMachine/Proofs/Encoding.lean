import Mathlib
import RegisterMachine.Proofs.Words

/-!
# Encoding is faithful

A word can be made of the three fields of its layout, or of operands in the order in which they are
written.  `Faithful` says of either way what it takes to be trusted: which arguments are accepted,
that the word gives them back, so that no two give the same word, and that a word which is taken
apart and made again is the same word, with the bits cleared that the arguments do not reach.

| made of  | accepted                                     | bits kept                     |
|----------|----------------------------------------------|-------------------------------|
| fields   | each fits, one that the layout lacks is zero | opcode, fields of the layout  |
| operands | as many as the opcode has, each fits         | opcode, fields of the operands |

That a field is cut out and put back in the same bits is `and_fieldBits`; what is made again is then
a join over the fields, in which every field either keeps its bits or is zero (`join_of_kept`).
-/

namespace RegisterMachine

/-! ## Bits of a field -/

/-- To mask bits in place is to shift them down, mask them and shift them back. -/
theorem and_shiftLeft_eq (word mask shift : UInt32) :
    word &&& mask <<< shift = (word >>> shift &&& mask) <<< shift := by
  apply UInt32.toNat_inj.mp
  apply Nat.eq_of_testBit_eq
  intro k
  rw [UInt32.toNat_and, UInt32.toNat_shiftLeft, UInt32.toNat_shiftLeft, UInt32.toNat_and,
    UInt32.toNat_shiftRight]
  simp only [Nat.testBit_and, Nat.testBit_mod_two_pow, Nat.testBit_shiftLeft,
    Nat.testBit_shiftRight]
  by_cases hk : shift.toNat % 32 ≤ k
  · rw [Nat.add_sub_cancel' hk]
    grind
  · simp [hk]

theorem word_and_or (word a b : UInt32) : word &&& (a ||| b) = word &&& a ||| word &&& b := by
  apply UInt32.toNat_inj.mp
  rw [UInt32.toNat_and, UInt32.toNat_or, UInt32.toNat_or, UInt32.toNat_and, UInt32.toNat_and,
    Nat.and_or_distrib_left]

namespace Layout

/-- The layout has room for the fields: each that it has fits, each that it lacks is zero. -/
structure Admits (layout : Layout) (fields : Fields) : Prop where
  present : ∀ field limit, layout.fieldMax? field = some limit → fields.get field ≤ limit
  absent : ∀ field, layout.fieldMax? field = none → fields.get field = 0

/-- The bits of a word that hold a field. -/
def fieldBits (layout : Layout) (field : Field) : UInt32 :=
  (layout.fieldMax? field).getD 0 <<< layout.shift field

/-- The bits of a word that hold the opcode and the fields that are used. -/
def bits (layout : Layout) (used : Field → Bool) : UInt32 :=
  [Field.a, .b, .c].foldl
    (fun mask field => mask ||| if used field then layout.fieldBits field else 0) 0xff000000

-- Only words of one operand have bits that belong to no field.
example : one.bits (fun _ => true) = 0xff0000ff := by decide
example : two.bits (fun _ => true) = 0xffffffff := by decide
example : three.bits (fun _ => true) = 0xffffffff := by decide

end Layout

namespace Instruction

/-! ## Words made of fields -/

/-- The word with the fields of a layout put into their bits. -/
def join (op : Opcode) (fields : Fields) : UInt32 :=
  [Field.a, .b, .c].foldl (fun word field => word ||| fields.get field <<< op.layout.shift field)
    (op.byte.toUInt32 <<< 24)

variable {op : Opcode} {fields : Fields} {i : Instruction}

/-- The largest value of a field is the largest number of its width. -/
theorem le_fieldMax_iff {layout : Layout} {field : Field} {limit value : UInt32}
    (h : layout.fieldMax? field = some limit) :
    value ≤ limit ↔ value.toNat < 2 ^ (layout.width? field).getD 0 := by
  obtain ⟨width, hwidth, rfl⟩ := Option.map_eq_some_iff.mp h
  rw [UInt32.le_iff_toNat_le, toNat_fieldMax hwidth, hwidth, Option.getD_some]
  have := Nat.two_pow_pos width
  omega

theorem admits_iff_fits {layout : Layout} :
    layout.Admits fields ↔ ∀ field, Fits layout fields field := by
  have hzero {field : Field} (h : layout.fieldMax? field = none) :
      Fits layout fields field ↔ fields.get field = 0 := by
    rw [Fits, Option.map_eq_none_iff.mp h, ← UInt32.toNat_inj]
    simp
  constructor
  · intro h field
    cases hmax : layout.fieldMax? field with
    | some limit => exact (le_fieldMax_iff hmax).mp (h.present field limit hmax)
    | none => exact (hzero hmax).mpr (h.absent field hmax)
  · intro h
    exact ⟨fun field limit hmax => (le_fieldMax_iff hmax).mpr (h field),
      fun field hmax => (hzero hmax).mp (h field)⟩

theorem place_of_admits (h : op.layout.Admits fields) (word : UInt32) (field : Field) :
    place op fields word field = .ok (word ||| fields.get field <<< op.layout.shift field) := by
  rw [place]
  cases hmax : op.layout.fieldMax? field with
  | some limit => exact if_pos (h.present field limit hmax)
  | none =>
      have hzero := h.absent field hmax
      simp [hzero]

theorem pack_of_admits (h : op.layout.Admits fields) : pack op fields = .ok ⟨join op fields⟩ := by
  simp only [pack, List.foldlM, place_of_admits h]
  rfl

/-- Fields are packed exactly if the layout has room for them. -/
theorem pack_ok_iff : (∃ i, pack op fields = .ok i) ↔ op.layout.Admits fields := by
  constructor
  · rintro ⟨i, hi⟩
    exact admits_iff_fits.mpr (pack_eq_ok hi).1
  · intro h
    exact ⟨_, pack_of_admits h⟩

/-- The fields of a word have room in the layout that they were read in. -/
theorem admits_fields (i : Instruction) (layout : Layout) : layout.Admits (i.fields layout) := by
  rw [admits_iff_fits]
  intro field
  rw [Fits, toNat_fields_get]
  exact Nat.mod_lt _ (Nat.two_pow_pos _)

/-! ## Words made again -/

/-- A field is cut out of its bits. -/
theorem and_fieldBits (i : Instruction) (layout : Layout) (field : Field) :
    i.word &&& layout.fieldBits field = (i.fields layout).get field <<< layout.shift field := by
  rw [Layout.fieldBits, and_shiftLeft_eq]
  cases layout <;> cases field <;> simp [Layout.fieldMax?, Layout.width?, Layout.shift, fields, Fields.get]

theorem and_opcodeBits (h : i.opcode = .ok op) :
    i.word &&& (0xff000000 : UInt32) = op.byte.toUInt32 <<< 24 := by
  have hmask : (0xff000000 : UInt32) = (0xff : UInt32) <<< (24 : UInt32) := by decide
  have hbyte : i.word >>> 24 &&& (0xff : UInt32) = (i.word >>> 24).toUInt8.toUInt32 := by
    have hwidth : (0xff : UInt32).toNat = 2 ^ 8 - 1 := rfl
    apply UInt32.toNat_inj.mp
    rw [toNat_and_of_mask hwidth, UInt8.toNat_toUInt32, UInt32.toNat_toUInt8]
  rw [hmask, and_shiftLeft_eq, hbyte, ← byte_of_opcode h, opcodeByte]

/-- If every field is that of a word or zero, the joined word is that word with the bits of the
other fields cleared. -/
theorem join_of_kept {used : Field → Bool} (h : i.opcode = .ok op)
    (hkept : ∀ field, fields.get field = if used field then (i.fields op.layout).get field else 0) :
    join op fields = i.word &&& op.layout.bits used := by
  have hfield : ∀ field, fields.get field <<< op.layout.shift field
      = i.word &&& if used field then op.layout.fieldBits field else 0 := by
    intro field
    rw [hkept]
    split
    · exact (and_fieldBits i _ field).symm
    · simp
  simp only [join, Layout.bits, List.foldl_cons, List.foldl_nil, word_and_or, ← hfield,
    and_opcodeBits h]

/-! ## Words made of operands -/

/-- The operands of a word in the order in which they are written. -/
def operandValues (op : Opcode) (i : Instruction) : List UInt32 :=
  op.operands.map fun operand => (i.fields op.layout).get operand.field

/-- There are as many values as operands, and none exceeds its field. -/
structure AdmitsOperands (op : Opcode) (values : List UInt32) : Prop where
  length : values.length = op.operands.length
  fits : ∀ pair ∈ op.operands.zip values, ∀ limit,
    op.layout.fieldMax? pair.1.field = some limit → pair.2 ≤ limit

/-- Every operand has a field of its layout. -/
theorem fieldMax_of_operand {operand : Operand} (h : operand ∈ op.operands) :
    ∃ limit, op.layout.fieldMax? operand.field = some limit := by
  have hall : ∀ operand ∈ op.operands, (op.layout.fieldMax? operand.field).isSome = true := by
    cases op <;> simp [Opcode.operands, Opcode.layout, Layout.fieldMax?, Layout.width?]
  exact Option.isSome_iff_exists.mp (hall operand h)

/-- Whether the opcode has an operand in a field. -/
def hasOperand (op : Opcode) (field : Field) : Bool := op.operands.any (·.field == field)

theorem hasOperand_of_mem {operand : Operand} (h : operand ∈ op.operands) :
    hasOperand op operand.field = true :=
  List.any_eq_true.mpr ⟨operand, h, beq_self_eq_true _⟩

theorem exists_of_hasOperand {field : Field} (h : hasOperand op field = true) :
    ∃ operand ∈ op.operands, operand.field = field := by
  obtain ⟨operand, hmem, hfield⟩ := List.any_eq_true.mp h
  exact ⟨operand, hmem, eq_of_beq hfield⟩

theorem exists_mem_zip {values : List UInt32} (h : values.length = op.operands.length)
    {operand : Operand} (hmem : operand ∈ op.operands) :
    ∃ value, (operand, value) ∈ op.operands.zip values := by
  rw [← List.map_fst_zip h.ge] at hmem
  obtain ⟨pair, hpair, rfl⟩ := List.mem_map.mp hmem
  exact ⟨pair.2, hpair⟩

theorem ofOperands_of_length {values : List UInt32} (h : values.length = op.operands.length) :
    ofOperands op values = pack op (setOperands {} (op.operands.zip values)) :=
  if_pos h.symm

theorem get_setOperands_of_mem {values : List UInt32} (h : values.length = op.operands.length)
    {pair : Operand × UInt32} (hpair : pair ∈ op.operands.zip values) :
    (setOperands {} (op.operands.zip values)).get pair.1.field = pair.2 :=
  (List.forall₂_iff_zip.mp (get_setOperands op.nodup_fields h.symm)).2 hpair

/-- A field without an operand is zero. -/
theorem get_setOperands_of_unused {field : Field} (h : hasOperand op field = false)
    (values : List UInt32) : (setOperands {} (op.operands.zip values)).get field = 0 := by
  have hnot : field ∉ (op.operands.zip values).map fun pair => pair.1.field := by
    intro hmem
    obtain ⟨pair, hpair, rfl⟩ := List.mem_map.mp hmem
    rw [hasOperand_of_mem (List.of_mem_zip hpair).1] at h
    cases h
  rw [get_setOperands_of_notMem hnot]
  cases field <;> rfl

/-- Operands that fit make fields that fit. -/
theorem admits_setOperands {values : List UInt32} (h : values.length = op.operands.length) :
    op.layout.Admits (setOperands {} (op.operands.zip values)) ↔ AdmitsOperands op values := by
  constructor
  · intro hadmits
    refine ⟨h, fun pair hpair limit hlimit => ?_⟩
    rw [← get_setOperands_of_mem h hpair]
    exact hadmits.present _ limit hlimit
  · intro hadmits
    refine ⟨fun field limit hlimit => ?_, fun field hnone => ?_⟩
    · cases hused : hasOperand op field with
      | false =>
          rw [get_setOperands_of_unused hused]
          exact UInt32.zero_le
      | true =>
          obtain ⟨operand, hmem, rfl⟩ := exists_of_hasOperand hused
          obtain ⟨value, hpair⟩ := exists_mem_zip h hmem
          rw [get_setOperands_of_mem h hpair]
          exact hadmits.fits _ hpair limit hlimit
    · cases hused : hasOperand op field with
      | false => exact get_setOperands_of_unused hused values
      | true =>
          obtain ⟨operand, hmem, rfl⟩ := exists_of_hasOperand hused
          obtain ⟨limit, hlimit⟩ := fieldMax_of_operand hmem
          cases hnone.symm.trans hlimit

theorem ofOperands_ok_iff {values : List UInt32} :
    (∃ i, ofOperands op values = .ok i) ↔ AdmitsOperands op values := by
  by_cases h : values.length = op.operands.length
  · rw [ofOperands_of_length h, pack_ok_iff, admits_setOperands h]
  · constructor
    · rintro ⟨i, hi⟩
      rw [ofOperands, if_neg (Ne.symm h)] at hi
      cases hi
    · intro hadmits
      exact absurd hadmits.length h

theorem operandValues_of_ofOperands {values : List UInt32} (h : ofOperands op values = .ok i) :
    operandValues op i = values := by
  have hfields := (fields_of_ofOperands h).2
  rw [operandValues, ← List.forall₂_eq_eq_eq, List.forall₂_map_left_iff]
  exact hfields

/-- The operands of a word make the word again, without the bits of the other fields. -/
theorem ofOperands_operandValues (h : i.opcode = .ok op) :
    ofOperands op (operandValues op i) = .ok ⟨i.word &&& op.layout.bits (hasOperand op)⟩ := by
  have hlength : (operandValues op i).length = op.operands.length := List.length_map _
  have hget : ∀ operand ∈ op.operands,
      (setOperands {} (op.operands.zip (operandValues op i))).get operand.field
        = (i.fields op.layout).get operand.field :=
    List.forall₂_same.mp (List.forall₂_map_right_iff.mp
      (get_setOperands op.nodup_fields hlength.symm))
  have hkept : ∀ field, (setOperands {} (op.operands.zip (operandValues op i))).get field
      = if hasOperand op field then (i.fields op.layout).get field else 0 := by
    intro field
    cases hused : hasOperand op field with
    | false => exact get_setOperands_of_unused hused _
    | true =>
        obtain ⟨operand, hmem, rfl⟩ := exists_of_hasOperand hused
        exact hget operand hmem
  have hadmits : AdmitsOperands op (operandValues op i) := by
    refine ⟨hlength, fun pair hpair limit hlimit => ?_⟩
    rw [← get_setOperands_of_mem hlength hpair, hget _ (List.of_mem_zip hpair).1]
    exact (admits_fields i op.layout).present _ limit hlimit
  rw [ofOperands_of_length hlength, pack_of_admits ((admits_setOperands hlength).mpr hadmits),
    join_of_kept h hkept]

/-! ## Faithful encodings -/

/-- What makes an encoding trustworthy: it accepts what it should, its words give back what they
were made of, no two are the same, and to make a word again keeps the bits that are named. -/
structure Faithful {α : Type} (encode : Opcode → α → Except Error Instruction)
    (decode : Opcode → Instruction → α) (Accepted : Opcode → α → Prop) (kept : Opcode → UInt32) :
    Prop where
  accepts : ∀ op a, (∃ i, encode op a = .ok i) ↔ Accepted op a
  decodes : ∀ op a i, encode op a = .ok i → i.opcode = .ok op ∧ decode op i = a
  injective : ∀ op op' a a' i i', encode op a = .ok i → encode op' a' = .ok i' →
    i.word = i'.word → op = op' ∧ a = a'
  encodes : ∀ op i, i.opcode = .ok op → encode op (decode op i) = .ok ⟨i.word &&& kept op⟩

/-- An encoding that can be decoded gives no word twice. -/
theorem eq_of_decodes {α : Type} {encode : Opcode → α → Except Error Instruction}
    {decode : Opcode → Instruction → α}
    (decodes : ∀ op a i, encode op a = .ok i → i.opcode = .ok op ∧ decode op i = a)
    (op op' : Opcode) (a a' : α) (i i' : Instruction) (h : encode op a = .ok i)
    (h' : encode op' a' = .ok i') (hword : i.word = i'.word) : op = op' ∧ a = a' := by
  obtain rfl : i = i' := congrArg Instruction.mk hword
  obtain ⟨hop, ha⟩ := decodes op a i h
  obtain ⟨hop', ha'⟩ := decodes op' a' i h'
  obtain rfl : op = op' := Except.ok.inj (hop.symm.trans hop')
  exact ⟨rfl, ha.symm.trans ha'⟩

/-- **Instruction words are faithful**, whether they are made of fields or of operands.  A word made
of fields keeps the bits of its layout when it is made again, one made of operands the bits of
these. -/
theorem words_encode_faithfully :
    Faithful pack (fun op i => i.fields op.layout) (fun op fields => op.layout.Admits fields)
      (fun op => op.layout.bits fun _ => true) ∧
    Faithful ofOperands operandValues AdmitsOperands (fun op => op.layout.bits (hasOperand op)) := by
  have hfields : ∀ op fields i, pack op fields = .ok i →
      i.opcode = .ok op ∧ i.fields op.layout = fields :=
    fun _ _ _ h => ⟨opcode_of_pack h, fields_of_pack h⟩
  have hoperands : ∀ op values i, ofOperands op values = .ok i →
      i.opcode = .ok op ∧ operandValues op i = values :=
    fun _ _ _ h => ⟨(fields_of_ofOperands h).1, operandValues_of_ofOperands h⟩
  refine ⟨⟨fun _ _ => pack_ok_iff, hfields, eq_of_decodes hfields, ?_⟩,
    ⟨fun _ _ => ofOperands_ok_iff, hoperands, eq_of_decodes hoperands, ?_⟩⟩
  · intro op i hop
    have hjoin : join op (i.fields op.layout) = i.word &&& op.layout.bits fun _ => true :=
      join_of_kept hop fun _ => rfl
    rw [pack_of_admits (admits_fields i _), hjoin]
  · intro op i hop
    exact ofOperands_operandValues hop

end Instruction

end RegisterMachine
