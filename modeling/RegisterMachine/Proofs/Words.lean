import Mathlib
import RegisterMachine.Proofs.Decode
import RegisterMachine.Proofs.Plan

/-!
# Packed words

A word that was packed gives back its opcode and its fields (`opcode_of_pack`, `fields_of_pack`).
The proof is in numbers: a word is the opcode and the fields, each times the power of two of its
place, and since every field fits below the one before it, joining bits is adding and cutting a
field out is dividing.

For operands in the order in which they are written, `fields_of_ofOperands` says that each is found
again in its own field.
-/

namespace RegisterMachine

/-! ## Bits as numbers -/

/-- Numbers that share no bits are joined by adding them. -/
theorem toNat_or_of_dvd {high low : UInt32} (k : Nat) (hhigh : 2 ^ k ∣ high.toNat)
    (hlow : low.toNat < 2 ^ k) : (high ||| low).toNat = high.toNat + low.toNat := by
  obtain ⟨q, hq⟩ := hhigh
  rw [UInt32.toNat_or, hq, Nat.mul_comm, ← Nat.shiftLeft_eq, Nat.shiftLeft_add_eq_or_of_lt hlow]

theorem toNat_shiftLeft_of_lt {value shift : UInt32} (hshift : shift.toNat < 32)
    (h : value.toNat * 2 ^ shift.toNat < 2 ^ 32) :
    (value <<< shift).toNat = value.toNat * 2 ^ shift.toNat := by
  rw [UInt32.toNat_shiftLeft, Nat.mod_eq_of_lt hshift, Nat.shiftLeft_eq, Nat.mod_eq_of_lt h]

theorem toNat_and_of_mask {word mask : UInt32} {width : Nat} (hmask : mask.toNat = 2 ^ width - 1) :
    (word &&& mask).toNat = word.toNat % 2 ^ width := by
  rw [UInt32.toNat_and, hmask, Nat.and_two_pow_sub_one_eq_mod]

theorem toNat_shiftRight_of_lt {word shift : UInt32} (hshift : shift.toNat < 32) :
    (word >>> shift).toNat = word.toNat / 2 ^ shift.toNat := by
  rw [UInt32.toNat_shiftRight, Nat.mod_eq_of_lt hshift, Nat.shiftRight_eq_div_pow]

/-! ## Packing -/

namespace Instruction

/-- A field holds the values of its width, and one that the layout lacks holds zero only. -/
def Fits (layout : Layout) (fields : Fields) (field : Field) : Prop :=
  (fields.get field).toNat < 2 ^ (layout.width? field).getD 0

/-- What a field adds to the number of a word. -/
def share (layout : Layout) (fields : Fields) (field : Field) : Nat :=
  (fields.get field).toNat * 2 ^ (layout.shift field).toNat

/-- The bits of a word from the top of a field down. -/
def span (layout : Layout) (field : Field) : Nat :=
  (layout.shift field).toNat + (layout.width? field).getD 0

theorem span_lt (layout : Layout) (field : Field) : span layout field < 32 := by
  cases layout <;> cases field <;> decide

/-- Each field lies below the fields before it, and all of them below the opcode. -/
theorem span_dvd (layout : Layout) (fields : Fields) (n : Nat) :
    2 ^ span layout .a ∣ n * 2 ^ 24 ∧
    2 ^ span layout .b ∣ n * 2 ^ 24 + share layout fields .a ∧
    2 ^ span layout .c ∣ n * 2 ^ 24 + share layout fields .a + share layout fields .b := by
  cases layout <;> simp [span, share, Layout.width?, Layout.shift] <;> omega

theorem toNat_fieldMax {layout : Layout} {field : Field} {width : Nat}
    (h : layout.width? field = some width) :
    (UInt32.ofNat (Nat.pow 2 width - 1)).toNat = 2 ^ width - 1 := by
  cases layout <;> cases field <;> cases h <;> rfl

variable {op : Opcode} {fields : Fields}

theorem place_eq_ok {field : Field} {word word' : UInt32}
    (h : place op fields word field = .ok word') :
    Fits op.layout fields field ∧ word' = word ||| fields.get field <<< op.layout.shift field := by
  rw [place] at h
  cases hw : op.layout.width? field with
  | none =>
      simp only [Layout.fieldMax?, hw, Option.map_none] at h
      split at h
      · rename_i hzero
        cases h
        simp [Fits, hw, hzero]
      · cases h
  | some width =>
      simp only [Layout.fieldMax?, hw, Option.map_some] at h
      split at h
      · rename_i hle
        cases h
        rw [UInt32.le_iff_toNat_le, toNat_fieldMax hw] at hle
        have hpos := Nat.two_pow_pos width
        refine ⟨?_, rfl⟩
        rw [Fits, hw, Option.getD_some]
        omega
      · cases h

/-- A field that fits is added to a word that is clear from its top down. -/
theorem toNat_place {field : Field} {word word' : UInt32}
    (h : place op fields word field = .ok word')
    (hword : 2 ^ span op.layout field ∣ word.toNat) :
    word'.toNat = word.toNat + share op.layout fields field := by
  obtain ⟨hfits, rfl⟩ := place_eq_ok h
  have hspan := span_lt op.layout field
  have hlow : share op.layout fields field < 2 ^ span op.layout field := by
    rw [span, Nat.add_comm, pow_add]
    exact Nat.mul_lt_mul_of_pos_right hfits (Nat.two_pow_pos _)
  have hlt : share op.layout fields field < 2 ^ 32 :=
    hlow.trans (Nat.pow_lt_pow_right (by decide) hspan)
  have hshift := toNat_shiftLeft_of_lt (by rw [span] at hspan; omega) hlt
  rw [toNat_or_of_dvd _ hword (by rw [hshift]; exact hlow), hshift]
  rfl

theorem toNat_opcode (op : Opcode) :
    (op.byte.toUInt32 <<< 24).toNat = op.byte.toNat * 2 ^ 24 := by
  have hbyte := op.byte.toNat_lt
  refine toNat_shiftLeft_of_lt (by decide) ?_
  rw [UInt8.toNat_toUInt32, show (24 : UInt32).toNat = 24 from rfl]
  omega

/-- A word is made of its opcode and its fields, each in a place of its own. -/
theorem pack_eq_ok {i : Instruction} (h : pack op fields = .ok i) :
    (∀ field, Fits op.layout fields field) ∧
    i.word.toNat = op.byte.toNat * 2 ^ 24 + share op.layout fields .a + share op.layout fields .b
      + share op.layout fields .c := by
  obtain ⟨word, hfold, rfl⟩ := map_eq_ok.mp h
  obtain ⟨w₁, ha, hfold⟩ := bind_eq_ok.mp hfold
  obtain ⟨w₂, hb, hfold⟩ := bind_eq_ok.mp hfold
  obtain ⟨w₃, hc, hfold⟩ := bind_eq_ok.mp hfold
  cases hfold
  refine ⟨?_, ?_⟩
  · intro field
    cases field with
    | a => exact (place_eq_ok ha).1
    | b => exact (place_eq_ok hb).1
    | c => exact (place_eq_ok hc).1
  · obtain ⟨hda, hdb, hdc⟩ := span_dvd op.layout fields op.byte.toNat
    have h₁ := toNat_place ha (by rw [toNat_opcode]; exact hda)
    rw [toNat_opcode] at h₁
    have h₂ := toNat_place hb (by rw [h₁]; exact hdb)
    rw [h₁] at h₂
    have h₃ := toNat_place hc (by rw [h₂]; exact hdc)
    rw [h₃, h₂]

/-! ## Unpacking -/

theorem share_lt (h : ∀ field, Fits op.layout fields field) :
    share op.layout fields .a + share op.layout fields .b + share op.layout fields .c
      < 2 ^ 24 := by
  have ha := h .a
  have hb := h .b
  have hc := h .c
  cases hl : op.layout <;>
    simp [hl, Fits, share, Layout.width?, Layout.shift] at ha hb hc ⊢ <;> omega

/-- The opcode of a word is the one that it was made with. -/
theorem opcode_of_pack {i : Instruction} (h : pack op fields = .ok i) : i.opcode = .ok op := by
  obtain ⟨hfits, hword⟩ := pack_eq_ok h
  have hshare := share_lt hfits
  have hbyte := op.byte.toNat_lt
  apply opcode_of_byte
  rw [← UInt8.toNat_inj, opcodeByte, UInt32.toNat_toUInt8, UInt32.toNat_shiftRight,
    Nat.shiftRight_eq_div_pow, hword, show (24 : UInt32).toNat % 32 = 24 from rfl]
  omega

/-- A field is cut out of the number of a word. -/
theorem toNat_fields_get (i : Instruction) (layout : Layout) (field : Field) :
    ((i.fields layout).get field).toNat
      = i.word.toNat / 2 ^ (layout.shift field).toNat % 2 ^ (layout.width? field).getD 0 := by
  have hbyte : (0xff : UInt32).toNat = 2 ^ 8 - 1 := rfl
  have hhalf : (0xffff : UInt32).toNat = 2 ^ 16 - 1 := rfl
  have h16 : (16 : UInt32).toNat < 32 := by decide
  have h8 : (8 : UInt32).toNat < 32 := by decide
  cases layout <;> cases field <;>
    simp [fields, Fields.get, Layout.shift, Layout.width?, toNat_and_of_mask hbyte,
      toNat_and_of_mask hhalf, toNat_shiftRight_of_lt h16, toNat_shiftRight_of_lt h8, Nat.mod_one]

/-- The fields of a word are those that it was made with. -/
theorem fields_of_pack {i : Instruction} (h : pack op fields = .ok i) :
    i.fields op.layout = fields := by
  obtain ⟨hfits, hword⟩ := pack_eq_ok h
  have hget : ∀ field, (i.fields op.layout).get field = fields.get field := by
    have ha := hfits .a
    have hb := hfits .b
    have hc := hfits .c
    intro field
    rw [← UInt32.toNat_inj, toNat_fields_get, hword]
    cases hl : op.layout <;> cases field <;>
      simp [hl, Fits, share, Layout.width?, Layout.shift] at ha hb hc ⊢ <;> omega
  have heta : ∀ f : Fields, f = ⟨f.get .a, f.get .b, f.get .c⟩ := fun _ => rfl
  rw [heta (i.fields op.layout), hget, hget, hget]
  rfl

end Instruction

/-! ## Operands in the order in which they are written -/

theorem Fields.get_set (fields : Fields) (value : UInt32) (field other : Field) :
    (fields.set value field).get other = if field = other then value else fields.get other := by
  cases field <;> cases other <;> rfl

/-- No two operands of an instruction share a field. -/
theorem Opcode.nodup_fields (op : Opcode) : (op.operands.map Operand.field).Nodup := by
  cases op <;> simp [Opcode.operands]

namespace Instruction

/-- The fields with the values of some operands set. -/
def setOperands (fields : Fields) (pairs : List (Operand × UInt32)) : Fields :=
  pairs.foldl (fun fields (operand, value) => fields.set value operand.field) fields

theorem get_setOperands_of_notMem {field : Field} {pairs : List (Operand × UInt32)} :
    ∀ {fields : Fields}, field ∉ pairs.map (fun pair => pair.1.field) →
      (setOperands fields pairs).get field = fields.get field := by
  induction pairs with
  | nil => intro fields _; rfl
  | cons pair rest ih =>
      intro fields h
      rw [List.map_cons, List.mem_cons, not_or] at h
      rw [setOperands, List.foldl_cons]
      exact (ih h.2).trans ((Fields.get_set _ _ _ _).trans (if_neg fun he => h.1 he.symm))

theorem get_setOperands {operands : List Operand} :
    ∀ {values : List UInt32} {fields : Fields}, (operands.map Operand.field).Nodup →
      operands.length = values.length →
      List.Forall₂ (fun operand value =>
        (setOperands fields (operands.zip values)).get operand.field = value) operands values := by
  induction operands with
  | nil =>
      intro values fields _ hlength
      cases List.length_eq_zero_iff.mp hlength.symm
      exact .nil
  | cons operand rest ih =>
      intro values fields hnodup hlength
      cases values with
      | nil => cases hlength
      | cons value values =>
          rw [List.map_cons, List.nodup_cons] at hnodup
          refine .cons ?_ (ih hnodup.2 (Nat.succ.inj hlength))
          -- the operands behind this one have other fields and leave its value alone
          have hnot : operand.field ∉ (rest.zip values).map fun pair => pair.1.field := by
            intro hmem
            obtain ⟨pair, hpair, hfield⟩ := List.mem_map.mp hmem
            exact hnodup.1 (hfield ▸ List.mem_map_of_mem (List.of_mem_zip hpair).1)
          rw [List.zip_cons_cons, setOperands, List.foldl_cons]
          exact (get_setOperands_of_notMem hnot).trans
            ((Fields.get_set _ _ _ _).trans (if_pos rfl))

/-- A word that was made of operands has its opcode, and each operand in its own field. -/
theorem fields_of_ofOperands {op : Opcode} {values : List UInt32} {i : Instruction}
    (h : ofOperands op values = .ok i) :
    i.opcode = .ok op ∧
    List.Forall₂ (fun operand value => (i.fields op.layout).get operand.field = value)
      op.operands values := by
  rw [ofOperands] at h
  split at h
  · rename_i hlength
    refine ⟨opcode_of_pack h, ?_⟩
    rw [fields_of_pack h]
    exact get_setOperands op.nodup_fields hlength
  · cases h

end Instruction

end RegisterMachine
