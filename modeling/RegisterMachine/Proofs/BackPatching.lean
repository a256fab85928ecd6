import Mathlib
import RegisterMachine.Function.Builder
import RegisterMachine.Proofs.Encoding

/-!
# Back-patching

While a function is being built, words are appended and jumps get their targets later, as often as
one likes and with failures in between.  `back_patching_exact` says what comes out: the words as they
were appended, in order, but for the jumps that were patched, and of these only the low sixteen bits
differ: they hold the last target that was accepted.

A patch takes the word apart, sets one field and makes it again.  That this touches the low bits only
is `retarget_eq_ok`; after it a call is one of three things (`Outcome`), and the history is an
induction over the calls (`code_after`).
-/

namespace RegisterMachine

/-! ## Jumps -/

namespace Instruction

/-- The word is that of a jump. -/
def HoldsJump (i : Instruction) (op : Opcode) : Prop :=
  i.opcode = .ok op ∧ (op = .jump ∨ op = .jumpIf ∨ op = .jumpIfNot)

/-- The word with another target in its low sixteen bits, if there is one. -/
def withTarget (i : Instruction) : Option Nat → Instruction
  | none => i
  | some target => ⟨i.word &&& 0xffff0000 ||| UInt32.ofNat target⟩

variable {i : Instruction} {op : Opcode}

theorem HoldsJump.layout_eq (h : i.HoldsJump op) : op.layout = .two := by
  rcases h.2 with rfl | rfl | rfl <;> rfl

theorem HoldsJump.labelOperand?_eq (h : i.HoldsJump op) :
    FunctionBuilder.labelOperand? op = some ⟨"target", .label, .b⟩ := by
  rcases h.2 with rfl | rfl | rfl <;> rfl

/-- Only jumps have a target. -/
theorem holdsJump_of_labelOperand? (hop : i.opcode = .ok op) {operand : Operand}
    (h : FunctionBuilder.labelOperand? op = some operand) : i.HoldsJump op := by
  refine ⟨hop, ?_⟩
  cases op with
  | jump => exact .inl rfl
  | jumpIf => exact .inr (.inl rfl)
  | jumpIfNot => exact .inr (.inr rfl)
  | _ => cases h

/-- The high half of a jump holds its opcode and its first field. -/
theorem HoldsJump.and_high (h : i.HoldsJump op) :
    i.word &&& (0xffff0000 : UInt32)
      = op.byte.toUInt32 <<< 24 ||| (i.fields .two).get .a <<< Layout.two.shift .a := by
  have hmask : (0xffff0000 : UInt32) = 0xff000000 ||| Layout.two.fieldBits .a := by decide
  rw [hmask, word_and_or, and_opcodeBits h.1, and_fieldBits]

theorem HoldsJump.admits_iff (h : i.HoldsJump op) (target : UInt32) :
    op.layout.Admits ((i.fields op.layout).set target .b) ↔ target ≤ 0xffff := by
  have hadmits := admits_fields i .two
  have hmax : Layout.two.fieldMax? .b = some 0xffff := by decide
  rw [h.layout_eq]
  constructor
  · intro hset
    exact hset.present .b 0xffff hmax
  · intro hle
    refine ⟨fun field limit hlimit => ?_, fun field hnone => ?_⟩
    · cases field with
      | a => exact hadmits.present .a limit hlimit
      | b =>
          cases hmax.symm.trans hlimit
          exact hle
      | c => cases hlimit
    · cases field with
      | a => cases hnone
      | b => cases hnone
      | c => exact hadmits.absent .c hnone

theorem HoldsJump.join_eq (h : i.HoldsJump op) (target : UInt32) :
    join op ((i.fields op.layout).set target .b) = i.word &&& 0xffff0000 ||| target := by
  have hzero : (i.fields .two).get .c = 0 := rfl
  rw [h.and_high, h.layout_eq]
  simp only [join, h.layout_eq, List.foldl_cons, List.foldl_nil, Fields.get_set]
  simp [hzero, Layout.shift]

/-- A jump takes a target of sixteen bits, and that changes its low bits only. -/
theorem HoldsJump.pack_eq_ok (h : i.HoldsJump op) {target : UInt32} {i' : Instruction} :
    pack op ((i.fields op.layout).set target .b) = .ok i' ↔
      target ≤ 0xffff ∧ i' = ⟨i.word &&& 0xffff0000 ||| target⟩ := by
  constructor
  · intro hpack
    have hadmits := pack_ok_iff.mp ⟨i', hpack⟩
    rw [pack_of_admits hadmits, h.join_eq] at hpack
    cases hpack
    exact ⟨(h.admits_iff target).mp hadmits, rfl⟩
  · rintro ⟨hle, rfl⟩
    rw [pack_of_admits ((h.admits_iff target).mpr hle), h.join_eq]

theorem ofNat_le_iff {target : Nat} (h : target < UInt32.size) :
    UInt32.ofNat target ≤ 0xffff ↔ target ≤ 65535 := by
  rw [UInt32.le_iff_toNat_le, UInt32.toNat_ofNat_of_lt' h]
  rfl

/-- A patched jump is a jump still, with the same opcode and all its fields but the target. -/
theorem HoldsJump.withTarget (h : i.HoldsJump op) {target : Nat} (hle : target ≤ 65535) :
    (i.withTarget (some target)).HoldsJump op ∧
    (i.withTarget (some target)).fields op.layout
      = (i.fields op.layout).set (UInt32.ofNat target) .b := by
  have hlt : target < UInt32.size := hle.trans_lt (by decide)
  have hpack := h.pack_eq_ok.mpr ⟨(ofNat_le_iff hlt).mpr hle, rfl⟩
  exact ⟨⟨opcode_of_pack hpack, h.2⟩, fields_of_pack hpack⟩

/-- Of two targets the later one stays. -/
theorem withTarget_withTarget {first : Nat} (hle : first ≤ 65535) (second : Option Nat) :
    (i.withTarget (some first)).withTarget second = i.withTarget (second.or (some first)) := by
  cases second with
  | none => rfl
  | some second =>
      have hlt : first < UInt32.size := hle.trans_lt (by decide)
      have hlow : UInt32.ofNat first &&& (0xffff0000 : UInt32) = 0 := by
        have hmask : (0xffff0000 : UInt32) = (0xffff : UInt32) <<< (16 : UInt32) := by decide
        have hshift : UInt32.ofNat first >>> (16 : UInt32) = 0 := by
          apply UInt32.toNat_inj.mp
          rw [toNat_shiftRight_of_lt (by decide), UInt32.toNat_ofNat_of_lt' hlt]
          exact Nat.div_eq_of_lt (Nat.lt_succ_of_le hle)
        rw [hmask, and_shiftLeft_eq, hshift]
        decide
      have hhigh : (i.word &&& 0xffff0000 ||| UInt32.ofNat first) &&& (0xffff0000 : UInt32)
          = i.word &&& 0xffff0000 := by
        rw [UInt32.and_comm, word_and_or, UInt32.and_comm _ (UInt32.ofNat first), hlow,
          UInt32.or_zero, UInt32.and_comm, UInt32.and_assoc, UInt32.and_self]
      simp only [Instruction.withTarget, Option.or_some, Option.getD_some, hhigh]

end Instruction

namespace FunctionBuilder

open Instruction

/-- A jump gets a new target exactly if there is one to get it and the target has sixteen bits. -/
theorem retarget_eq_ok {code : Array Instruction} {pc target : Nat} {i' : Instruction} :
    retarget code pc target = .ok i' ↔
      ∃ i op, code[pc]? = some i ∧ i.HoldsJump op ∧ target ≤ 65535 ∧
        i' = i.withTarget (some target) := by
  constructor
  · intro h
    rw [retarget] at h
    cases hi : code[pc]? with
    | none => rw [hi] at h; cases h
    | some i =>
        rw [hi] at h
        obtain ⟨op, hop, h⟩ := bind_eq_ok.mp h
        cases hlabel : labelOperand? op with
        | none => rw [hlabel] at h; cases h
        | some operand =>
            have hjump := holdsJump_of_labelOperand? hop hlabel
            cases hlabel.symm.trans hjump.labelOperand?_eq
            simp only [hlabel] at h
            split at h
            · cases h
            · rename_i hsize
              obtain ⟨hle, hword⟩ := hjump.pack_eq_ok.mp h
              exact ⟨i, op, rfl, hjump, (ofNat_le_iff (by omega)).mp hle, hword⟩
  · rintro ⟨i, op, hi, hjump, hle, rfl⟩
    have hlt : target < UInt32.size := hle.trans_lt (by decide)
    rw [retarget, hi]
    refine bind_eq_ok.mpr ⟨op, hjump.1, ?_⟩
    simp only [hjump.labelOperand?_eq]
    rw [if_neg (by omega)]
    exact hjump.pack_eq_ok.mpr ⟨(ofNat_le_iff hlt).mpr hle, rfl⟩

/-! ## Calls -/

/-- What a client can ask about the code of a function in the making. -/
inductive CodeCall where
  | add (word : Instruction)
  | emit (op : Opcode) (values : List UInt32)
  | patch (pc target : Nat)

namespace CodeCall

/-- The word that a call appends. -/
def word? : CodeCall → Option Instruction
  | add word => some word
  | emit op values => (ofOperands op values).toOption
  | patch .. => none

/-- The target that a call gives to the jump at an index. -/
def target? (pc : Nat) : CodeCall → Option Nat
  | patch place target => if place = pc then some target else none
  | _ => none

end CodeCall

/-- Makes a call. -/
def attempt (builder : FunctionBuilder) : CodeCall → Attempt FunctionBuilder Unit
  | .add word => (.ok (), builder.addInstruction word)
  | .emit op values => (builder.emit op values).map (Except.map fun _ => ()) id
  | .patch pc target => builder.patchJump pc target

/-- The builder after calls. -/
def after (builder : FunctionBuilder) (calls : List CodeCall) : FunctionBuilder :=
  calls.foldl (fun builder call => (builder.attempt call).2) builder

/-- Of some calls, those that succeed. -/
def succeeded (builder : FunctionBuilder) : List CodeCall → List CodeCall
  | [] => []
  | call :: rest =>
    let later := succeeded (builder.attempt call).2 rest
    if (builder.attempt call).1.isOk then call :: later else later

/-- The words that calls append, in order. -/
def appended (calls : List CodeCall) : List Instruction := calls.filterMap CodeCall.word?

/-- The last target that calls give to the jump at an index. -/
def lastTarget (calls : List CodeCall) (pc : Nat) : Option Nat :=
  (calls.filterMap (CodeCall.target? pc)).getLast?

/-- `Outcome builder call result next`: the call can give `result` and leave the builder as `next`. -/
inductive Outcome (builder : FunctionBuilder) :
    CodeCall → Except Error Unit → FunctionBuilder → Prop
  | refused (call : CodeCall) (error : Error) : Outcome builder call (.error error) builder
  | appended {call : CodeCall} {word : Instruction} : call.word? = some word →
      (∀ pc, call.target? pc = none) →
      Outcome builder call (.ok ()) (builder.addInstruction word)
  | patched {pc target : Nat} {i : Instruction} {op : Opcode} : builder.code[pc]? = some i →
      i.HoldsJump op → target ≤ 65535 →
      Outcome builder (.patch pc target) (.ok ())
        { builder with code := builder.code.setIfInBounds pc (i.withTarget (some target)) }

/-- What one call can do. -/
theorem attempt_outcome (builder : FunctionBuilder) (call : CodeCall) :
    Outcome builder call (builder.attempt call).1 (builder.attempt call).2 := by
  cases call with
  | add word => exact .appended rfl fun _ => rfl
  | emit op values =>
      rw [attempt, emit]
      cases hword : ofOperands op values with
      | error error => exact .refused _ error
      | ok word => exact .appended (by rw [CodeCall.word?, hword]; rfl) fun _ => rfl
  | patch pc target =>
      rw [attempt, patchJump]
      cases hword : retarget builder.code pc target with
      | error error => exact .refused _ error
      | ok word =>
          obtain ⟨i, op, hi, hjump, hle, rfl⟩ := retarget_eq_ok.mp hword
          exact .patched hi hjump hle

/-- A call that fails leaves the builder as it was. -/
theorem attempt_of_error {builder : FunctionBuilder} {call : CodeCall} {error : Error}
    (h : (builder.attempt call).1 = .error error) : (builder.attempt call).2 = builder := by
  have hout := builder.attempt_outcome call
  generalize builder.attempt call = out at hout h ⊢
  obtain ⟨result, next⟩ := out
  cases hout with
  | refused => rfl
  | _ => cases h

/-- A patch succeeds exactly if there is a jump at the index and the target has sixteen bits. -/
theorem patchJump_ok_iff (builder : FunctionBuilder) (pc target : Nat) :
    (builder.patchJump pc target).1 = .ok () ↔
      ∃ i op, builder.code[pc]? = some i ∧ i.HoldsJump op ∧ target ≤ 65535 := by
  rw [patchJump]
  cases hword : retarget builder.code pc target with
  | error error =>
      constructor
      · intro h; cases h
      · rintro ⟨i, op, hi, hjump, hle⟩
        cases hword.symm.trans (retarget_eq_ok.mpr ⟨i, op, hi, hjump, hle, rfl⟩)
  | ok word =>
      obtain ⟨i, op, hi, hjump, hle, -⟩ := retarget_eq_ok.mp hword
      exact ⟨fun _ => ⟨i, op, hi, hjump, hle⟩, fun _ => rfl⟩

/-! ## Histories -/

theorem lastTarget_cons (call : CodeCall) (calls : List CodeCall) (pc : Nat) :
    lastTarget (call :: calls) pc = (lastTarget calls pc).or (call.target? pc) := by
  rw [lastTarget, lastTarget]
  cases h : call.target? pc with
  | none => rw [List.filterMap_cons_none h, Option.or_none]
  | some target =>
      rw [List.filterMap_cons_some h, List.getLast?_cons]
      cases (calls.filterMap (CodeCall.target? pc)).getLast? <;> rfl

/-- What a history says of one index, where `word?` was appended, `target?` is the last target and
`found?` stands there now. -/
structure Recorded (word? : Option Instruction) (target? : Option Nat)
    (found? : Option Instruction) : Prop where
  found : found? = word?.map (·.withTarget target?)
  jump : ∀ target, target? = some target →
    ∃ word op, word? = some word ∧ word.HoldsJump op ∧ target ≤ 65535

/-- One more patch, before the others. -/
theorem Recorded.of_patched {i : Instruction} {op : Opcode} (hjump : i.HoldsJump op)
    {target : Nat} (hle : target ≤ 65535) {later? : Option Nat} {found? : Option Instruction}
    (h : Recorded (some (i.withTarget (some target))) later? found?) :
    Recorded (some i) (later?.or (some target)) found? where
  found := by
    rw [h.found, Option.map_some, Option.map_some, withTarget_withTarget hle]
  jump := by
    intro last hlast
    refine ⟨i, op, rfl, hjump, ?_⟩
    cases later? with
    | none =>
        cases hlast
        exact hle
    | some later =>
        obtain ⟨-, -, -, -, hlater⟩ := h.jump later rfl
        cases hlast
        exact hlater

/-- One call and then others: what the others record from the builder that it leaves, all of them
record from the builder before it. -/
theorem recorded_of_outcome {builder next : FunctionBuilder} {call : CodeCall}
    {result : Except Error Unit} (hout : Outcome builder call result next)
    {later : List CodeCall} {pc : Nat} {found? : Option Instruction}
    (h : Recorded (next.code.toList ++ appended later)[pc]? (lastTarget later pc) found?) :
    let done := if result.isOk then call :: later else later
    Recorded (builder.code.toList ++ appended done)[pc]? (lastTarget done pc) found? := by
  cases hout with
  | refused => exact h
  | @appended _ word hword hnone =>
      have hwords : appended (call :: later) = word :: appended later :=
        List.filterMap_cons_some hword
      show Recorded (builder.code.toList ++ appended (call :: later))[pc]?
        (lastTarget (call :: later) pc) found?
      rw [hwords, lastTarget_cons, hnone, Option.or_none]
      simpa [addInstruction] using h
  | @patched place target i op hi hjump hle =>
      have hwords : appended (.patch place target :: later) = appended later := rfl
      have hlt : place < builder.code.size := (Array.getElem?_eq_some_iff.mp hi).1
      show Recorded (builder.code.toList ++ appended (.patch place target :: later))[pc]?
        (lastTarget (.patch place target :: later) pc) found?
      rw [hwords, lastTarget_cons, CodeCall.target?]
      simp only [Array.toList_setIfInBounds] at h
      by_cases hpc : place = pc
      · subst hpc
        rw [if_pos rfl]
        rw [List.getElem?_append_left (by simpa using hlt)] at h ⊢
        rw [List.getElem?_set_self (by simpa using hlt)] at h
        rw [Array.getElem?_toList, hi]
        exact .of_patched hjump hle h
      · rw [if_neg hpc, Option.or_none]
        have hsame : (builder.code.toList.set place (i.withTarget (some target))
            ++ appended later)[pc]? = (builder.code.toList ++ appended later)[pc]? := by
          rw [List.getElem?_append, List.getElem?_append, List.length_set,
            List.getElem?_set_ne hpc]
        rwa [hsame] at h

/-- After any calls, each index holds what the calls that succeeded say. -/
theorem recorded_after (calls : List CodeCall) :
    ∀ (builder : FunctionBuilder) (pc : Nat),
      Recorded (builder.code.toList ++ appended (builder.succeeded calls))[pc]?
        (lastTarget (builder.succeeded calls) pc) (builder.after calls).code[pc]? := by
  induction calls with
  | nil =>
      intro builder pc
      refine ⟨?_, fun target h => nomatch h⟩
      simp [after, succeeded, appended, lastTarget, withTarget]
  | cons call rest ih =>
      intro builder pc
      exact recorded_of_outcome (builder.attempt_outcome call) (ih (builder.attempt call).2 pc)

/-- **Back-patching is exact.**  Let any calls be made on a builder, and let `done` be those that
succeeded.  The finished code is the words in order, those that were there first and then those
appended, each as it was but for the last target it got.  Only jumps get targets, and keep their
opcode and their other fields.  Whether a patch succeeds depends on the word at its index and on the
size of the target alone, and a call that fails changes nothing. -/
theorem back_patching_exact (builder : FunctionBuilder) (calls : List CodeCall) :
    let done := builder.succeeded calls
    let words := builder.code.toList ++ appended done
    (builder.after calls).finalize.code.toList
      = words.zipIdx.map (fun entry => entry.1.withTarget (lastTarget done entry.2)) ∧
    (∀ pc target, lastTarget done pc = some target →
      ∃ word op, words[pc]? = some word ∧ word.HoldsJump op ∧ target ≤ 65535 ∧
        (word.withTarget (some target)).HoldsJump op ∧
        (word.withTarget (some target)).fields op.layout
          = (word.fields op.layout).set (UInt32.ofNat target) .b) ∧
    (∀ pc target, ((builder.after calls).patchJump pc target).1 = .ok () ↔
      ∃ i op, (builder.after calls).code[pc]? = some i ∧ i.HoldsJump op ∧ target ≤ 65535) ∧
    (∀ call error, ((builder.after calls).attempt call).1 = .error error →
      ((builder.after calls).attempt call).2 = builder.after calls) := by
  intro done words
  refine ⟨?_, ?_, patchJump_ok_iff _, fun _ _ => attempt_of_error⟩
  · apply List.ext_getElem?
    intro pc
    rw [List.getElem?_map, List.getElem?_zipIdx, finalize, Array.getElem?_toList,
      (recorded_after calls builder pc).found, Option.map_map]
    simp only [Nat.zero_add]
    rfl
  · intro pc target htarget
    obtain ⟨word, op, hword, hjump, hle⟩ := (recorded_after calls builder pc).jump target htarget
    obtain ⟨hjump', hfields⟩ := hjump.withTarget hle
    exact ⟨word, op, hword, hjump, hle, hjump', hfields⟩

-- Two patches, and between them one with a target that is too large and one of a missing word.
example :
    ((new "main" ⟨"", 0⟩).after [.emit .jumpIf [3, 0], .patch 0 5, .patch 0 65536, .patch 1 5,
      .add ⟨0xff000000⟩, .patch 1 5, .patch 0 9]).code = #[⟨0x91030009⟩, ⟨0xff000000⟩] := by
  decide +kernel

end FunctionBuilder

end RegisterMachine
