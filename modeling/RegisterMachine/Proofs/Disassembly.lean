import Mathlib
import RegisterMachine.Proofs.AssembledWindows
import RegisterMachine.Proofs.Numerals

/-!
# Texts of instructions are assembled back

The text of an instruction shows the values of its operands.  For registers, truth values, short
numbers and global slots this is also how they are written, so that the assembler makes the same
words of the texts.  The other kinds of operands are shown by index but written by name or by
value, and their texts are not meant to be read.

The way is that of the assembler: a text of several lines has these lines, a line of words has
these words as tokens, each word is read as the value that it was written for, and the words of
all lines are collected in one function.
-/

namespace RegisterMachine

/-! ## Lines -/

namespace Text

theorem linesFrom_append {cs : List Char} (done : List (List Char)) (rest : List Char)
    (h : '\n' ∉ cs) : ∀ line, linesFrom done line (cs ++ rest)
      = linesFrom done (cs.reverse ++ line) rest := by
  induction cs with
  | nil => intro line; rfl
  | cons c cs ih =>
      intro line
      rw [List.mem_cons, not_or] at h
      rw [List.cons_append, linesFrom, ih h.2, List.reverse_cons, List.append_assoc,
        List.singleton_append]
      exact fun hc => h.1 hc.symm

theorem endedLine_reverse {cs : List Char} (h : '\r' ∉ cs) : endedLine cs.reverse = cs := by
  rw [endedLine, List.reverse_reverse]
  intro line hline
  exact h (List.mem_reverse.mp (hline ▸ List.mem_cons_self))

/-- A text that is made of lines has these lines. -/
theorem linesFrom_intercalate (texts : List (List Char)) :
    (∀ cs ∈ texts, cs ≠ [] ∧ '\n' ∉ cs ∧ '\r' ∉ cs) → ∀ done,
      linesFrom done [] (List.intercalate ['\n'] texts) = done.reverse ++ texts := by
  induction texts with
  | nil => intro _ done; simp [linesFrom]
  | cons cs rest ih =>
      intro h done
      obtain ⟨⟨hne, hfeed, hreturn⟩, hrest⟩ := List.forall_mem_cons.mp h
      cases rest with
      | nil =>
          have hlast := linesFrom_append done [] hfeed []
          simpa [linesFrom, hne] using hlast
      | cons next rest =>
          rw [List.intercalate_cons_cons, List.append_assoc, linesFrom_append _ _ hfeed,
            List.append_nil, List.singleton_append, linesFrom, ih hrest, endedLine_reverse hreturn]
          simp

end Text

namespace Assembly

/-! ## Tokens -/

/-- The characters of mnemonics, and of operands that say their own value. -/
def isPlain (c : Char) : Bool := c.isAlphanum || c == '_' || c == '-'

/-- A text that is one token wherever it stands between separators. -/
def IsWord (cs : List Char) : Prop := cs ≠ [] ∧ ∀ c ∈ cs, isPlain c = true

theorem ne_of_isPlain {c d : Char} (h : isPlain c = true) (hd : isPlain d = false) : c ≠ d := by
  rintro rfl
  rw [hd] at h
  cases h

theorem isWord_of_all {cs : List Char} (h : (!cs.isEmpty && cs.all isPlain) = true) :
    IsWord cs := by
  rw [Bool.and_eq_true, Bool.not_eq_true', List.isEmpty_eq_false_iff, List.all_eq_true] at h
  exact h

theorem IsWord.notMem {cs : List Char} (h : IsWord cs) {d : Char} (hd : isPlain d = false) :
    d ∉ cs :=
  fun hmem => ne_of_isPlain (h.2 d hmem) hd rfl

section Scan

variable {column : Nat} {done : Array Token}

theorem scan_plain {c : Char} (h : isPlain c = true) (token : Option OpenToken)
    (rest : List Char) :
    scan column false token done (c :: rest)
      = scan (column + c.utf8Size) false (some (extended column c token)) done rest := by
  have hcomment : c ≠ '#' := ne_of_isPlain h rfl
  have hquote : (c == '"') = false := beq_false_of_ne (ne_of_isPlain h rfl)
  have hseparator : isSeparator c = false := by
    simp [isSeparator, ne_of_isPlain h (d := ',') rfl, ne_of_isPlain h (d := ' ') rfl,
      ne_of_isPlain h (d := '\t') rfl, ne_of_isPlain h (d := '\r') rfl]
  simp [scan, hcomment, hquote, hseparator]

theorem scan_separator {c : Char} (h : isSeparator c = true) (token : Option OpenToken)
    (rest : List Char) :
    scan column false token done (c :: rest)
      = scan (column + 1) false none (closed done token) rest := by
  have hcomment : c ≠ '#' := by
    rintro rfl
    cases h
  simp [scan, hcomment, h]

theorem scan_plains {cs : List Char} (done : Array Token) (rest : List Char)
    (h : ∀ c ∈ cs, isPlain c = true) :
    ∀ (column : Nat) (token : OpenToken), ∃ column',
      scan column false (some token) done (cs ++ rest)
        = scan column' false (some ⟨token.offset, cs.reverse ++ token.chars⟩) done rest := by
  induction cs with
  | nil => exact fun column token => ⟨column, rfl⟩
  | cons c cs ih =>
      intro column token
      obtain ⟨hc, hcs⟩ := List.forall_mem_cons.mp h
      obtain ⟨column', hscan⟩ := ih hcs (column + c.utf8Size) (extended column c (some token))
      refine ⟨column', ?_⟩
      rw [List.cons_append, scan_plain hc, hscan, List.reverse_cons, List.append_assoc]
      rfl

/-- A word becomes the open token. -/
theorem scan_word {cs : List Char} (h : IsWord cs) (column : Nat) (done : Array Token)
    (rest : List Char) :
    ∃ column', scan column false none done (cs ++ rest)
      = scan column' false (some ⟨column, cs.reverse⟩) done rest := by
  cases cs with
  | nil => exact absurd rfl h.1
  | cons c cs =>
      obtain ⟨hc, hcs⟩ := List.forall_mem_cons.mp h.2
      obtain ⟨column', hscan⟩ := scan_plains done rest hcs (column + c.utf8Size)
        (extended column c none)
      refine ⟨column', ?_⟩
      rw [List.cons_append, scan_plain hc, hscan, List.reverse_cons]
      rfl

/-- A list of words has these words as tokens. -/
theorem scan_words (words : List (List Char)) : (∀ cs ∈ words, IsWord cs) →
    ∀ (column : Nat) (done : Array Token), ∃ tokens : List Token,
      scan column false none done (List.intercalate [',', ' '] words)
        = .ok (done ++ tokens.toArray) ∧
      tokens.map Token.text = words.map String.ofList := by
  induction words with
  | nil => exact fun _ column done => ⟨[], by simp [scan, closed], rfl⟩
  | cons cs rest ih =>
      intro h column done
      obtain ⟨hcs, hrest⟩ := List.forall_mem_cons.mp h
      cases rest with
      | nil =>
          obtain ⟨column', hscan⟩ := scan_word hcs column done []
          refine ⟨[⟨String.ofList cs, column⟩], ?_, rfl⟩
          rw [List.intercalate_singleton, ← List.append_nil cs, hscan]
          simp [scan, closed, OpenToken.close]
      | cons next rest =>
          obtain ⟨column', hscan⟩ := scan_word hcs column done
            ([',', ' '] ++ List.intercalate [',', ' '] (next :: rest))
          obtain ⟨tokens, htokens, htexts⟩ := ih hrest (column' + 1 + 1)
            (done.push ⟨String.ofList cs, column⟩)
          refine ⟨⟨String.ofList cs, column⟩ :: tokens, ?_, by rw [List.map_cons, htexts]; rfl⟩
          rw [List.intercalate_cons_cons, List.append_assoc, hscan, List.cons_append,
            scan_separator rfl, List.singleton_append, scan_separator rfl]
          simp only [closed, OpenToken.close, List.reverse_reverse, htokens]
          simp

end Scan

/-- A line that starts with a word and goes on with a list of words has these as tokens. -/
theorem tokenize_words {first : String} {words : List String} (hfirst : IsWord first.toList)
    (hwords : ∀ word ∈ words, IsWord word.toList) (number : Nat) :
    ∃ token tokens, tokenize number (first ++ " " ++ ", ".intercalate words).toList
        = .ok (token :: tokens) ∧
      token.text = first ∧ tokens.map Token.text = words := by
  obtain ⟨column, hscan⟩ := scan_word hfirst 1 #[]
    (' ' :: List.intercalate [',', ' '] (words.map String.toList))
  obtain ⟨tokens, htokens, htexts⟩ := scan_words (words.map String.toList)
    (List.forall_mem_map.mpr hwords) (column + 1) #[⟨first, 1⟩]
  refine ⟨⟨first, 1⟩, tokens, ?_, rfl, ?_⟩
  · have hline : (first ++ " " ++ ", ".intercalate words).toList
        = first.toList ++ ' ' :: List.intercalate [',', ' '] (words.map String.toList) := by
      simp
    rw [tokenize, hline, hscan, scan_separator rfl]
    simp only [closed, OpenToken.close, List.reverse_reverse, String.ofList_toList,
      List.push_toArray, List.nil_append, htokens]
    simp
  · rw [htexts, List.map_map]
    simp [Function.comp_def]

/-! ## Mnemonics and operands -/

theorem ofMnemonic?_mnemonic (op : Opcode) : Opcode.ofMnemonic? op.mnemonic = some op := by
  have hall : ∀ op ∈ Opcode.all, Opcode.ofMnemonic? op.mnemonic = some op := by decide +kernel
  exact hall op op.mem_all

theorem isWord_mnemonic (op : Opcode) : IsWord op.mnemonic.toList := by
  have hall : Opcode.all.all
      (fun op => !op.mnemonic.toList.isEmpty && op.mnemonic.toList.all isPlain) = true := by
    decide +kernel
  exact isWord_of_all (List.all_eq_true.mp hall op op.mem_all)

end Assembly

/-- The operands whose texts are read as the values that they show. -/
def OperandKind.isLiteral : OperandKind → Bool
  | .reg | .bool | .simm16 | .global => true
  | .const _ | .str | .func | .label => false

/-- Bits of the field of an operand. -/
def OperandKind.width : OperandKind → Nat
  | .reg => 8
  | _ => 16

theorem Opcode.width_operand (op : Opcode) :
    ∀ operand ∈ op.operands, op.layout.width? operand.field = some operand.kind.width := by
  cases op <;> simp [Opcode.operands, Opcode.layout, Layout.width?, OperandKind.width]

theorem Instruction.field_lt (i : Instruction) {op : Opcode} {operand : Operand}
    (h : operand ∈ op.operands) :
    ((i.fields op.layout).get operand.field).toNat < 2 ^ operand.kind.width := by
  rw [toNat_fields_get, op.width_operand operand h]
  exact Nat.mod_lt _ (Nat.two_pow_pos _)

namespace Assembly

theorem isWord_toDigits (n : Nat) : IsWord (Nat.toDigits 10 n) := by
  refine ⟨Nat.toDigits_ne_nil, fun c hc => ?_⟩
  have hdigit : c.isDigit = true := Nat.isDigit_of_mem_toDigits (by decide) (by decide) hc
  simp [isPlain, Char.isAlphanum, hdigit]

theorem IsWord.cons {c : Char} {cs : List Char} (hc : isPlain c = true) (h : IsWord cs) :
    IsWord (c :: cs) :=
  ⟨List.cons_ne_nil c cs, List.forall_mem_cons.mpr ⟨hc, h.2⟩⟩

theorem toList_operandText_reg (value : UInt32) :
    (Instruction.operandText .reg value).toList = 'r' :: Nat.toDigits 10 value.toNat := by
  have htext : Instruction.operandText .reg value = "r" ++ toString value.toNat := rfl
  simp [htext]

theorem toList_operandText_global (value : UInt32) :
    (Instruction.operandText .global value).toList = 'g' :: Nat.toDigits 10 value.toNat := by
  have htext : Instruction.operandText .global value = "g" ++ toString value.toNat := rfl
  simp [htext]

theorem isWord_operandText {kind : OperandKind} (h : kind.isLiteral = true) (value : UInt32) :
    IsWord (Instruction.operandText kind value).toList := by
  cases kind with
  | reg =>
      rw [toList_operandText_reg]
      exact (isWord_toDigits _).cons rfl
  | bool =>
      rw [Instruction.operandText]
      split
      · exact isWord_of_all (by decide +kernel)
      · exact isWord_of_all (by decide +kernel)
  | simm16 =>
      show IsWord (toString value.toUInt16.toInt16.toInt).toList
      cases value.toUInt16.toInt16.toInt with
      | ofNat n =>
          show IsWord n.repr.toList
          rw [Nat.toList_repr]
          exact isWord_toDigits n
      | negSucc n =>
          show IsWord ("-" ++ (n + 1).repr).toList
          rw [String.toList_append, Nat.toList_repr]
          exact (isWord_toDigits (n + 1)).cons rfl
  | global =>
      rw [toList_operandText_global]
      exact (isWord_toDigits _).cons rfl
  | const _ => cases h
  | str => cases h
  | func => cases h
  | label => cases h

/-- The text of an operand is read as the value that it shows. -/
theorem operand_operandText {kind : OperandKind} {value : UInt32} (scope : Scope) (p : Program)
    (hkind : kind.isLiteral = true) (hwidth : value.toNat < 2 ^ kind.width)
    (hbool : kind = .bool → value ≤ 1) :
    operand scope p kind (Instruction.operandText kind value) = .ok (value, p) := by
  cases kind with
  | reg =>
      have hregister : register (Instruction.operandText .reg value)
          = .ok (UInt8.ofNat value.toNat) := by
        rw [register, toList_operandText_reg]
        simp only [Text.uint8?_toDigits (Nat.le_of_lt_succ hwidth)]
      have hvalue : (UInt8.ofNat value.toNat).toUInt32 = value := by
        rw [← UInt32.toNat_inj, UInt8.toNat_toUInt32, UInt8.toNat_ofNat_of_lt' hwidth]
      rw [operand, hregister]
      exact congrArg (fun v => Except.ok (v, p)) hvalue
  | bool =>
      obtain rfl | rfl : value = 0 ∨ value = 1 := by
        have hle := UInt32.le_iff_toNat_le.mp (hbool rfl)
        rw [← UInt32.toNat_inj, ← UInt32.toNat_inj]
        exact Nat.le_one_iff_eq_zero_or_eq_one.mp hle
      · rfl
      · rfl
  | simm16 =>
      have hvalue : value.toUInt16.toUInt32 = value := by
        rw [← UInt32.toNat_inj, UInt16.toNat_toUInt32, UInt32.toNat_toUInt16]
        exact Nat.mod_eq_of_lt hwidth
      have hnumber : number Text.int16? "16-bit immediate" (Instruction.operandText .simm16 value)
          = .ok value.toUInt16.toInt16 := by
        rw [number, Instruction.operandText, Text.int16?_toString]
      rw [operand, hnumber]
      exact congrArg (fun v => Except.ok (v, p)) hvalue
  | global =>
      have hslot : globalSlot (Instruction.operandText .global value)
          = .ok (UInt16.ofNat value.toNat) := by
        rw [globalSlot, toList_operandText_global]
        simp only [number, Text.uint16?_toDigits (Nat.le_of_lt_succ hwidth)]
      have hvalue : (UInt16.ofNat value.toNat).toUInt32 = value := by
        rw [← UInt32.toNat_inj, UInt16.toNat_toUInt32, UInt16.toNat_ofNat_of_lt' hwidth]
      rw [operand, hslot]
      exact congrArg (fun v => Except.ok (v, p)) hvalue
  | const _ => cases hkind
  | str => cases hkind
  | func => cases hkind
  | label => cases hkind

end Assembly

/-! ## Instructions of literals -/

namespace Instruction

/-- The instruction has only operands that are read as they are shown, and truth values that are
zero or one. -/
def Literal (i : Instruction) : Prop :=
  ∃ op values, ofOperands op values = .ok i ∧
    List.Forall₂ (fun operand value =>
      operand.kind.isLiteral = true ∧ (operand.kind = .bool → value ≤ 1)) op.operands values

/-- The registers that an instruction names, in the order in which they are written. -/
def registers (i : Instruction) : List Nat :=
  match i.opcode with
  | .ok op => (op.operands.filter fun operand => operand.kind = .reg).map fun operand =>
      ((i.fields op.layout).get operand.field).toNat
  | .error _ => []

/-- The texts of the operands of a word with a given opcode. -/
def operandTexts (i : Instruction) (op : Opcode) : List String :=
  op.operands.map fun operand => operandText operand.kind ((i.fields op.layout).get operand.field)

theorem namesBelow_iff {i : Instruction} {n : Nat} : i.NamesBelow n ↔ ∀ r ∈ i.registers, r < n := by
  unfold NamesBelow registers
  cases i.opcode with
  | error e => simp
  | ok op =>
      simp only [Except.ok.injEq, forall_eq', List.forall_mem_map, List.mem_filter,
        decide_eq_true_eq, and_imp]

theorem text_of_opcode {i : Instruction} {op : Opcode} (h : i.opcode = .ok op) :
    i.text = op.mnemonic ++ " " ++ ", ".intercalate (i.operandTexts op) := by
  unfold opcode at h
  unfold text
  cases hbyte : Opcode.ofByte? i.opcodeByte with
  | none => rw [hbyte] at h; cases h
  | some op' => rw [hbyte] at h; cases h; rfl

namespace Literal

variable {i : Instruction} {op : Opcode}

theorem opcode (h : i.Literal) : ∃ op, i.opcode = .ok op := by
  obtain ⟨op, values, hword, -⟩ := h
  exact ⟨op, (fields_of_ofOperands hword).1⟩

theorem word (h : i.Literal) (hop : i.opcode = .ok op) :
    ofOperands op (op.operands.map fun operand => (i.fields op.layout).get operand.field)
      = .ok i := by
  obtain ⟨op', values, hword, -⟩ := h
  cases hop.symm.trans (fields_of_ofOperands hword).1
  rw [map_fields_of_ofOperands hword]
  exact hword

theorem operand (h : i.Literal) (hop : i.opcode = .ok op) : ∀ operand ∈ op.operands,
    operand.kind.isLiteral = true ∧
    (operand.kind = .bool → (i.fields op.layout).get operand.field ≤ 1) := by
  obtain ⟨op', values, hword, hvalues⟩ := h
  cases hop.symm.trans (fields_of_ofOperands hword).1
  rw [← map_fields_of_ofOperands hword, List.forall₂_map_right_iff, List.forall₂_same] at hvalues
  exact hvalues

end Literal

end Instruction

/-- One more than the highest register that a list of instructions names, or zero. -/
def registerBound (code : List Instruction) : Nat :=
  (code.flatMap Instruction.registers).foldr (fun r n => max (r + 1) n) 0

theorem registerBound_le_iff {code : List Instruction} {n : Nat} :
    registerBound code ≤ n ↔ ∀ i ∈ code, i.NamesBelow n := by
  have hfold : ∀ registers : List Nat,
      registers.foldr (fun r n => max (r + 1) n) 0 ≤ n ↔ ∀ r ∈ registers, r < n := by
    intro registers
    induction registers with
    | nil => simp
    | cons r registers ih =>
        rw [List.foldr_cons, Nat.max_le, ih, List.forall_mem_cons, Nat.succ_le_iff]
  rw [registerBound, hfold]
  simp only [Instruction.namesBelow_iff, List.mem_flatMap, forall_exists_index, and_imp]
  exact forall_comm.trans (forall_congr' fun i => forall_comm)

/-- A register has eight bits. -/
theorem registerBound_le (code : List Instruction) : registerBound code ≤ 256 := by
  rw [registerBound_le_iff]
  intro i _ op _ operand hoperand hreg
  have hlt := i.field_lt hoperand
  rwa [hreg] at hlt

namespace Assembly

/-! ## The outline of texts -/

/-- The tokens of a line are the mnemonic and the operands of an instruction. -/
def Shows (i : Instruction) (line : SourceLine) : Prop :=
  ∃ op, i.opcode = .ok op ∧ line.mnemonic.text = op.mnemonic ∧
    line.operands.map Token.text = i.operandTexts op

theorem isWord_operandTexts {i : Instruction} {op : Opcode} (h : i.Literal)
    (hop : i.opcode = .ok op) : ∀ text ∈ i.operandTexts op, IsWord text.toList := by
  intro text htext
  obtain ⟨operand, hoperand, rfl⟩ := List.mem_map.mp htext
  exact isWord_operandText (h.operand hop operand hoperand).1 _

theorem forall_mem_intercalate {P : Char → Prop} {separator : List Char}
    (hseparator : ∀ c ∈ separator, P c) (words : List (List Char)) :
    (∀ cs ∈ words, ∀ c ∈ cs, P c) → ∀ c ∈ List.intercalate separator words, P c := by
  induction words with
  | nil => simp
  | cons cs rest ih =>
      intro h
      obtain ⟨hcs, hrest⟩ := List.forall_mem_cons.mp h
      cases rest with
      | nil => rwa [List.intercalate_singleton]
      | cons next rest =>
          rw [List.intercalate_cons_cons, List.forall_mem_append, List.forall_mem_append]
          exact ⟨⟨hcs, hseparator⟩, ih hrest⟩

/-- The text of an instruction is one line. -/
theorem line_text {i : Instruction} (h : i.Literal) :
    i.text.toList ≠ [] ∧ '\n' ∉ i.text.toList ∧ '\r' ∉ i.text.toList := by
  obtain ⟨op, hop⟩ := h.opcode
  have htext : i.text.toList = op.mnemonic.toList
      ++ ' ' :: List.intercalate [',', ' '] ((i.operandTexts op).map String.toList) := by
    simp [Instruction.text_of_opcode hop]
  have hchars : ∀ c ∈ i.text.toList, isPlain c = true ∨ c = ',' ∨ c = ' ' := by
    rw [htext, List.forall_mem_append, List.forall_mem_cons]
    refine ⟨fun c hc => .inl ((isWord_mnemonic op).2 c hc), by simp,
      forall_mem_intercalate (by simp) _ (List.forall_mem_map.mpr fun text hmem c hc => ?_)⟩
    exact .inl ((isWord_operandTexts h hop text hmem).2 c hc)
  refine ⟨by simp [htext], fun hmem => ?_, fun hmem => ?_⟩
  · exact absurd (hchars _ hmem) (by decide)
  · exact absurd (hchars _ hmem) (by decide)

theorem labelName?_of_isWord {text : String} (h : IsWord text.toList) : labelName? text = none := by
  rw [labelName?]
  split
  · rename_i c rest hreverse
    have hcolon : ':' ∈ text.toList := List.mem_reverse.mp (hreverse ▸ List.mem_cons_self)
    exact absurd hcolon (h.notMem rfl)
  · rfl

namespace Outline

variable {outline : Outline}

/-- An instruction that starts with a word is added as it is. -/
theorem addTokens_of_isWord {first : Token} (h : IsWord first.text.toList) (number : Nat)
    (rest : List Token) :
    outline.addTokens number (first :: rest)
      = .ok (outline.addInstruction number (first :: rest)) := by
  have hdot : first.text.toList.head? ≠ some '.' :=
    fun hhead => h.notMem rfl (List.mem_of_head? hhead)
  rw [addTokens, if_neg hdot, labelName?_of_isWord h]

/-- The outline with more lines in the present block. -/
def addLines (outline : Outline) (lines : List SourceLine) : Outline :=
  { outline with current := { outline.current with lines := outline.current.lines ++ lines } }

theorem addLine_text {i : Instruction} (h : i.Literal) (outline : Outline) (number : Nat) :
    ∃ line, Shows i line ∧
      outline.addLine number i.text.toList = .ok (outline.addLines [line]) := by
  obtain ⟨op, hop⟩ := h.opcode
  obtain ⟨token, tokens, htokens, hfirst, htexts⟩ :=
    tokenize_words (isWord_mnemonic op) (isWord_operandTexts h hop) number
  refine ⟨⟨number, token, tokens⟩, ⟨op, hop, hfirst, htexts⟩, ?_⟩
  rw [Instruction.text_of_opcode hop]
  refine bind_eq_ok.mpr ⟨_, htokens, ?_⟩
  rw [addTokens_of_isWord (hfirst ▸ isWord_mnemonic op)]
  simp [addInstruction, addLines]

theorem addLines_texts (code : List Instruction) : (∀ i ∈ code, i.Literal) →
    ∀ (outline : Outline) (number : Nat), ∃ lines, List.Forall₂ Shows code lines ∧
      ((code.map fun i => i.text.toList).zipIdx number).foldlM
        (fun outline line => outline.addLine line.2 line.1) outline
        = .ok (outline.addLines lines) := by
  induction code with
  | nil => exact fun _ outline number => ⟨[], .nil, by simp [addLines, pure, Except.pure]⟩
  | cons i code ih =>
      intro h outline number
      obtain ⟨hi, hcode⟩ := List.forall_mem_cons.mp h
      obtain ⟨line, hline, hadd⟩ := addLine_text hi outline number
      obtain ⟨lines, hlines, hfold⟩ := ih hcode (outline.addLines [line]) (number + 1)
      refine ⟨line :: lines, .cons hline hlines, ?_⟩
      simp only [List.map_cons, List.zipIdx_cons, List.foldlM_cons, hadd]
      refine hfold.trans ?_
      simp [addLines]

/-- The texts of instructions are the lines of one block. -/
theorem ofSource_texts {code : List Instruction} (h : ∀ i ∈ code, i.Literal) :
    ∃ lines, List.Forall₂ Shows code lines ∧
      ofSource ("\n".intercalate (code.map Instruction.text)) = .ok (start.addLines lines) := by
  obtain ⟨lines, hshows, hfold⟩ := addLines_texts code h start 1
  refine ⟨lines, hshows, ?_⟩
  have hlines : Text.lines ("\n".intercalate (code.map Instruction.text))
      = code.map fun i => i.text.toList := by
    have hone : ∀ cs ∈ code.map (fun i => i.text.toList), cs ≠ [] ∧ '\n' ∉ cs ∧ '\r' ∉ cs :=
      List.forall_mem_map.mpr fun i hi => line_text (h i hi)
    rw [Text.lines, String.toList_intercalate, List.map_map]
    exact Text.linesFrom_intercalate _ hone []
  rw [ofSource, hlines]
  exact hfold

end Outline

/-! ## The function of texts -/

namespace Draft

variable {scope : Scope} {p : Program} {b : FunctionBuilder} {number : Nat}

theorem operands_of_texts (value : Operand → UInt32) (operands : List Operand) :
    (∀ operand ∈ operands, operand.kind.isLiteral = true ∧
      (value operand).toNat < 2 ^ operand.kind.width ∧
      (operand.kind = .bool → value operand ≤ 1)) →
    ∀ {tokens : List Token} (r : Nat), tokens.map Token.text
        = operands.map (fun operand => Instruction.operandText operand.kind (value operand)) →
      ∃ r', Draft.operands scope number ⟨p, b, r⟩ (operands.zip tokens)
        = .ok (operands.map value, ⟨p, b, r'⟩) := by
  induction operands with
  | nil => exact fun _ _ r _ => ⟨r, rfl⟩
  | cons operand operands ih =>
      intro h tokens r htexts
      obtain ⟨⟨hkind, hwidth, hbool⟩, hrest⟩ := List.forall_mem_cons.mp h
      cases tokens with
      | nil => cases htexts
      | cons token tokens =>
          rw [List.map_cons, List.map_cons, List.cons.injEq] at htexts
          have hread := operand_operandText scope p hkind hwidth hbool
          rw [← htexts.1] at hread
          obtain ⟨r', hoperands⟩ := ih hrest _ htexts.2
          exact ⟨r', operands_cons_of_ok hread hoperands⟩

/-- A line that shows an instruction is assembled to this instruction. -/
theorem addLine_of_shows {i : Instruction} {line : SourceLine} (h : i.Literal)
    (hshows : Shows i line) (r : Nat) :
    ∃ r', addLine scope ⟨p, b, r⟩ line = .ok ⟨p, b.addInstruction i, r'⟩ := by
  obtain ⟨op, hop, hmnemonic, htexts⟩ := hshows
  have hliteral : ∀ operand ∈ op.operands, operand.kind.isLiteral = true ∧
      ((i.fields op.layout).get operand.field).toNat < 2 ^ operand.kind.width ∧
      (operand.kind = .bool → (i.fields op.layout).get operand.field ≤ 1) := by
    intro operand hoperand
    obtain ⟨hkind, hbool⟩ := h.operand hop operand hoperand
    exact ⟨hkind, i.field_lt hoperand, hbool⟩
  obtain ⟨r', hoperands⟩ : ∃ r', Draft.operands scope line.number ⟨p, b, r⟩
      (op.operands.zip line.operands) = .ok (_, ⟨p, b, r'⟩) :=
    operands_of_texts _ op.operands hliteral r htexts
  have hlength : op.operands.length = line.operands.length := by
    simpa [Instruction.operandTexts] using (congrArg List.length htexts).symm
  exact ⟨r', addLine_of_ok (hmnemonic ▸ ofMnemonic?_mnemonic op) hlength hoperands (h.word hop)⟩

theorem addLines_of_shows {code : List Instruction} {lines : List SourceLine}
    (hshows : List.Forall₂ Shows code lines) (h : ∀ i ∈ code, i.Literal) :
    ∀ (b : FunctionBuilder) (r : Nat), ∃ r', lines.foldlM (addLine scope) ⟨p, b, r⟩
      = .ok ⟨p, { b with code := b.code ++ code }, r'⟩ := by
  induction hshows with
  | nil => exact fun b r => ⟨r, by simp [pure, Except.pure]⟩
  | cons hline _ ih =>
      intro b r
      obtain ⟨hi, hcode⟩ := List.forall_mem_cons.mp h
      obtain ⟨r₁, hadd⟩ := addLine_of_shows hi hline r
      obtain ⟨r₂, hfold⟩ := ih hcode (b.addInstruction _) r₁
      refine ⟨r₂, ?_⟩
      rw [List.foldlM_cons]
      refine bind_eq_ok.mpr ⟨_, hadd, hfold.trans ?_⟩
      simp [FunctionBuilder.addInstruction]

end Draft

theorem takeRegisters_of_le (n : Nat) :
    ∀ {builder : FunctionBuilder} {k : Nat}, builder.registers = ⟨k, k⟩ →
      k + n ≤ registerCapacity →
      takeRegisters n builder = .ok { builder with registers := ⟨k + n, k + n⟩ } := by
  induction n with
  | zero =>
      intro builder k hk _
      rw [takeRegisters, Nat.add_zero, ← hk]
  | succ n ih =>
      intro builder k hk hle
      rw [takeRegisters, allocateRegister_of_lt hk (by omega)]
      have hnext : takeRegisters n { builder with registers := ⟨k + 1, k + 1⟩ } = _ :=
        ih rfl (by omega)
      rw [Nat.add_assoc, Nat.add_comm 1 n] at hnext
      exact hnext

theorem reserveRegisters_of_le {n : Nat} {builder : FunctionBuilder}
    (hempty : builder.registers = .empty) (h : n ≤ registerCapacity) :
    reserveRegisters n builder = .ok { builder with registers := ⟨0, n⟩ } := by
  refine bind_eq_ok.mpr ⟨_, takeRegisters_of_le n hempty (by omega), ?_⟩
  refine bind_eq_ok.mpr ⟨((), { builder with registers := ⟨0, n⟩ }), ?_, rfl⟩
  simp [FunctionBuilder.freeRegisters_eq, Attempt.toExcept]

/-- A block that shows instructions becomes a function of these instructions. -/
theorem compileBlock_of_shows {code : List Instruction} {block : Block}
    (hshows : List.Forall₂ Shows code block.lines.toList) (h : ∀ i ∈ code, i.Literal)
    (file : String) (names : Std.HashMap String UInt16) (p : Program) :
    ∃ count, compileBlock file names p block
      = .ok (⟨block.name, ⟨file, UInt32.ofNat block.line⟩, block.paramCount, block.localCount,
          count, code.toArray⟩, p) := by
  obtain ⟨registers, hlines⟩ : ∃ registers,
      block.lines.toList.foldlM (Draft.addLine ⟨names, block.labels⟩)
        ⟨p, ⟨block.name, ⟨file, UInt32.ofNat block.line⟩, block.paramCount, block.localCount, #[],
          .empty⟩, 0⟩ = .ok ⟨p, _, registers⟩ :=
    Draft.addLines_of_shows hshows h _ 0
  obtain ⟨words, hbuilder, hregisters⟩ := Draft.addLines_registers _ hlines
  have hwords : code = words := by
    simpa using congrArg FunctionBuilder.code hbuilder
  have hle : registers ≤ registerCapacity :=
    (hregisters _).mpr
      ⟨Nat.zero_le _, hwords ▸ registerBound_le_iff.mp (registerBound_le code)⟩
  refine ⟨max (UInt16.ofNat registers) block.paramCount, ?_⟩
  rw [compileBlock, ← Array.foldlM_toList]
  refine bind_eq_ok.mpr ⟨_, hlines, bind_eq_ok.mpr ⟨_, reserveRegisters_of_le rfl hle, ?_⟩⟩
  simp [FunctionBuilder.finalize, pure, Except.pure]

/-- **Texts of instructions are assembled back.**  The assembler makes one function of the texts of
instructions that are written out on lines of their own.  Its words are the given ones, its window
holds the registers that they name and no more, and the program has no constants. -/
theorem assemble_texts {code : List Instruction} (h : ∀ i ∈ code, i.Literal) (file : String) :
    ∃ count : UInt16, count.toNat = registerBound code ∧
      assemble ("\n".intercalate (code.map Instruction.text)) file
        = .ok { Program.empty with
            functions := #[⟨"main", ⟨file, 1⟩, 0, 0, count, code.toArray⟩] } := by
  obtain ⟨lines, hshows, houtline⟩ := Outline.ofSource_texts h
  have hblock : List.Forall₂ Shows code (Outline.start.addLines lines).current.lines.toList := by
    simpa [Outline.addLines, Outline.start, Block.new] using hshows
  have hnames : nameBlocks ∅ 0 (Outline.start.addLines lines).blocks.toList
      = .ok ((∅ : Std.HashMap String UInt16).insert "main" 0) := by
    simp [nameBlocks, maxTableLength, Outline.addLines, Outline.start, Outline.blocks, Block.new,
      implicitName]
  obtain ⟨count, hcompile⟩ := compileBlock_of_shows hblock h file
    ((∅ : Std.HashMap String UInt16).insert "main" 0) Program.empty
  refine ⟨count, eq_of_forall_ge_iff fun n => ?_, ?_⟩
  · have hsnug := compileBlock_snug hcompile n
    simpa [registerBound_le_iff, Outline.addLines, Outline.start, Block.new] using hsnug
  · refine bind_eq_ok.mpr ⟨_, houtline, bind_eq_ok.mpr ⟨_, hnames, ?_⟩⟩
    refine bind_eq_ok.mpr ⟨{ Program.empty with
      functions := #[⟨"main", ⟨file, 1⟩, 0, 0, count, code.toArray⟩] }, ?_, ?_⟩
    · rw [← Array.foldlM_toList]
      exact bind_eq_ok.mpr ⟨_, bind_eq_ok.mpr ⟨_, hcompile, rfl⟩, rfl⟩
    · refine bind_eq_ok.mpr ⟨0, ?_, rfl⟩
      simp [entryIndex, implicitName, Outline.addLines, Outline.start]

/-- One instruction for each kind of literal, with values at the ends of their ranges. -/
def literalCode : List Instruction :=
  [⟨0x01030001⟩, ⟨0x03008000⟩, ⟨0x0bffffff⟩, ⟨0x94000000⟩]

theorem literal_of_mem_literalCode : ∀ i ∈ literalCode, i.Literal := by
  have htrue : (⟨0x01030001⟩ : Instruction).Literal :=
    ⟨.loadBool, [3, 1], rfl, .cons ⟨rfl, by decide⟩ (.cons ⟨rfl, by decide⟩ .nil)⟩
  have hleast : (⟨0x03008000⟩ : Instruction).Literal :=
    ⟨.loadI64, [0, 0x8000], rfl, .cons ⟨rfl, by decide⟩ (.cons ⟨rfl, by decide⟩ .nil)⟩
  have hslot : (⟨0x0bffffff⟩ : Instruction).Literal :=
    ⟨.storeGlobal, [255, 0xffff], rfl, .cons ⟨rfl, by decide⟩ (.cons ⟨rfl, by decide⟩ .nil)⟩
  have hret : (⟨0x94000000⟩ : Instruction).Literal :=
    ⟨.ret, [0], rfl, .cons ⟨rfl, by decide⟩ .nil⟩
  simp [literalCode, htrue, hleast, hslot, hret]

theorem assemble_texts_literalCode :
    (∀ i ∈ literalCode, i.Literal) ∧ registerBound literalCode = 256 ∧
    ∃ count : UInt16, count.toNat = registerBound literalCode ∧
      assemble ("\n".intercalate (literalCode.map Instruction.text)) "main.kasm"
        = .ok { Program.empty with
            functions := #[⟨"main", ⟨"main.kasm", 1⟩, 0, 0, count, literalCode.toArray⟩] } :=
  ⟨literal_of_mem_literalCode, by decide +kernel,
    assemble_texts literal_of_mem_literalCode "main.kasm"⟩

end Assembly

end RegisterMachine
