import Mathlib
import RegisterMachine.Assembly.Assemble
import RegisterMachine.Proofs.Constants
import RegisterMachine.Proofs.Sections
import RegisterMachine.Proofs.Words

/-!
# The assembler keeps what the source says

The second pass turns sections of a source text into functions of a program.  What an operand says
depends on its kind (`Denotes`): a number is the number, a literal is a place in a table of
constants, a name is the index of the function with that name, and a label is the number of
instructions before it.  A word says what a line says if its opcode and all its fields do
(`Encodes`).

Tables of constants only grow while a text is assembled, so that a word that was right when it was
written stays right in the program that comes out (`Encodes.mono`).  Names are known before the
first function is compiled, and each is the name of the function that gets its index
(`nameBlocks_eq_ok`).  The main statement is `assemble_preserves_sections`.
-/

namespace RegisterMachine

/-- The function at an index has a name. -/
def Program.NamedAt (program : Program) (name : String) (index : UInt16) : Prop :=
  ∃ function, program.function? index = some function ∧ function.name = name

namespace Assembly

/-! ## What a word says -/

/-- The field names a place where the table holds the value. -/
def Interned {α : Type} [DecidableEq α] [Hashable α] (table : ConstantTable α) (value : α)
    (field : UInt32) : Prop :=
  ∃ index : UInt16, table.get? index = some value ∧ field = index.toUInt32

/-- A field of an instruction says what a token says.  What names and labels stand for is given by
`IsFunction` and `IsLabel`. -/
def Denotes (program : Program) (IsFunction : String → UInt16 → Prop)
    (IsLabel : String → Nat → Prop) (token : String) (field : UInt32) : OperandKind → Prop
  | .reg => ∃ digits register, token = "r" ++ digits ∧ Text.uint8? digits = some register ∧
      field = register.toUInt32
  | .bool => token = "true" ∧ field = 1 ∨ token = "false" ∧ field = 0
  | .simm16 => ∃ n : Int16, Text.int16? token = some n ∧ field = n.toUInt16.toUInt32
  | .global => ∃ digits slot, (token = digits ∨ token = "g" ++ digits) ∧
      Text.uint16? digits = some slot ∧ field = slot.toUInt32
  | .const .i32 => ∃ n, Text.int32? token = some n ∧ Interned program.i32Constants n field
  | .const .i64 => ∃ n, Text.int64? token = some n ∧ Interned program.i64Constants n field
  | .const .f32 => ∃ x, Binary32.ofText? token = some x ∧ Interned program.f32Constants x field
  | .const .f64 => ∃ x, Binary64.ofText? token = some x ∧ Interned program.f64Constants x field
  | .str => ∃ s, token = "\"" ++ s ++ "\"" ∧ Interned program.strings s field
  | .func => ∃ index, IsFunction token index ∧ field = index.toUInt32
  | .label =>
    match Text.uint32? token with
    | some pc => field = pc
    | none => ∀ place, IsLabel token place ↔ place = field.toNat

/-- A word says what a line with an instruction says: its opcode has the mnemonic, and its fields
say what the operands say. -/
def Encodes (program : Program) (IsFunction : String → UInt16 → Prop)
    (IsLabel : String → Nat → Prop) (line : Token × List Token) (word : Instruction) : Prop :=
  ∃ op : Opcode, op.mnemonic = line.1.text ∧ word.opcode = .ok op ∧
    List.Forall₂ (fun operand token => Denotes program IsFunction IsLabel token.text
      ((word.fields op.layout).get operand.field) operand.kind) op.operands line.2

section Mono

variable {p q : Program} {F G : String → UInt16 → Prop} {L : String → Nat → Prop}

theorem Interned.mono {α : Type} [DecidableEq α] [Hashable α] {table table' : ConstantTable α}
    {value : α} {field : UInt32} (hext : table.Extends table') (h : Interned table value field) :
    Interned table' value field := by
  obtain ⟨index, hvalue, hfield⟩ := h
  exact ⟨index, hext index value hvalue, hfield⟩

/-- What a field says stays so while the tables grow. -/
theorem Denotes.mono (hext : p.Extends q) (hFG : ∀ name index, F name index → G name index)
    {token : String} {field : UInt32} {kind : OperandKind} (h : Denotes p F L token field kind) :
    Denotes q G L token field kind := by
  cases kind with
  | const type =>
      cases type with
      | i32 => obtain ⟨n, hn, hi⟩ := h; exact ⟨n, hn, hi.mono hext.i32Constants⟩
      | i64 => obtain ⟨n, hn, hi⟩ := h; exact ⟨n, hn, hi.mono hext.i64Constants⟩
      | f32 => obtain ⟨x, hx, hi⟩ := h; exact ⟨x, hx, hi.mono hext.f32Constants⟩
      | f64 => obtain ⟨x, hx, hi⟩ := h; exact ⟨x, hx, hi.mono hext.f64Constants⟩
  | str => obtain ⟨s, hs, hi⟩ := h; exact ⟨s, hs, hi.mono hext.strings⟩
  | func => obtain ⟨index, hf, hi⟩ := h; exact ⟨index, hFG token index hf, hi⟩
  | _ => exact h

theorem Encodes.mono (hext : p.Extends q) (hFG : ∀ name index, F name index → G name index)
    {line : Token × List Token} {word : Instruction} (h : Encodes p F L line word) :
    Encodes q G L line word := by
  obtain ⟨op, hmnemonic, hop, hoperands⟩ := h
  exact ⟨op, hmnemonic, hop, hoperands.imp fun _ _ hd => hd.mono hext hFG⟩

end Mono

/-! ## Tokens of operands -/

theorem eq_append_of_toList {token : String} {before rest : List Char}
    (h : token.toList = before ++ rest) : token = String.ofList before ++ String.ofList rest := by
  rw [← String.toList_inj, h, String.toList_append, String.toList_ofList, String.toList_ofList]

theorem register_eq_ok {token : String} {register : UInt8}
    (h : Assembly.register token = .ok register) :
    ∃ digits, token = "r" ++ digits ∧ Text.uint8? digits = some register := by
  rw [Assembly.register] at h
  split at h
  · rename_i digits htoken
    refine ⟨String.ofList digits, eq_append_of_toList htoken, ?_⟩
    cases hd : Text.uint8? (String.ofList digits) with
    | none => rw [hd] at h; cases h
    | some n => rw [hd] at h; cases h; rfl
  · cases h

theorem truthValue_eq_ok {token : String} {value : Bool} (h : truthValue token = .ok value) :
    token = "true" ∧ value = true ∨ token = "false" ∧ value = false := by
  unfold truthValue at h
  split at h
  · cases h; exact .inl ⟨rfl, rfl⟩
  · cases h; exact .inr ⟨rfl, rfl⟩
  · cases h

theorem globalSlot_eq_ok {token : String} {slot : UInt16} (h : globalSlot token = .ok slot) :
    ∃ digits, (token = digits ∨ token = "g" ++ digits) ∧ Text.uint16? digits = some slot := by
  rw [globalSlot] at h
  split at h
  · rename_i digits htoken
    exact ⟨_, .inr (eq_append_of_toList htoken), number_eq_ok h⟩
  · exact ⟨token, .inl rfl, number_eq_ok h⟩

theorem quotedText_eq_ok {token s : String} (h : quotedText token = .ok s) :
    token = "\"" ++ s ++ "\"" := by
  rw [quotedText] at h
  split at h
  · rename_i rest htoken
    split at h
    · rename_i inner hrest
      cases h
      rw [← String.toList_inj, htoken, ← List.reverse_reverse rest, hrest]
      simp
    · cases h
  · cases h

theorem jumpTarget_eq_ok {labels : Std.HashMap String Nat} {token : String} {pc : UInt32}
    (h : jumpTarget labels token = .ok pc) :
    match Text.uint32? token with
    | some n => pc = n
    | none => ∀ place, labels[token]? = some place ↔ place = pc.toNat := by
  rw [jumpTarget] at h
  cases hn : Text.uint32? token with
  | some n => rw [hn] at h; cases h; rfl
  | none =>
      cases hl : labels[token]? with
      | none => simp only [hn, hl] at h; cases h
      | some place =>
          simp only [hn, hl] at h
          split at h
          · rename_i hlt
            cases h
            intro place'
            rw [Option.some.injEq, UInt32.toNat_ofNat_of_lt' hlt, eq_comm]
          · cases h

/-! ## Reading operands -/

/-- The program has got constants, and nothing else has changed. -/
structure Grows (p q : Program) : Prop where
  sound : q.Sound
  constants : p.Extends q
  functions : q.functions = p.functions

theorem Grows.refl {p : Program} (h : p.Sound) : Grows p p := ⟨h, .refl p, rfl⟩

theorem Grows.trans {p q r : Program} (h : Grows p q) (h' : Grows q r) : Grows p r :=
  ⟨h'.sound, h.constants.trans h'.constants, h'.functions.trans h.functions⟩

theorem toExcept_eq_ok {σ α : Type} {x : Attempt σ α} {a : α} {state : σ}
    (h : Attempt.toExcept x = .ok (a, state)) : x = (.ok a, state) := by
  rcases x with ⟨_ | _, _⟩
  · cases h
  · cases h; rfl

/-- The constants of one type keep to their own table. -/
class LawfulPool (α : Type) [DecidableEq α] [Hashable α] [Program.Pooled α] : Prop where
  indexed : ∀ {p : Program}, p.Sound → (Program.Pooled.table p : ConstantTable α).Indexed
  grows : ∀ {p : Program} {table : ConstantTable α}, p.Sound → table.Indexed →
    (Program.Pooled.table p).Extends table →
    Grows p (Program.Pooled.setTable
      (Program.Pooled.setTable p (ConstantTable.empty : ConstantTable α)) table)
  table_setTable : ∀ (p : Program) (table : ConstantTable α),
    Program.Pooled.table (Program.Pooled.setTable p table) = table

instance : LawfulPool Int32 where
  indexed hp := hp.i32Constants
  grows hp hindexed hext :=
    ⟨{ hp with i32Constants := hindexed }, { Program.Extends.refl _ with i32Constants := hext }, rfl⟩
  table_setTable _ _ := rfl

instance : LawfulPool Int64 where
  indexed hp := hp.i64Constants
  grows hp hindexed hext :=
    ⟨{ hp with i64Constants := hindexed }, { Program.Extends.refl _ with i64Constants := hext }, rfl⟩
  table_setTable _ _ := rfl

instance : LawfulPool Binary32 where
  indexed hp := hp.f32Constants
  grows hp hindexed hext :=
    ⟨{ hp with f32Constants := hindexed }, { Program.Extends.refl _ with f32Constants := hext }, rfl⟩
  table_setTable _ _ := rfl

instance : LawfulPool Binary64 where
  indexed hp := hp.f64Constants
  grows hp hindexed hext :=
    ⟨{ hp with f64Constants := hindexed }, { Program.Extends.refl _ with f64Constants := hext }, rfl⟩
  table_setTable _ _ := rfl

instance : LawfulPool String where
  indexed hp := hp.strings
  grows hp hindexed hext :=
    ⟨{ hp with strings := hindexed }, { Program.Extends.refl _ with strings := hext }, rfl⟩
  table_setTable _ _ := rfl

/-- A constant that was read and added is in its table, and nothing else has changed. -/
theorem addConstant_eq_ok {α : Type} [DecidableEq α] [Hashable α] [Program.Pooled α] [LawfulPool α]
    {read : Except Error α} {p q : Program} {field : UInt32} (hp : p.Sound)
    (h : (read >>= fun value => addConstant p value) = .ok (field, q)) :
    Grows p q ∧ ∃ value, read = .ok value ∧ Interned (Program.Pooled.table q) value field := by
  obtain ⟨value, hvalue, h⟩ := bind_eq_ok.mp h
  obtain ⟨⟨index, q'⟩, hadd, heq⟩ := map_eq_ok.mp h
  cases heq
  have hadd := toExcept_eq_ok hadd
  rw [Program.addConstant] at hadd
  rcases htable : (Program.Pooled.table p : ConstantTable α).add value with ⟨result, table⟩
  rw [htable] at hadd
  cases hadd
  obtain ⟨hindexed, hext, hget⟩ := (LawfulPool.indexed hp).add_eq_ok htable
  refine ⟨LawfulPool.grows hp hindexed hext, value, hvalue, index, ?_, rfl⟩
  rw [LawfulPool.table_setTable]
  exact hget

/-- The names and labels of a scope. -/
abbrev Scope.IsFunction (scope : Scope) (name : String) (index : UInt16) : Prop :=
  scope.functions[name]? = some index

abbrev Scope.IsLabel (scope : Scope) (label : String) (place : Nat) : Prop :=
  scope.labels[label]? = some place

/-- A field that was read says what its token says. -/
theorem operand_denotes {scope : Scope} {p q : Program} {kind : OperandKind} {token : String}
    {field : UInt32} (hp : p.Sound) (h : operand scope p kind token = .ok (field, q)) :
    Grows p q ∧ Denotes q scope.IsFunction scope.IsLabel token field kind := by
  cases kind with
  | reg =>
      obtain ⟨register, hr, h⟩ := bind_eq_ok.mp h
      cases h
      obtain ⟨digits, htoken, hdigits⟩ := register_eq_ok hr
      exact ⟨.refl hp, digits, register, htoken, hdigits, rfl⟩
  | bool =>
      obtain ⟨value, hv, h⟩ := bind_eq_ok.mp h
      cases h
      refine ⟨.refl hp, ?_⟩
      obtain ⟨htoken, rfl⟩ | ⟨htoken, rfl⟩ := truthValue_eq_ok hv
      · exact .inl ⟨htoken, rfl⟩
      · exact .inr ⟨htoken, rfl⟩
  | simm16 =>
      obtain ⟨n, hn, h⟩ := bind_eq_ok.mp h
      cases h
      exact ⟨.refl hp, n, number_eq_ok hn, rfl⟩
  | global =>
      obtain ⟨slot, hs, h⟩ := bind_eq_ok.mp h
      cases h
      obtain ⟨digits, htoken, hdigits⟩ := globalSlot_eq_ok hs
      exact ⟨.refl hp, digits, slot, htoken, hdigits, rfl⟩
  | const type =>
      cases type <;>
      · obtain ⟨hgrows, n, hn, hinterned⟩ := addConstant_eq_ok hp h
        exact ⟨hgrows, n, number_eq_ok hn, hinterned⟩
  | str =>
      obtain ⟨hgrows, text, htext, hinterned⟩ := addConstant_eq_ok hp h
      exact ⟨hgrows, text, quotedText_eq_ok htext, hinterned⟩
  | func =>
      simp only [operand] at h
      cases hf : scope.functions[token]? with
      | none => rw [hf] at h; cases h
      | some index => rw [hf] at h; cases h; exact ⟨.refl hp, index, hf, rfl⟩
  | label =>
      obtain ⟨pc, hpc, h⟩ := bind_eq_ok.mp h
      cases h
      exact ⟨.refl hp, jumpTarget_eq_ok hpc⟩

/-! ## Lines -/

namespace Draft

variable {scope : Scope} {number : Nat}

/-- The fields of a line say what its operands say, also after the constants of the later ones are
added. -/
theorem operands_denote (pairs : List (Operand × Token)) :
    ∀ {draft next : Draft} {values : List UInt32}, draft.program.Sound →
      draft.operands scope number pairs = .ok (values, next) →
      Grows draft.program next.program ∧ next.builder = draft.builder ∧
      List.Forall₂ (fun pair value => Denotes next.program scope.IsFunction scope.IsLabel
        pair.2.text value pair.1.kind) pairs values := by
  induction pairs with
  | nil =>
      intro draft next values hp h
      cases h
      exact ⟨.refl hp, rfl, .nil⟩
  | cons pair rest ih =>
      intro draft next values hp h
      obtain ⟨⟨value, program⟩, hvalue, h⟩ := bind_eq_ok.mp h
      obtain ⟨⟨values', next'⟩, hrest, h⟩ := bind_eq_ok.mp h
      cases h
      obtain ⟨hgrows, hdenotes⟩ := operand_denotes hp (mapError_eq_ok hvalue)
      obtain ⟨hgrows', hbuilder, hdenotes'⟩ := ih hgrows.sound hrest
      refine ⟨hgrows.trans hgrows', hbuilder, .cons ?_ hdenotes'⟩
      exact hdenotes.mono hgrows'.constants fun _ _ hf => hf

theorem emit_eq_ok {draft next : Draft} {mnemonic : Token} {op : Opcode} {values : List UInt32}
    (h : draft.emit number mnemonic op values = .ok next) :
    ∃ word, Instruction.ofOperands op values = .ok word ∧
      next = { draft with builder := draft.builder.addInstruction word } := by
  rw [emit, FunctionBuilder.emit] at h
  cases hw : Instruction.ofOperands op values with
  | error error => simp only [hw] at h; cases h
  | ok word => simp only [hw] at h; cases h; exact ⟨word, rfl, rfl⟩

theorem mnemonic_of_ofMnemonic? {name : String} {op : Opcode}
    (h : Opcode.ofMnemonic? name = some op) : op.mnemonic = name := by
  obtain ⟨before, after, hall, -⟩ := List.lookup_eq_some_iff.mp h
  have hmem : (name, op) ∈ Opcode.byMnemonic := by
    rw [hall]
    exact List.mem_append_right _ List.mem_cons_self
  obtain ⟨found, -, hfound⟩ := List.mem_map.mp hmem
  cases hfound
  rfl

/-- Values that were read operand by operand and are found in the fields of the operands. -/
theorem forall₂_of_zip {P : Operand → Token → UInt32 → Prop} {field : Operand → UInt32}
    {operands : List Operand} :
    ∀ {tokens : List Token} {values : List UInt32}, operands.length = tokens.length →
      List.Forall₂ (fun pair value => P pair.1 pair.2 value) (operands.zip tokens) values →
      List.Forall₂ (fun operand value => field operand = value) operands values →
      List.Forall₂ (fun operand token => P operand token (field operand)) operands tokens := by
  induction operands with
  | nil =>
      intro tokens values hlength _ _
      cases List.length_eq_zero_iff.mp hlength.symm
      exact .nil
  | cons operand operands ih =>
      intro tokens values hlength hvalues hfields
      cases tokens with
      | nil => cases hlength
      | cons token tokens =>
          cases hvalues with
          | cons hvalue hvalues =>
              cases hfields with
              | cons hfield hfields =>
                  subst hfield
                  exact .cons hvalue (ih (Nat.succ.inj hlength) hvalues hfields)

/-- A line adds one word, which says what the line says. -/
theorem addLine_encodes {draft next : Draft} {source : SourceLine} (hp : draft.program.Sound)
    (h : draft.addLine scope source = .ok next) :
    Grows draft.program next.program ∧
    ∃ word, next.builder = draft.builder.addInstruction word ∧
      Encodes next.program scope.IsFunction scope.IsLabel (source.mnemonic, source.operands)
        word := by
  rw [addLine] at h
  cases hop : Opcode.ofMnemonic? source.mnemonic.text with
  | none => simp only [hop] at h; cases h
  | some op =>
      simp only [hop] at h
      obtain ⟨hlength, h⟩ := check_eq_ok.mp h
      obtain ⟨⟨values, middle⟩, hvalues, h⟩ := bind_eq_ok.mp h
      obtain ⟨word, hword, rfl⟩ := emit_eq_ok h
      obtain ⟨hgrows, hbuilder, hdenotes⟩ := operands_denote _ hp hvalues
      obtain ⟨hopcode, hfields⟩ := Instruction.fields_of_ofOperands hword
      refine ⟨hgrows, word, by rw [hbuilder], op, mnemonic_of_ofMnemonic? hop, hopcode, ?_⟩
      exact forall₂_of_zip (P := fun operand token value => Denotes middle.program
        scope.IsFunction scope.IsLabel token.text value operand.kind) (not_not.mp hlength) hdenotes
        hfields

/-- The lines of a block add one word each, in order. -/
theorem addLines_encode (lines : List SourceLine) :
    ∀ {draft next : Draft}, draft.program.Sound →
      lines.foldlM (addLine scope) draft = .ok next →
      Grows draft.program next.program ∧
      ∃ words : List Instruction,
        next.builder = { draft.builder with code := draft.builder.code ++ words } ∧
        List.Forall₂ (fun line word => Encodes next.program scope.IsFunction scope.IsLabel
          (line.mnemonic, line.operands) word) lines words := by
  induction lines with
  | nil =>
      intro draft next hp h
      cases h
      exact ⟨.refl hp, [], by simp, .nil⟩
  | cons line lines ih =>
      intro draft next hp h
      rw [List.foldlM_cons] at h
      obtain ⟨middle, hline, h⟩ := bind_eq_ok.mp h
      obtain ⟨hgrows, word, hbuilder, hword⟩ := addLine_encodes hp hline
      obtain ⟨hgrows', words, hbuilder', hwords⟩ := ih hgrows.sound h
      -- the later lines add constants, but what the word says stays so
      refine ⟨hgrows.trans hgrows', word :: words, ?_, .cons ?_ hwords⟩
      · rw [hbuilder', hbuilder]
        simp [FunctionBuilder.addInstruction]
      · exact hword.mono hgrows'.constants fun _ _ hf => hf

end Draft

/-! ## Functions -/

theorem takeRegisters_eq_ok (n : Nat) :
    ∀ {builder next : FunctionBuilder}, takeRegisters n builder = .ok next →
      ∃ registers, next = { builder with registers } := by
  induction n with
  | zero => intro builder next h; cases h; exact ⟨_, rfl⟩
  | succ n ih =>
      intro builder next h
      obtain ⟨⟨register, middle⟩, htake, h⟩ := bind_eq_ok.mp h
      have hmiddle : builder.allocateRegister.2 = middle :=
        congrArg Prod.snd (toExcept_eq_ok htake)
      obtain ⟨registers, hnext⟩ := ih h
      subst hmiddle
      exact ⟨registers, hnext⟩

/-- To reserve registers changes nothing of a function but the size of its window. -/
theorem reserveRegisters_eq_ok {n : Nat} {builder next : FunctionBuilder}
    (h : reserveRegisters n builder = .ok next) :
    ∃ registers, next = { builder with registers } := by
  obtain ⟨middle, htake, h⟩ := bind_eq_ok.mp h
  obtain ⟨⟨⟨⟩, freed⟩, hfree, h⟩ := bind_eq_ok.mp h
  cases h
  have hfreed : (middle.freeRegisters _).2 = freed := congrArg Prod.snd (toExcept_eq_ok hfree)
  obtain ⟨registers, rfl⟩ := takeRegisters_eq_ok n htake
  exact ⟨_, hfreed.symm⟩

/-- A function is what a block says: its name, its numbers of parameters and local variables, and
one word for each instruction. -/
structure CompiledAs (program : Program) (IsFunction : String → UInt16 → Prop) (block : Block)
    (function : Function) : Prop where
  name : function.name = block.name
  paramCount : function.paramCount = block.paramCount
  localCount : function.localCount = block.localCount
  code : List.Forall₂ (Encodes program IsFunction fun label place =>
    block.labels[label]? = some place) block.code function.code.toList

theorem CompiledAs.mono {p q : Program} {F G : String → UInt16 → Prop} {block : Block}
    {function : Function} (h : CompiledAs p F block function) (hext : p.Extends q)
    (hFG : ∀ name index, F name index → G name index) : CompiledAs q G block function :=
  { h with code := h.code.imp fun _ _ hword => hword.mono hext hFG }

theorem compileBlock_compiledAs {file : String} {names : Std.HashMap String UInt16}
    {p q : Program} {block : Block} {function : Function} (hp : p.Sound)
    (h : compileBlock file names p block = .ok (function, q)) :
    Grows p q ∧ CompiledAs q (fun name index => names[name]? = some index) block function := by
  obtain ⟨draft, hlines, h⟩ := bind_eq_ok.mp h
  obtain ⟨builder, hreserve, h⟩ := bind_eq_ok.mp h
  cases h
  rw [← Array.foldlM_toList] at hlines
  obtain ⟨hgrows, words, hbuilder, hwords⟩ := Draft.addLines_encode _ hp hlines
  obtain ⟨registers, rfl⟩ := reserveRegisters_eq_ok hreserve
  refine ⟨hgrows, ?_⟩
  rw [hbuilder]
  refine ⟨rfl, rfl, rfl, ?_⟩
  rw [Block.code, List.forall₂_map_left_iff]
  simpa [FunctionBuilder.finalize, FunctionBuilder.new] using hwords

/-! ## Programs -/

/-- What the functions of `q` are that `p` does not have, in order. -/
structure Appends (p q : Program) (functions : List Function) : Prop where
  sound : q.Sound
  constants : p.Extends q
  functions : q.functions.toList = p.functions.toList ++ functions

theorem addFunction_eq_ok {p q : Program} {function : Function} {index : UInt16} (hp : p.Sound)
    (h : Attempt.toExcept (p.addFunction function) = .ok (index, q)) : Appends p q [function] := by
  have hadd := toExcept_eq_ok h
  have hsound := hp.addFunction function
  rw [hadd] at hsound
  rw [Program.addFunction] at hadd
  split at hadd
  · cases hadd
  · cases hadd
    exact ⟨hsound, .of_eq rfl rfl rfl rfl rfl, Array.toList_push⟩

theorem addBlock_compiledAs {file : String} {names : Std.HashMap String UInt16} {p q : Program}
    {block : Block} (hp : p.Sound) (h : addBlock file names p block = .ok q) :
    ∃ function, Appends p q [function] ∧
      CompiledAs q (fun name index => names[name]? = some index) block function := by
  obtain ⟨⟨function, middle⟩, hcompile, h⟩ := bind_eq_ok.mp h
  obtain ⟨⟨index, program⟩, hadd, h⟩ := bind_eq_ok.mp h
  cases h
  obtain ⟨hgrows, hcompiled⟩ := compileBlock_compiledAs hp hcompile
  have happends := addFunction_eq_ok hgrows.sound hadd
  refine ⟨function, ⟨happends.sound, hgrows.constants.trans happends.constants, ?_⟩, ?_⟩
  · rw [happends.functions, hgrows.functions]
  · exact hcompiled.mono happends.constants fun _ _ hf => hf

theorem addBlocks_compiledAs {file : String} {names : Std.HashMap String UInt16}
    (blocks : List Block) :
    ∀ {p q : Program}, p.Sound → blocks.foldlM (addBlock file names) p = .ok q →
      ∃ functions, Appends p q functions ∧
        List.Forall₂ (CompiledAs q fun name index => names[name]? = some index) blocks
          functions := by
  induction blocks with
  | nil =>
      intro p q hp h
      cases h
      exact ⟨[], ⟨hp, .refl p, by simp⟩, .nil⟩
  | cons block blocks ih =>
      intro p q hp h
      rw [List.foldlM_cons] at h
      obtain ⟨middle, hblock, h⟩ := bind_eq_ok.mp h
      obtain ⟨function, happends, hcompiled⟩ := addBlock_compiledAs hp hblock
      obtain ⟨functions, happends', hcompiled'⟩ := ih happends.sound h
      refine ⟨function :: functions, ⟨happends'.sound,
        happends.constants.trans happends'.constants, ?_⟩, .cons ?_ hcompiled'⟩
      · rw [happends'.functions, happends.functions, List.append_assoc, List.singleton_append]
      · exact hcompiled.mono happends'.constants fun _ _ hf => hf

/-- The names of the blocks differ, and the places from `index` on are given to them in order. -/
theorem nameBlocks_eq_ok (blocks : List Block) :
    ∀ {names result : Std.HashMap String UInt16} {index : Nat},
      nameBlocks names index blocks = .ok result →
      (blocks.map Block.name).Nodup ∧ (∀ block ∈ blocks, names[block.name]? = none) ∧
      ∀ name place, result[name]? = some place →
        names[name]? = some place ∨
        ∃ k block, blocks[k]? = some block ∧ block.name = name ∧ place.toNat = index + k := by
  induction blocks with
  | nil =>
      intro names result index h
      cases h
      simp
  | cons block blocks ih =>
      intro names result index h
      rw [nameBlocks] at h
      split at h
      · cases h
      split at h
      · cases h
      rename_i hroom hfresh
      have hfresh := getElem?_eq_none_of_not_contains hfresh
      obtain ⟨hnodup, hnew, hresult⟩ := ih h
      -- that the later names were not there yet includes the one that was just added
      have hapart : ∀ other ∈ blocks, block.name ≠ other.name ∧ names[other.name]? = none := by
        intro other hother
        have hnone := hnew other hother
        rw [Std.HashMap.getElem?_insert] at hnone
        split at hnone
        · cases hnone
        · rename_i hne
          exact ⟨fun heq => hne (beq_iff_eq.mpr heq), hnone⟩
      refine ⟨?_, ?_, fun name place hplace => ?_⟩
      · rw [List.map_cons, List.nodup_cons]
        refine ⟨fun hmem => ?_, hnodup⟩
        obtain ⟨other, hother, heq⟩ := List.mem_map.mp hmem
        exact (hapart other hother).1 heq.symm
      · intro other hother
        rcases List.mem_cons.mp hother with rfl | hother
        · exact hfresh
        · exact (hapart other hother).2
      · rcases hresult name place hplace with hold | ⟨k, other, hother, hname, hk⟩
        · rcases (getElem?_insert_fresh hfresh name place).mp hold with hold | ⟨hname, rfl⟩
          · exact .inl hold
          · exact .inr ⟨0, block, rfl, Option.some.inj hname,
              UInt16.toNat_ofNat_of_lt' (Nat.lt_of_not_le hroom)⟩
        · exact .inr ⟨k + 1, other, hother, hname, by omega⟩

theorem getElem?_of_forall₂ {α β : Type} {R : α → β → Prop} {as : List α} {bs : List β}
    (h : List.Forall₂ R as bs) {k : Nat} {a : α} (ha : as[k]? = some a) :
    ∃ b, bs[k]? = some b ∧ R a b := by
  obtain ⟨hlt, rfl⟩ := List.getElem?_eq_some_iff.mp ha
  have hlt' : k < bs.length := h.length_eq ▸ hlt
  exact ⟨bs[k], List.getElem?_eq_getElem hlt', h.get hlt hlt'⟩

/-- A run starts in a function with a name, or in the first one. -/
theorem entryIndex_eq_ok {names : Std.HashMap String UInt16} {name? : Option EntryName}
    {entry : UInt16} (h : entryIndex names name? = .ok entry) :
    (∃ name : String, names[name]? = some entry) ∨ entry = 0 := by
  cases name? with
  | some entryName =>
      rw [entryIndex] at h
      cases hn : names[entryName.name]? with
      | none => rw [hn] at h; cases h
      | some index => rw [hn] at h; cases h; exact .inl ⟨_, hn⟩
  | none =>
      cases h
      rw [Std.HashMap.getD_eq_getD_getElem?]
      cases hn : names[implicitName]? with
      | none => exact .inr rfl
      | some index => exact .inl ⟨_, hn⟩

/-- What was assembled: the functions are those of the blocks, the names in the code are the names
of functions of the program, and the program starts in one of them. -/
theorem assemble_eq_ok {source file : String} {program : Program}
    (h : assemble source file = .ok program) :
    ∃ outline, Outline.ofSource source = .ok outline ∧
      List.Forall₂ (CompiledAs program program.NamedAt) outline.blocks.toList
        program.functions.toList ∧
      (program.functions.toList.map Function.name).Nodup ∧
      ∃ function, program.function? program.entry = some function := by
  obtain ⟨outline, houtline, h⟩ := bind_eq_ok.mp h
  obtain ⟨names, hnames, h⟩ := bind_eq_ok.mp h
  obtain ⟨linked, hblocks, h⟩ := bind_eq_ok.mp h
  obtain ⟨entry, hentry, h⟩ := bind_eq_ok.mp h
  cases h
  rw [← Array.foldlM_toList] at hblocks
  have hempty : ({ Program.empty with globalCount := outline.globalCount } : Program).Sound :=
    { Program.Sound.empty with }
  obtain ⟨functions, happends, hcompiled⟩ := addBlocks_compiledAs _ hempty hblocks
  obtain ⟨hnodup, -, hplaces⟩ := nameBlocks_eq_ok _ hnames
  have hfunctions : linked.functions.toList = functions := happends.functions
  subst hfunctions
  -- the words were written with the names of the first pass; these are names of functions now
  have hnamed : ∀ name index, names[name]? = some index →
      Program.NamedAt { linked with entry } name index := by
    intro name index hindex
    rcases hplaces name index hindex with hnone | ⟨k, block, hblock, hname, hk⟩
    · rw [Std.HashMap.getElem?_empty] at hnone
      cases hnone
    · obtain ⟨function, hfunction, hc⟩ := getElem?_of_forall₂ hcompiled hblock
      refine ⟨function, ?_, hc.name.trans hname⟩
      rw [Program.function?, hk, Nat.zero_add, ← hfunction, Array.getElem?_toList]
  refine ⟨outline, houtline, ?_, ?_, ?_⟩
  · exact hcompiled.imp fun _ _ hc => hc.mono (.of_eq rfl rfl rfl rfl rfl) hnamed
  · have hsame : outline.blocks.toList.map Block.name
        = linked.functions.toList.map Function.name := by
      rw [← List.forall₂_eq_eq_eq, List.forall₂_map_left_iff, List.forall₂_map_right_iff]
      exact hcompiled.imp fun _ _ hc => hc.name.symm
    rwa [hsame] at hnodup
  · rcases entryIndex_eq_ok hentry with ⟨name, hname⟩ | rfl
    · obtain ⟨function, hfunction, -⟩ := hnamed name entry hname
      exact ⟨function, hfunction⟩
    · obtain ⟨block, hblock⟩ : ∃ block, outline.blocks.toList[0]? = some block := by
        have hpos : 0 < outline.blocks.toList.length := by simp [Outline.blocks]
        exact ⟨_, List.getElem?_eq_getElem hpos⟩
      obtain ⟨function, hfunction, -⟩ := getElem?_of_forall₂ hcompiled hblock
      exact ⟨function, by rw [← hfunction, Array.getElem?_toList]; rfl⟩

/-- A function is what a section says. -/
structure Section.CompilesTo (program : Program) (s : Section) (function : Function) : Prop where
  name : s.name? = some function.name
  paramCount : s.paramCount? = some function.paramCount
  localCount : s.localCount? = some function.localCount
  code : List.Forall₂ (Encodes program program.NamedAt s.LabelAt) s.instructions
    function.code.toList

theorem CompiledAs.compilesTo {program : Program} {s : Section} {block : Block}
    {function : Function} (h : CompiledAs program program.NamedAt block function)
    (hs : Represents s block) : s.CompilesTo program function where
  name := by rw [h.name]; exact hs.name
  paramCount := by rw [h.paramCount]; exact hs.paramCount
  localCount := by rw [h.localCount]; exact hs.localCount
  code := by
    have hlabels : (fun label place => block.labels[label]? = some place) = s.LabelAt := by
      funext label place
      exact propext (hs.labels label place)
    rw [← hs.code, ← hlabels]
    exact h.code

/-! ## A program with a loop -/

/-- Calls a function again and again. -/
def loopSource : String :=
  "again: LOAD_FUNCTION r0, twice\nLOAD_CONST_I32 r1, 70000\nCALL r0, r0, r1\nJUMP again\n" ++
  ".func twice 1\nADD_I32 r0, r0, r0\nRET r0"

def loopMain : Block where
  name := "main"
  paramCount := 0
  localCount := 0
  line := 1
  labels := (∅ : Std.HashMap String Nat).insert "again" 0
  lines := #[
    ⟨1, ⟨"LOAD_FUNCTION", 8⟩, [⟨"r0", 22⟩, ⟨"twice", 26⟩]⟩,
    ⟨2, ⟨"LOAD_CONST_I32", 1⟩, [⟨"r1", 16⟩, ⟨"70000", 20⟩]⟩,
    ⟨3, ⟨"CALL", 1⟩, [⟨"r0", 6⟩, ⟨"r0", 10⟩, ⟨"r1", 14⟩]⟩,
    ⟨4, ⟨"JUMP", 1⟩, [⟨"again", 6⟩]⟩]

def loopTwice : Block where
  name := "twice"
  paramCount := 1
  localCount := 0
  line := 5
  labels := ∅
  lines := #[
    ⟨6, ⟨"ADD_I32", 1⟩, [⟨"r0", 9⟩, ⟨"r0", 13⟩, ⟨"r0", 17⟩]⟩,
    ⟨7, ⟨"RET", 1⟩, [⟨"r0", 5⟩]⟩]

/-- What `loopSource` is assembled to. -/
def loopProgram : Program where
  functions := #[
    ⟨"main", ⟨"loop", 1⟩, 0, 0, 2, #[⟨0x08000001⟩, ⟨0x04010000⟩, ⟨0x93000001⟩, ⟨0x90000000⟩]⟩,
    ⟨"twice", ⟨"loop", 5⟩, 1, 0, 1, #[⟨0x20000000⟩, ⟨0x94000000⟩]⟩]
  i32Constants := ⟨#[70000], (∅ : Std.ExtHashMap Int32 UInt16).insert 70000 0⟩
  i64Constants := .empty
  f32Constants := .empty
  f64Constants := .empty
  strings := .empty
  globalCount := 0
  entry := 0

section Loop

theorem outline_loop :
    Outline.ofSource loopSource = .ok ⟨#[loopMain], loopTwice, false, 0, none⟩ := by
  have hlabel : Outline.start.current.defineLabel "again"
      = .ok { Outline.start.current with labels := loopMain.labels } := by
    rw [Block.defineLabel, Outline.start, Block.new, Std.HashMap.contains_empty]
    rfl
  have hfirst : Outline.start.addLine 1 "again: LOAD_FUNCTION r0, twice".toList
      = .ok { Outline.start with
        current := { loopMain with lines := loopMain.lines.take 1 } } := by
    refine bind_eq_ok.mpr
      ⟨[⟨"again:", 1⟩, ⟨"LOAD_FUNCTION", 8⟩, ⟨"r0", 22⟩, ⟨"twice", 26⟩], rfl, ?_⟩
    exact bind_eq_ok.mpr ⟨_, congrArg (atToken 1 ⟨"again:", 1⟩) hlabel, rfl⟩
  have hrest : List.foldlM (fun outline text => outline.addLine text.2 text.1)
      { Outline.start with current := { loopMain with lines := loopMain.lines.take 1 } }
      [("LOAD_CONST_I32 r1, 70000".toList, 2), ("CALL r0, r0, r1".toList, 3),
        ("JUMP again".toList, 4), (".func twice 1".toList, 5), ("ADD_I32 r0, r0, r0".toList, 6),
        ("RET r0".toList, 7)]
      = Except.ok (ε := Error) ⟨#[loopMain], loopTwice, false, 0, none⟩ := rfl
  have hlines : Text.lines loopSource = ["again: LOAD_FUNCTION r0, twice".toList,
      "LOAD_CONST_I32 r1, 70000".toList, "CALL r0, r0, r1".toList, "JUMP again".toList,
      ".func twice 1".toList, "ADD_I32 r0, r0, r0".toList, "RET r0".toList] := by
    decide +kernel
  rw [Outline.ofSource, hlines]
  exact bind_eq_ok.mpr ⟨_, hfirst, hrest⟩

theorem nameBlocks_loop : nameBlocks ∅ 0 [loopMain, loopTwice]
    = .ok (((∅ : Std.HashMap String UInt16).insert "main" 0).insert "twice" 1) := by
  simp [nameBlocks, maxTableLength, loopMain, loopTwice]

theorem add_empty {α : Type} [DecidableEq α] [Hashable α] [Constant α] (value : α) :
    (ConstantTable.empty : ConstantTable α).add value
      = (.ok 0, ⟨#[value], (∅ : Std.ExtHashMap α UInt16).insert value 0⟩) := by
  rw [ConstantTable.add, ConstantTable.empty, Std.ExtHashMap.getElem?_empty]
  rfl

theorem Draft.operands_cons_of_ok {scope : Scope} {line : Nat} {p q : Program}
    {b : FunctionBuilder} {r : Nat} {spec : Operand} {token : Token}
    {rest : List (Operand × Token)} {value : UInt32} {values : List UInt32} {draft : Draft}
    (h : operand scope p spec.kind token.text = .ok (value, q))
    (hrest : Draft.operands scope line
      ⟨q, b, if spec.kind = .reg then max r (value.toNat + 1) else r⟩ rest = .ok (values, draft)) :
    Draft.operands scope line ⟨p, b, r⟩ ((spec, token) :: rest) = .ok (value :: values, draft) := by
  rw [Draft.operands, h]
  refine bind_eq_ok.mpr ⟨(value, q), rfl, ?_⟩
  exact bind_eq_ok.mpr ⟨(values, draft), hrest, rfl⟩

theorem Draft.addLine_of_ok {scope : Scope} {draft : Draft} {q : Program} {b : FunctionBuilder}
    {r number : Nat} {mnemonic : Token} {tokens : List Token} {op : Opcode} {values : List UInt32}
    {word : Instruction} (hop : Opcode.ofMnemonic? mnemonic.text = some op)
    (hlength : op.operands.length = tokens.length)
    (hvalues : draft.operands scope number (op.operands.zip tokens) = .ok (values, ⟨q, b, r⟩))
    (hword : Instruction.ofOperands op values = .ok word) :
    draft.addLine scope ⟨number, mnemonic, tokens⟩ = .ok ⟨q, b.addInstruction word, r⟩ := by
  rw [Draft.addLine]
  simp only [hop]
  refine check_eq_ok.mpr ⟨not_not.mpr hlength, ?_⟩
  refine bind_eq_ok.mpr ⟨_, hvalues, ?_⟩
  rw [Draft.emit, FunctionBuilder.emit, hword]

variable (names : Std.HashMap String UInt16)

-- A look-up in a map with texts as keys does not evaluate, so the three operands that need one are
-- read by rewriting and all else by evaluation.
theorem compileBlock_loopMain (h : names["twice"]? = some 1) :
    compileBlock "loop" names Program.empty loopMain
      = .ok (⟨"main", ⟨"loop", 1⟩, 0, 0, 2,
          #[⟨0x08000001⟩, ⟨0x04010000⟩, ⟨0x93000001⟩, ⟨0x90000000⟩]⟩,
        { loopProgram with functions := #[] }) := by
  have hfunc : operand ⟨names, loopMain.labels⟩ Program.empty .func "twice"
      = .ok (1, Program.empty) := by
    rw [operand, h]
    rfl
  have hconst : operand ⟨names, loopMain.labels⟩ Program.empty (.const .i32) "70000"
      = .ok (0, { loopProgram with functions := #[] }) := by
    have hadd : Program.empty.addConstant (70000 : Int32)
        = (.ok 0, { loopProgram with functions := #[] }) := by
      have htable : Program.Pooled.table Program.empty
        = (ConstantTable.empty : ConstantTable Int32) := rfl
      rw [Program.addConstant, htable, add_empty]
      rfl
    refine bind_eq_ok.mpr ⟨70000, rfl, ?_⟩
    rw [addConstant, hadd]
    rfl
  have hlabel : operand ⟨names, loopMain.labels⟩ { loopProgram with functions := #[] } .label
      "again" = .ok (0, { loopProgram with functions := #[] }) := by
    have hplace : loopMain.labels["again"]? = some 0 := Std.HashMap.getElem?_insert_self
    have hnumber : Text.uint32? "again" = none := by decide +kernel
    refine bind_eq_ok.mpr ⟨0, ?_, rfl⟩
    simp only [jumpTarget, hnumber, hplace]
    rfl
  refine bind_eq_ok.mpr ⟨⟨{ loopProgram with functions := #[] },
    { FunctionBuilder.new "main" ⟨"loop", 1⟩ with
      code := #[⟨0x08000001⟩, ⟨0x04010000⟩, ⟨0x93000001⟩, ⟨0x90000000⟩] }, 2⟩, ?_, ?_⟩
  · rw [← Array.foldlM_toList]
    refine bind_eq_ok.mpr ⟨_, Draft.addLine_of_ok rfl rfl
      (Draft.operands_cons_of_ok rfl (Draft.operands_cons_of_ok hfunc rfl)) rfl, ?_⟩
    refine bind_eq_ok.mpr ⟨_, Draft.addLine_of_ok rfl rfl
      (Draft.operands_cons_of_ok rfl (Draft.operands_cons_of_ok hconst rfl)) rfl, ?_⟩
    refine bind_eq_ok.mpr ⟨_, rfl, ?_⟩
    exact bind_eq_ok.mpr ⟨_, Draft.addLine_of_ok rfl rfl
      (Draft.operands_cons_of_ok hlabel rfl) rfl, rfl⟩
  · exact bind_eq_ok.mpr ⟨_, rfl, rfl⟩

theorem compileBlock_loopTwice (p : Program) :
    compileBlock "loop" names p loopTwice
      = .ok (⟨"twice", ⟨"loop", 5⟩, 1, 0, 1, #[⟨0x20000000⟩, ⟨0x94000000⟩]⟩, p) := by
  refine bind_eq_ok.mpr ⟨⟨p, { FunctionBuilder.new "twice" ⟨"loop", 5⟩ with
      paramCount := 1
      code := #[⟨0x20000000⟩, ⟨0x94000000⟩] }, 1⟩, ?_, ?_⟩
  · rw [← Array.foldlM_toList]
    refine bind_eq_ok.mpr ⟨_, rfl, ?_⟩
    exact bind_eq_ok.mpr ⟨_, rfl, rfl⟩
  · exact bind_eq_ok.mpr ⟨_, rfl, rfl⟩

end Loop

theorem assemble_loop : assemble loopSource "loop" = .ok loopProgram := by
  have hmain := compileBlock_loopMain
    (((∅ : Std.HashMap String UInt16).insert "main" 0).insert "twice" 1)
    Std.HashMap.getElem?_insert_self
  refine bind_eq_ok.mpr ⟨_, outline_loop, ?_⟩
  refine bind_eq_ok.mpr ⟨_, nameBlocks_loop, ?_⟩
  refine bind_eq_ok.mpr ⟨loopProgram, ?_, ?_⟩
  · rw [← Array.foldlM_toList]
    refine bind_eq_ok.mpr ⟨_, bind_eq_ok.mpr ⟨_, hmain, rfl⟩, ?_⟩
    exact bind_eq_ok.mpr ⟨_, bind_eq_ok.mpr ⟨_, compileBlock_loopTwice _ _, rfl⟩, rfl⟩
  · refine bind_eq_ok.mpr ⟨0, ?_, rfl⟩
    simp [entryIndex, implicitName, Std.HashMap.getD_insert]

/-! ## The whole text -/

/-- **The assembler keeps what the source says.**  The functions of a program are those of the
sections of its source, in order and under different names.  Each has the name and the numbers of
its section and one word for each instruction, and the word says what the instruction says, with
the constants and functions of the program as a whole. -/
theorem assemble_preserves_sections {source file : String} {program : Program}
    (h : assemble source file = .ok program) :
    ∃ lines, tokenLines? source = some lines ∧
      List.Forall₂ (Section.CompilesTo program) (sections lines) program.functions.toList ∧
      (program.functions.toList.map Function.name).Nodup := by
  obtain ⟨outline, houtline, hcompiled, hnodup, -⟩ := assemble_eq_ok h
  obtain ⟨lines, hlines, hrepresent⟩ := Outline.blocks_represent houtline
  refine ⟨lines, hlines, ?_, hnodup⟩
  exact forall₂_comp (fun _ _ _ hs hc => hc.compilesTo hs) hrepresent hcompiled

theorem assemble_preserves_sections_loop :
    assemble loopSource "loop" = .ok loopProgram ∧
    ∃ lines, tokenLines? loopSource = some lines ∧
      List.Forall₂ (Section.CompilesTo loopProgram) (sections lines)
        loopProgram.functions.toList ∧
      (loopProgram.functions.toList.map Function.name).Nodup :=
  ⟨assemble_loop, assemble_preserves_sections assemble_loop⟩

end Assembly

end RegisterMachine
