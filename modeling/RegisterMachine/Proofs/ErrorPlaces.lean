import Mathlib
import RegisterMachine.Proofs.Disassembly
import RegisterMachine.Proofs.Faults
import RegisterMachine.Proofs.Provenance

/-!
# Failures of the assembler point into the source

A source text that cannot be assembled is refused with a place: a line of the text and a column of
that line.

| what fails                                     | the column                                  |
|------------------------------------------------|---------------------------------------------|
| a quote is not closed                          | the start of the token with the quote       |
| a directive                                    | its own start, or that of an argument       |
| a label is defined twice                       | the start of the second definition          |
| mnemonic, number of operands, encoding         | the start of the mnemonic                   |
| an operand, or no room for its constant        | the start of the operand                    |
| the name of the entry                          | the start of the name                       |
| a function has a name that is taken, or there  | the first column, in the line of the        |
| are too many functions                         | directive that begins the function          |

That the other ways to fail are never taken needs a reason each: a token names no register that the
window could not hold (`compileBlock_blames`), and a function that has got a name has room in the
program (`addBlocks_blames`).

The main statement is `assembly_errors_point_into_source`.
-/

namespace RegisterMachine

/-! ## Failures that concern a token -/

/-- Failures that say nothing of their place; they get that of the token which they concern. -/
def Error.concernsToken : Error → Bool
  | .encoding .. | .unknownMnemonic _ | .expectedRegister _ | .invalidOperand ..
  | .duplicateLabel _ | .undefinedLabel _ | .undefinedFunction _ => true
  | .operandCount instruction .. => (Opcode.ofMnemonic? instruction).isSome
  | _ => false

namespace Assembly

/-- Messages with which a function is refused. -/
def RefusesFunction (message : String) : Prop :=
  message = "too many functions" ∨ ∃ name, message = (Error.duplicateFunction name).message

/-- Messages that begin like one with which a function is refused. -/
def BeginsLikeRefusal (message : String) : Prop :=
  "too many f".toList <+: message.toList ∨ "duplicate f".toList <+: message.toList

theorem RefusesFunction.beginning {message : String} (h : RefusesFunction message) :
    BeginsLikeRefusal message := by
  rcases h with rfl | ⟨name, rfl⟩
  · exact .inl ⟨"unctions".toList, by simp⟩
  · have hmessage : (Error.duplicateFunction name).message
        = "duplicate f" ++ ("unction: " ++ name) := by
      rw [← String.append_assoc]
      rfl
    rw [BeginsLikeRefusal, hmessage, String.toList_append]
    exact .inr (List.prefix_append _ _)

/-- Mnemonics begin with capital letters. -/
theorem exists_upper_of_mnemonic (op : Opcode) :
    ∃ c rest, op.mnemonic.toList = c :: rest ∧ c.isUpper = true := by
  have hall : Opcode.all.all (fun op => op.mnemonic.toList.head?.any Char.isUpper) = true := by
    decide +kernel
  have hop := List.all_eq_true.mp hall op op.mem_all
  cases hchars : op.mnemonic.toList with
  | nil => rw [hchars] at hop; cases hop
  | cons c rest => rw [hchars] at hop; exact ⟨c, rest, rfl, hop⟩

theorem not_refusesFunction_of_concernsToken {error : Error} (h : error.concernsToken = true) :
    ¬ RefusesFunction error.message := by
  suffices hbegins : ¬ BeginsLikeRefusal error.message from fun hr => hbegins hr.beginning
  cases error with
  | operandCount instruction expected actual =>
      obtain ⟨op, hop⟩ := Option.isSome_iff_exists.mp h
      obtain ⟨c, rest, hchars, hupper⟩ := exists_upper_of_mnemonic op
      rw [Draft.mnemonic_of_ofMnemonic? hop] at hchars
      have ht : 't' ≠ c := by rintro rfl; cases hupper
      have hd : 'd' ≠ c := by rintro rfl; cases hupper
      show ¬ BeginsLikeRefusal
        (instruction ++ " takes " ++ toString expected ++ " operands, got " ++ toString actual)
      simp [BeginsLikeRefusal, hchars, ht, hd]
  | encoding mnemonic reason =>
      show ¬ BeginsLikeRefusal ("cannot encode " ++ mnemonic ++ ": " ++ reason)
      simp [BeginsLikeRefusal]
  | unknownMnemonic name =>
      show ¬ BeginsLikeRefusal ("invalid instruction name: " ++ name)
      simp [BeginsLikeRefusal]
  | expectedRegister token =>
      show ¬ BeginsLikeRefusal ("expected register, got " ++ token)
      simp [BeginsLikeRefusal]
  | invalidOperand expected token =>
      show ¬ BeginsLikeRefusal ("invalid " ++ expected ++ " operand: " ++ token)
      simp [BeginsLikeRefusal]
  | duplicateLabel name =>
      show ¬ BeginsLikeRefusal ("duplicate label: " ++ name)
      simp [BeginsLikeRefusal]
  | undefinedLabel name =>
      show ¬ BeginsLikeRefusal ("undefined label: " ++ name)
      simp [BeginsLikeRefusal]
  | undefinedFunction name =>
      show ¬ BeginsLikeRefusal ("undefined function: " ++ name)
      simp [BeginsLikeRefusal]
  | _ => cases h

end Assembly

/-- The failure is reported at this place, and it does not refuse a function. -/
def Error.Blames (error : Error) (line offset : Nat) : Prop :=
  ∃ message, (error = .assembly line offset message ∨ error = .parse line offset message) ∧
    ¬ Assembly.RefusesFunction message

namespace Assembly

theorem located_blames {error : Error} (h : error.concernsToken = true) (line : Nat)
    (token : Token) : (located line token error).Blames line token.offset := by
  refine ⟨error.message, .inl ?_, not_refusesFunction_of_concernsToken h⟩
  cases error with
  | assembly | parse => cases h
  | _ => rfl

theorem atToken_blames {α : Type} {x : Except Error α} {line : Nat} {token : Token}
    {error : Error} (hx : FailsWith Error.concernsToken x)
    (h : atToken line token x = .error error) : error.Blames line token.offset := by
  cases x with
  | ok a => cases h
  | error cause =>
      cases h
      exact located_blames (hx cause rfl) line token

/-- A failure that the assembler reports for the shape of a line. -/
theorem parse_blames {line offset : Nat} {message : String}
    (h : ¬ BeginsLikeRefusal message) : (Error.parse line offset message).Blames line offset :=
  ⟨message, .inr rfl, fun hr => h hr.beginning⟩

theorem number_failsWith {α : Type} (read : String → Option α) (expected token : String) :
    FailsWith Error.concernsToken (number read expected token) := by
  rw [number]
  split
  · exact .ok _
  · exact .error rfl

/-! ## The first pass -/

namespace Outline

variable {outline : Outline} {number : Nat} {error : Error}

theorem argument_blames {directive : Token} {arguments : List Token}
    (h : argument number directive arguments = .error error) :
    error.Blames number directive.offset := by
  cases arguments with
  | nil => cases h; exact parse_blames (by simp [BeginsLikeRefusal])
  | cons token rest => cases h

/-- A directive that takes a number fails at its own start or at that of the number. -/
theorem countArgument_blames {α : Type} {directive : Token} {arguments : List Token}
    {read : String → Option α} {expected : String} {next : α → Outline}
    (h : (argument number directive arguments >>= fun token =>
      atToken number token (Assembly.number read expected token.text) >>= fun a =>
        pure (next a)) = .error error) :
    ∃ token ∈ directive :: arguments, error.Blames number token.offset := by
  obtain hmissing | ⟨token, harg, hnumber⟩ := bind_eq_error.mp h
  · exact ⟨directive, List.mem_cons_self, argument_blames hmissing⟩
  · obtain ⟨rest, rfl⟩ := argument_eq_ok harg
    obtain hnumber | ⟨a, -, hnext⟩ := bind_eq_error.mp hnumber
    · exact ⟨token, List.mem_cons_of_mem _ List.mem_cons_self,
        atToken_blames (number_failsWith _ _ _) hnumber⟩
    · cases hnext

theorem applyDirective_blames {directive : Token} {arguments : List Token}
    (h : outline.applyDirective number directive arguments = .error error) :
    ∃ token ∈ directive :: arguments, error.Blames number token.offset := by
  rw [applyDirective] at h
  split at h
  · exact countArgument_blames h
  · exact countArgument_blames h
  · obtain h | ⟨token, -, h⟩ := bind_eq_error.mp h
    · exact ⟨directive, List.mem_cons_self, argument_blames h⟩
    · cases h
  · obtain hmissing | ⟨name, harg, hcount⟩ := bind_eq_error.mp h
    · exact ⟨directive, List.mem_cons_self, argument_blames hmissing⟩
    · obtain ⟨rest, rfl⟩ := argument_eq_ok harg
      cases rest with
      | nil => cases hcount
      | cons count rest =>
          obtain hcount | ⟨_, -, hnext⟩ := bind_eq_error.mp hcount
          · exact ⟨count, by simp, atToken_blames (number_failsWith _ _ _) hcount⟩
          · cases hnext
  · cases h
    exact ⟨directive, List.mem_cons_self, parse_blames (by simp [BeginsLikeRefusal])⟩

theorem addDirective_blames {directive : Token} {arguments : List Token}
    (h : outline.addDirective number directive arguments = .error error) :
    ∃ token ∈ directive :: arguments, error.Blames number token.offset := by
  obtain h | ⟨next, -, h⟩ := bind_eq_error.mp h
  · exact applyDirective_blames h
  · cases hlast : arguments.getLast? with
    | none => rw [hlast] at h; cases h
    | some last =>
        rw [hlast] at h
        simp only at h
        split at h
        · cases h
          exact ⟨last, List.mem_cons_of_mem _ (List.mem_of_getLast? hlast),
            parse_blames (by simp [BeginsLikeRefusal])⟩
        · cases h

theorem defineLabel_failsWith (block : Block) (label : String) :
    FailsWith Error.concernsToken (block.defineLabel label) := by
  rw [Block.defineLabel]
  split
  · exact .error rfl
  · exact .ok _

/-- A line fails at the start of one of its tokens. -/
theorem addTokens_blames {tokens : List Token}
    (h : outline.addTokens number tokens = .error error) :
    ∃ token ∈ tokens, error.Blames number token.offset := by
  cases tokens with
  | nil => cases h
  | cons first rest =>
      rw [addTokens] at h
      split at h
      · exact addDirective_blames h
      · split at h
        · obtain h | ⟨current, -, h⟩ := bind_eq_error.mp h
          · exact ⟨first, List.mem_cons_self, atToken_blames (defineLabel_failsWith _ _) h⟩
          · cases h
        · cases h

end Outline

namespace Outline

variable {outline : Outline} {texts : List (List Char)} {cs : List Char} {error : Error}

/-- A text that cannot be read has a first line that fails. -/
theorem read_eq_error (h : read texts = .error error) :
    ∃ before cs after outline, texts = before ++ cs :: after ∧ read before = .ok outline ∧
      outline.addLine (before.length + 1) cs = .error error := by
  induction texts using List.reverseRecOn with
  | nil => cases h
  | append_singleton texts cs ih =>
      rw [read_concat] at h
      obtain h | ⟨outline, hread, hline⟩ := bind_eq_error.mp h
      · obtain ⟨before, failing, after, outline, rfl, hrest⟩ := ih h
        exact ⟨before, failing, after ++ [cs], outline, by simp, hrest⟩
      · exact ⟨texts, cs, [], outline, rfl, hread, hline⟩

/-- A line that cannot be read fails at the start of one of its tokens. -/
theorem addLine_blames {more : List (List Char)}
    (h : outline.addLine (texts.length + 1) cs = .error error) :
    ∃ offset, Marks (texts ++ cs :: more) (texts.length + 1) offset ∧
      error.Blames (texts.length + 1) offset := by
  obtain h | ⟨tokens, htokens, h⟩ := bind_eq_error.mp h
  · obtain ⟨offset, hat, rfl⟩ := tokenAt_of_error h
    refine ⟨offset, ⟨texts.length, cs, rfl, getElem?_length_append texts cs more, hat, ?_⟩,
      parse_blames (by simp [BeginsLikeRefusal])⟩
    intro tokens htokens
    rw [h] at htokens
    cases htokens
  · obtain ⟨token, htoken, hblames⟩ := addTokens_blames h
    exact ⟨token.offset, marks_of_tokenize htokens htoken, hblames⟩

end Outline

/-! ## Functions that are refused -/

/-- With this line begins the first function that a text has too many: a program cannot hold more
than the functions before it, or one of them has its name. -/
def Offends (lines : List (List Token)) (line : Nat) (message : String) : Prop :=
  ∃ tokens name rest, lines[line - 1]? = some tokens ∧
    arguments? ".func" tokens = some (name :: rest) ∧
    ((sectionsBefore lines line).map Section.name?).Nodup ∧
    ((sectionsBefore lines line).length = maxTableLength ∧ message = "too many functions" ∨
      (sectionsBefore lines line).length < maxTableLength ∧
      some name.text ∈ (sectionsBefore lines line).map Section.name? ∧
      message = (Error.duplicateFunction name.text).message)

theorem length_le_of_nameBlocks (blocks : List Block) :
    ∀ {names result : Std.HashMap String UInt16} {index : Nat}, index ≤ maxTableLength →
      nameBlocks names index blocks = .ok result → index + blocks.length ≤ maxTableLength := by
  induction blocks with
  | nil => intro names result index hindex _; exact hindex
  | cons block blocks ih =>
      intro names result index _ h
      rw [nameBlocks] at h
      split at h
      · cases h
      split at h
      · cases h
      rename_i hroom _
      have hrest := ih (Nat.lt_of_not_le hroom) h
      rw [List.length_cons]
      omega

/-- A block is refused when those before it have got names. -/
theorem nameBlocks_eq_error {error : Error} (blocks : List Block) :
    ∀ {names : Std.HashMap String UInt16} {index : Nat},
      nameBlocks names index blocks = .error error →
      ∃ before block after taken message, blocks = before ++ block :: after ∧
        nameBlocks names index before = .ok taken ∧ error = .assembly block.line 1 message ∧
        (maxTableLength ≤ index + before.length ∧ message = "too many functions" ∨
          index + before.length < maxTableLength ∧ taken.contains block.name = true ∧
          message = (Error.duplicateFunction block.name).message) := by
  induction blocks with
  | nil => intro names index h; cases h
  | cons block blocks ih =>
      intro names index h
      rw [nameBlocks] at h
      split at h
      · rename_i hfull
        cases h
        exact ⟨[], block, blocks, names, _, rfl, rfl, rfl, .inl ⟨hfull, rfl⟩⟩
      split at h
      · rename_i hroom htaken
        cases h
        exact ⟨[], block, blocks, names, _, rfl, rfl, rfl,
          .inr ⟨Nat.lt_of_not_le hroom, htaken, rfl⟩⟩
      · rename_i hroom hfresh
        obtain ⟨before, refused, after, taken, message, rfl, hbefore, herror, hrefused⟩ := ih h
        refine ⟨block :: before, refused, after, taken, message, rfl, ?_, herror, ?_⟩
        · rw [nameBlocks, if_neg hroom, if_neg hfresh]
          exact hbefore
        · rw [List.length_cons, ← Nat.add_assoc, Nat.add_right_comm]
          exact hrefused

/-- A name that is taken is that of a block. -/
theorem mem_of_nameBlocks {blocks : List Block} {taken : Std.HashMap String UInt16} {index : Nat}
    (h : nameBlocks ∅ index blocks = .ok taken) {name : String}
    (hname : taken.contains name = true) : name ∈ blocks.map Block.name := by
  rw [Std.HashMap.contains_eq_isSome_getElem?] at hname
  obtain ⟨place, hplace⟩ := Option.isSome_iff_exists.mp hname
  obtain ⟨-, -, hnames⟩ := nameBlocks_eq_ok blocks h
  rcases hnames name place hplace with hnone | ⟨k, other, hother, hname, -⟩
  · rw [Std.HashMap.getElem?_empty] at hnone
    cases hnone
  · exact List.mem_map.mpr ⟨other, List.mem_of_getElem? hother, hname⟩

/-- The line of a block that is refused, from what is wrong with the block. -/
theorem Outline.Begins.offends {source : String} {lines : List (List Token)} {before : List Block}
    {block : Block} {message : String} (hlines : tokenLines? source = some lines)
    (h : Begins (Text.lines source) (before.map fun block => (block.name, block.line))
      (block.name, block.line))
    (hnodup : (before.map Block.name).Nodup)
    (hrefused : before.length = maxTableLength ∧ message = "too many functions" ∨
      before.length < maxTableLength ∧ block.name ∈ before.map Block.name ∧
      message = (Error.duplicateFunction block.name).message) :
    ∃ k cs, block.line = k + 1 ∧ (Text.lines source)[k]? = some cs ∧ 1 ≤ Text.byteLength cs ∧
      Offends lines (k + 1) message := by
  obtain ⟨⟨k, cs, tokens, name, rest, hhead, hcs, hpos, htokens, hfunc⟩, hbefore⟩ :=
    h.sectionsBefore hlines
  obtain ⟨hname, hline⟩ := Prod.mk.inj hhead
  have hsections : (Assembly.sectionsBefore lines (k + 1)).map Section.name?
      = (before.map Block.name).map some := by
    rw [← hline, hbefore, List.map_map, List.map_map]
    rfl
  have hcount : (Assembly.sectionsBefore lines (k + 1)).length = before.length := by
    simpa using congrArg List.length hsections
  refine ⟨k, cs, hline, hcs, hpos, tokens, name, rest, htokens, hfunc, ?_, ?_⟩
  · rw [hsections]
    exact hnodup.map (Option.some_injective _)
  · rw [hcount, hsections, ← hname]
    exact hrefused.imp_right fun ⟨hroom, htaken, hmessage⟩ =>
      ⟨hroom, List.mem_map_of_mem htaken, hmessage⟩

/-- A function that is refused is so in the line that begins it. -/
theorem nameBlocks_offends {source : String} {outline : Outline} {error : Error}
    (hread : Outline.ofSource source = .ok outline)
    (h : nameBlocks ∅ 0 outline.blocks.toList = .error error) :
    ∃ lines k cs message, tokenLines? source = some lines ∧
      (Text.lines source)[k]? = some cs ∧ 1 ≤ Text.byteLength cs ∧
      error = .assembly (k + 1) 1 message ∧ RefusesFunction message ∧
      Offends lines (k + 1) message := by
  obtain ⟨lines, hlines, -⟩ := Outline.blocks_represent hread
  obtain ⟨before, block, after, taken, message, hblocks, htaken, rfl, hrefused⟩ :=
    nameBlocks_eq_error _ h
  have hlength := length_le_of_nameBlocks before (Nat.zero_le _) htaken
  obtain ⟨hnodup, -, -⟩ := nameBlocks_eq_ok before htaken
  rw [Nat.zero_add] at hlength hrefused
  have hrefused := hrefused.imp
    (fun ⟨hfull, hmessage⟩ => And.intro (hlength.antisymm hfull) hmessage)
    (fun ⟨hroom, hname, hmessage⟩ =>
      And.intro hroom (And.intro (mem_of_nameBlocks htaken hname) hmessage))
  -- a block is refused for the sake of others, so that it is not the first one
  have hne : before ≠ [] := by
    rintro rfl
    rcases hrefused with ⟨hfull, -⟩ | ⟨-, hname, -⟩
    · cases hfull
    · cases hname
  have hheads : outline.heads = before.map (fun block => (block.name, block.line))
      ++ (block.name, block.line) :: after.map fun block => (block.name, block.line) := by
    rw [Outline.heads, hblocks, List.map_append, List.map_cons]
  have hbegins := (Outline.traced_of_read hread).heads _ _ _ hheads
    (fun hnil => hne (List.map_eq_nil_iff.mp hnil))
  obtain ⟨k, cs, hline, hcs, hpos, hoffends⟩ := hbegins.offends hlines hnodup hrefused
  refine ⟨lines, k, cs, message, hlines, hcs, hpos, by rw [hline], ?_, hoffends⟩
  rcases hrefused with ⟨-, rfl⟩ | ⟨-, -, rfl⟩
  · exact .inl rfl
  · exact .inr ⟨block.name, rfl⟩

/-! ## The second pass -/

theorem register_failsWith (token : String) : FailsWith Error.concernsToken (register token) := by
  rw [register]
  split
  · split
    · exact .ok _
    · exact .error rfl
  · exact .error rfl

theorem truthValue_failsWith (token : String) :
    FailsWith Error.concernsToken (truthValue token) := by
  unfold truthValue
  split
  · exact .ok _
  · exact .ok _
  · exact .error rfl

theorem quotedText_failsWith (token : String) :
    FailsWith Error.concernsToken (quotedText token) := by
  rw [quotedText]
  split
  · split
    · exact .ok _
    · exact .error rfl
  · exact .error rfl

theorem globalSlot_failsWith (token : String) :
    FailsWith Error.concernsToken (globalSlot token) := by
  rw [globalSlot]
  split
  · exact number_failsWith _ _ _
  · exact number_failsWith _ _ _

theorem jumpTarget_failsWith (labels : Std.HashMap String Nat) (token : String) :
    FailsWith Error.concernsToken (jumpTarget labels token) := by
  rw [jumpTarget]
  split
  · exact .ok _
  · split
    · exact .error rfl
    · split
      · exact .ok _
      · exact .error rfl

theorem toExcept_failsWith {σ α : Type} {allowed : Error → Bool} {x : Attempt σ α}
    (h : FailsWith allowed x.1) : FailsWith allowed (Attempt.toExcept x) := by
  rcases x with ⟨error | a, state⟩
  · exact .error (h error rfl)
  · exact .ok _

/-- There may be no room for a constant. -/
theorem addConstant_failsWith {α : Type} [DecidableEq α] [Hashable α] [Program.Pooled α]
    (program : Program) (value : α) :
    FailsWith Error.concernsToken (addConstant program value) := by
  have htable : FailsWith Error.concernsToken
      (ConstantTable.add (Program.Pooled.table program : ConstantTable α) value).1 := by
    rw [ConstantTable.add]
    split
    · exact .ok _
    · split
      · exact .error rfl
      · exact .ok _
  exact (toExcept_failsWith (x := program.addConstant value) htable).map _

theorem operand_failsWith (scope : Scope) (program : Program) (kind : OperandKind)
    (token : String) : FailsWith Error.concernsToken (operand scope program kind token) := by
  cases kind with
  | reg => exact (register_failsWith token).bind fun _ => .ok _
  | bool => exact (truthValue_failsWith token).bind fun _ => .ok _
  | simm16 => exact (number_failsWith _ _ _).bind fun _ => .ok _
  | global => exact (globalSlot_failsWith token).bind fun _ => .ok _
  | const type =>
      cases type with
      | i32 | i64 | f32 | f64 =>
          exact (number_failsWith _ _ _).bind fun _ => addConstant_failsWith program _
  | str => exact (quotedText_failsWith token).bind fun _ => addConstant_failsWith program _
  | func =>
      rw [operand]
      split
      · exact .ok _
      · exact .error rfl
  | label => exact (jumpTarget_failsWith _ token).bind fun _ => .ok _

theorem place_failsWith (op : Opcode) (fields : Fields) (word : UInt32) (field : Field) :
    FailsWith Error.concernsToken (Instruction.place op fields word field) := by
  rw [Instruction.place]
  split
  · split
    · exact .ok _
    · exact .error rfl
  · split
    · exact .ok _
    · exact .error rfl

theorem ofOperands_failsWith (op : Opcode) (values : List UInt32) :
    FailsWith Error.concernsToken (Instruction.ofOperands op values) := by
  rw [Instruction.ofOperands]
  split
  · refine FailsWith.map ?_ _
    exact (place_failsWith _ _ _ _).bind fun _ => (place_failsWith _ _ _ _).bind fun _ =>
      (place_failsWith _ _ _ _).bind fun _ => .ok _
  · exact .error rfl

namespace Draft

variable {scope : Scope} {error : Error}

theorem operands_blames {number : Nat} (pairs : List (Operand × Token)) :
    ∀ {draft : Draft}, draft.operands scope number pairs = .error error →
      ∃ pair ∈ pairs, error.Blames number pair.2.offset := by
  induction pairs with
  | nil => intro draft h; cases h
  | cons pair rest ih =>
      intro draft h
      obtain h | ⟨⟨value, program⟩, -, h⟩ := bind_eq_error.mp h
      · exact ⟨pair, List.mem_cons_self, atToken_blames (operand_failsWith _ _ _ _) h⟩
      · obtain h | ⟨_, -, h⟩ := bind_eq_error.mp h
        · obtain ⟨pair, hpair, hblames⟩ := ih h
          exact ⟨pair, List.mem_cons_of_mem _ hpair, hblames⟩
        · cases h

theorem emit_blames {draft : Draft} {number : Nat} {mnemonic : Token} {op : Opcode}
    {values : List UInt32} (h : draft.emit number mnemonic op values = .error error) :
    error.Blames number mnemonic.offset := by
  rw [emit, FunctionBuilder.emit] at h
  cases hword : Instruction.ofOperands op values with
  | ok word => simp only [hword] at h; cases h
  | error cause =>
      simp only [hword] at h
      cases h
      exact located_blames (ofOperands_failsWith op values cause hword) number mnemonic

/-- An instruction fails at the start of its mnemonic or of one of its operands. -/
theorem addLine_blames {draft : Draft} {source : SourceLine}
    (h : draft.addLine scope source = .error error) :
    ∃ token ∈ source.mnemonic :: source.operands, error.Blames source.number token.offset := by
  rw [addLine] at h
  cases hop : Opcode.ofMnemonic? source.mnemonic.text with
  | none =>
      simp only [hop] at h
      cases h
      exact ⟨source.mnemonic, List.mem_cons_self, located_blames rfl _ _⟩
  | some op =>
      simp only [hop] at h
      split at h
      · cases h
        refine ⟨source.mnemonic, List.mem_cons_self, located_blames ?_ _ _⟩
        rw [Error.concernsToken, hop]
        rfl
      · obtain h | ⟨⟨values, middle⟩, -, h⟩ := bind_eq_error.mp h
        · obtain ⟨pair, hpair, hblames⟩ := operands_blames _ h
          exact ⟨pair.2, List.mem_cons_of_mem _ (List.of_mem_zip hpair).2, hblames⟩
        · exact ⟨source.mnemonic, List.mem_cons_self, emit_blames h⟩

theorem addLines_blames (lines : List SourceLine) :
    ∀ {draft : Draft}, lines.foldlM (addLine scope) draft = .error error →
      ∃ source ∈ lines, ∃ token ∈ source.mnemonic :: source.operands,
        error.Blames source.number token.offset := by
  induction lines with
  | nil => intro draft h; cases h
  | cons line lines ih =>
      intro draft h
      rw [List.foldlM_cons] at h
      obtain h | ⟨middle, -, h⟩ := bind_eq_error.mp h
      · exact ⟨line, List.mem_cons_self, addLine_blames h⟩
      · obtain ⟨source, hsource, hblames⟩ := ih h
        exact ⟨source, List.mem_cons_of_mem _ hsource, hblames⟩

end Draft

/-- A block fails in one of its lines: a register has eight bits, so that the window can hold all
registers that the lines name. -/
theorem compileBlock_blames {file : String} {names : Std.HashMap String UInt16} {p : Program}
    {block : Block} {error : Error} (h : compileBlock file names p block = .error error) :
    ∃ source ∈ block.lines, ∃ token ∈ source.mnemonic :: source.operands,
      error.Blames source.number token.offset := by
  obtain h | ⟨draft, hlines, h⟩ := bind_eq_error.mp h
  · rw [← Array.foldlM_toList] at h
    obtain ⟨source, hsource, hblames⟩ := Draft.addLines_blames _ h
    exact ⟨source, Array.mem_toList_iff.mp hsource, hblames⟩
  · rw [← Array.foldlM_toList] at hlines
    obtain ⟨words, hbuilder, hregisters⟩ := Draft.addLines_registers _ hlines
    have hempty : draft.builder.registers = .empty := by rw [hbuilder]; rfl
    have hle : draft.registers ≤ registerCapacity :=
      (hregisters _).mpr ⟨Nat.zero_le _, registerBound_le_iff.mp (registerBound_le words)⟩
    obtain h | ⟨_, -, h⟩ := bind_eq_error.mp h
    · rw [reserveRegisters_of_le hempty hle] at h
      cases h
    · cases h

theorem addFunction_of_lt {p : Program} (function : Function)
    (h : p.functions.size < maxTableLength) {error : Error} :
    Attempt.toExcept (p.addFunction function) ≠ .error error := by
  rw [Program.addFunction, if_neg (Nat.not_le_of_lt h)]
  intro h
  cases h

/-- Blocks fail in one of their lines, if the program has room for all of them. -/
theorem addBlocks_blames {file : String} {names : Std.HashMap String UInt16} {error : Error}
    (blocks : List Block) :
    ∀ {p : Program}, p.Sound → p.functions.size + blocks.length ≤ maxTableLength →
      blocks.foldlM (addBlock file names) p = .error error →
      ∃ block ∈ blocks, ∃ source ∈ block.lines, ∃ token ∈ source.mnemonic :: source.operands,
        error.Blames source.number token.offset := by
  induction blocks with
  | nil => intro p _ _ h; cases h
  | cons block blocks ih =>
      intro p hp hroom h
      rw [List.length_cons] at hroom
      rw [List.foldlM_cons] at h
      obtain h | ⟨middle, hblock, h⟩ := bind_eq_error.mp h
      · obtain h | ⟨⟨function, compiled⟩, hcompile, h⟩ := bind_eq_error.mp h
        · exact ⟨block, List.mem_cons_self, compileBlock_blames h⟩
        · obtain ⟨hgrows, -⟩ := compileBlock_compiledAs hp hcompile
          obtain h | ⟨_, -, h⟩ := bind_eq_error.mp h
          · refine absurd h (addFunction_of_lt function ?_)
            rw [hgrows.functions]
            omega
          · cases h
      · obtain ⟨function, happends, -⟩ := addBlock_compiledAs hp hblock
        have hsize : middle.functions.size = p.functions.size + 1 := by
          simpa using congrArg List.length happends.functions
        obtain ⟨block, hmem, hblames⟩ := ih happends.sound (by omega) h
        exact ⟨block, List.mem_cons_of_mem _ hmem, hblames⟩

theorem entryIndex_blames {names : Std.HashMap String UInt16} {named : Option EntryName}
    {error : Error} (h : entryIndex names named = .error error) :
    ∃ entry, named = some entry ∧ error.Blames entry.line entry.offset := by
  cases named with
  | none => cases h
  | some entry =>
      rw [entryIndex] at h
      split at h
      · cases h
      · cases h
        exact ⟨entry, rfl, _, .inl rfl, not_refusesFunction_of_concernsToken rfl⟩

/-! ## The whole text -/

/-- A text fails at the start of a token, or in the line of a function that is refused. -/
theorem assemble_eq_error {source file : String} {error : Error}
    (h : assemble source file = .error error) :
    (∃ line offset, Marks (Text.lines source) line offset ∧ error.Blames line offset) ∨
    ∃ lines k cs message, tokenLines? source = some lines ∧
      (Text.lines source)[k]? = some cs ∧ 1 ≤ Text.byteLength cs ∧
      error = .assembly (k + 1) 1 message ∧ RefusesFunction message ∧
      Offends lines (k + 1) message := by
  obtain h | ⟨outline, hread, h⟩ := bind_eq_error.mp h
  · obtain ⟨before, cs, after, outline, htexts, -, hline⟩ := Outline.read_eq_error h
    rw [htexts]
    exact .inl ⟨_, Outline.addLine_blames hline⟩
  have htraced := Outline.traced_of_read hread
  obtain h | ⟨names, hnames, h⟩ := bind_eq_error.mp h
  · exact .inr (nameBlocks_offends hread h)
  obtain h | ⟨program, -, h⟩ := bind_eq_error.mp h
  · have hempty : ({ Program.empty with globalCount := outline.globalCount } : Program).Sound :=
      { Program.Sound.empty with }
    have hroom := length_le_of_nameBlocks _ (Nat.zero_le _) hnames
    rw [← Array.foldlM_toList] at h
    obtain ⟨block, hblock, source, hsource, token, htoken, hblames⟩ :=
      addBlocks_blames _ hempty hroom h
    exact .inl ⟨_, _, htraced.lines block (Array.mem_toList_iff.mp hblock) source hsource token
      htoken, hblames⟩
  obtain h | ⟨entry, -, h⟩ := bind_eq_error.mp h
  · obtain ⟨entry, hentry, hblames⟩ := entryIndex_blames h
    exact .inl ⟨_, _, htraced.entry entry hentry, hblames⟩
  · cases h

/-- A failure with this message at this place points into the source text; `cs` is the line. -/
structure PointsInto (source : String) (line offset : Nat) (message : String) (cs : List Char) :
    Prop where
  line_pos : 1 ≤ line
  line_le : line ≤ (Text.lines source).length
  text : (Text.lines source)[line - 1]? = some cs
  offset_pos : 1 ≤ offset
  offset_le : offset ≤ Text.byteLength cs
  /-- The place is the start of a token, and the tokenizer finds one there if it finds any. -/
  token : ¬ RefusesFunction message → TokenAt cs offset ∧
    ∀ tokens, tokenize line cs = .ok tokens → ∃ token ∈ tokens, token.offset = offset
  /-- A function is refused in the first column of the line that begins it. -/
  function : RefusesFunction message → offset = 1 ∧
    ∃ lines, tokenLines? source = some lines ∧ Offends lines line message

/-- The failing line behind its number, and the line with the mark. -/
def markedLine (line offset : Nat) (cs : List Char) : String :=
  "  |\n" ++ Text.padLeft 4 ' ' (toString line) ++ " | " ++ String.ofList (dropReturns cs) ++
    "\n  | " ++ "".pushn ' ' (offset - 1) ++ "^\n"

theorem diagnostic_of_position {source : String} {error : Error} {line offset : Nat}
    {message : String} {cs : List Char} (file : String)
    (herror : error = .assembly line offset message ∨ error = .parse line offset message)
    (hcs : (Text.lines source)[line - 1]? = some cs) :
    diagnostic file source error
      = s!"error: {message}\n --> {file}:{line}:{offset}\n" ++ markedLine line offset cs := by
  have hposition : error.position? = some (line, offset, message) := by
    rcases herror with rfl | rfl <;> rfl
  have hexcerpt : excerpt source line offset = markedLine line offset cs := by
    rw [excerpt, hcs]
    rfl
  rw [diagnostic, hposition, ← hexcerpt]

/-- **Failures of the assembler point into the source.**  A text that cannot be assembled is refused
at a place of one of its lines, where a token starts; only a function that is refused is so in the
first column of the line that begins it.  So what is shown to the author has the line in it, and a
mark under it. -/
theorem assembly_errors_point_into_source {source file : String} {error : Error}
    (h : assemble source file = .error error) :
    ∃ line offset message cs,
      (error = .assembly line offset message ∨ error = .parse line offset message) ∧
      PointsInto source line offset message cs ∧
      ∀ name, diagnostic name source error
        = s!"error: {message}\n --> {name}:{line}:{offset}\n" ++ markedLine line offset cs := by
  rcases assemble_eq_error h with ⟨line, offset, hmarks, message, herror, hno⟩ |
    ⟨lines, k, cs, message, hlines, hcs, hpos, rfl, hrefuses, hoffends⟩
  · obtain ⟨k, cs, rfl, hcs, hat, htokens⟩ := hmarks
    obtain ⟨hlt, -⟩ := List.getElem?_eq_some_iff.mp hcs
    refine ⟨k + 1, offset, message, cs, herror, ?_,
      fun name => diagnostic_of_position name herror hcs⟩
    exact ⟨Nat.le_add_left 1 k, hlt, hcs, hat.bounds.1, hat.bounds.2, fun _ => ⟨hat, htokens⟩,
      fun hrefuses => absurd hrefuses hno⟩
  · obtain ⟨hlt, -⟩ := List.getElem?_eq_some_iff.mp hcs
    refine ⟨k + 1, 1, message, cs, .inl rfl, ?_,
      fun name => diagnostic_of_position name (.inl rfl) hcs⟩
    exact ⟨Nat.le_add_left 1 k, hlt, hcs, Nat.le_refl 1, hpos, fun hno => absurd hrefuses hno,
      fun _ => ⟨rfl, lines, hlines, hoffends⟩⟩

/-! ## Two texts that fail -/

/-- A quote is not closed, behind a letter of two bytes. -/
def unclosedSource : String := ".globals 2\n.entry é, \"x # y"

/-- Two functions have the same name. -/
def doubledSource : String := ".func f\n  .func f 1"

theorem assemble_unclosed (file : String) : assemble unclosedSource file
    = .error (.parse 2 12 "unterminated string literal (missing closing quote)") := by
  have hlines : Text.lines unclosedSource
      = [".globals 2".toList, ".entry é, \"x # y".toList] := by
    decide +kernel
  have houtline : Outline.ofSource unclosedSource
      = .error (.parse 2 12 "unterminated string literal (missing closing quote)") := by
    rw [Outline.ofSource, hlines]
    rfl
  rw [assemble, houtline]
  rfl

theorem assemble_doubled (file : String) : assemble doubledSource file
    = .error (.assembly 2 1 "duplicate function: f") := by
  have hlines : Text.lines doubledSource = [".func f".toList, "  .func f 1".toList] := by
    decide +kernel
  have houtline : Outline.ofSource doubledSource
      = .ok ⟨#[.new "f" 0 1], .new "f" 1 2, false, 0, none⟩ := by
    rw [Outline.ofSource, hlines]
    rfl
  have hnames : nameBlocks ∅ 0 [.new "f" 0 1, .new "f" 1 2]
      = .error (.assembly 2 1 "duplicate function: f") := by
    simp [nameBlocks, maxTableLength, Block.new]
    rfl
  refine bind_eq_error.mpr (.inr ⟨_, houtline, bind_eq_error.mpr (.inl hnames)⟩)

theorem assembly_errors_point_into_source_samples :
    (assemble unclosedSource "main.kasm"
        = .error (.parse 2 12 "unterminated string literal (missing closing quote)") ∧
      ∃ cs, PointsInto unclosedSource 2 12
        "unterminated string literal (missing closing quote)" cs) ∧
    assemble doubledSource "main.kasm" = .error (.assembly 2 1 "duplicate function: f") ∧
      ∃ cs, PointsInto doubledSource 2 1 "duplicate function: f" cs := by
  refine ⟨⟨assemble_unclosed _, ?_⟩, assemble_doubled _, ?_⟩
  · obtain ⟨line, offset, message, cs, herror, hpoints, -⟩ :=
      assembly_errors_point_into_source (assemble_unclosed "main.kasm")
    rcases herror with herror | herror
    · cases herror
    · cases herror; exact ⟨cs, hpoints⟩
  · obtain ⟨line, offset, message, cs, herror, hpoints, -⟩ :=
      assembly_errors_point_into_source (assemble_doubled "main.kasm")
    rcases herror with herror | herror
    · cases herror; exact ⟨cs, hpoints⟩
    · cases herror

end Assembly

end RegisterMachine
