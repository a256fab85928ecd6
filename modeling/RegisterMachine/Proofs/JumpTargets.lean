import Mathlib
import RegisterMachine.Proofs.Disassembly

/-!
# Jumps go to the labels that they name

The target of a jump is written as a number or as a label, and a number is read first.  So a jump
goes to the label that it names, forwards or backwards, unless the name is a numeral; then it goes
to the place with that number, whether or not there is a label of this name
(`jumps_land_on_labels`).  A label may be named like a number, but no jump leads to it
(`numeral_label_missed`).
-/

namespace RegisterMachine

/-- The place that a jump goes to. -/
def Instruction.target (i : Instruction) : Nat := (i.fields .two).imm.toNat

theorem Instruction.toNat_b (i : Instruction) : (i.fields .two).b.toNat = i.target := by
  have hfield : (i.fields .two).b.toNat = i.word.toNat / 2 ^ 0 % 2 ^ 16 :=
    i.toNat_fields_get .two .b
  have hlt : (i.fields .two).b.toNat < 2 ^ 16 := by
    rw [hfield]
    exact Nat.mod_lt _ (Nat.two_pow_pos 16)
  rw [target, Fields.imm, UInt32.toNat_toUInt16, Nat.mod_eq_of_lt hlt]

namespace Assembly

/-- The mnemonics of jumps.  The last operand is the target. -/
def jumpMnemonics : List String := ["JUMP", "JUMP_IF", "JUMP_IF_NOT"]

namespace Section

/-- The instruction at a place of the section is a jump, and its target is written like this. -/
def JumpsTo (s : Section) (place : Nat) (target : String) : Prop :=
  ∃ mnemonic operands last, s.instructions[place]? = some (mnemonic, operands) ∧
    mnemonic.text ∈ jumpMnemonics ∧ operands.getLast? = some last ∧ last.text = target

/-- A jump to a label of the section, if its name is one of those in question, goes to the place of
the label: as many instructions stand before its definition. -/
def LandsOnLabels (named : String → Prop) (s : Section) (function : Function) : Prop :=
  ∀ k label place, s.JumpsTo k label → s.LabelAt label place → named label →
    ∃ word, function.code.toList[k]? = some word ∧ word.target = place

/-- A jump to a numeral goes to the place with that number. -/
def LandsOnNumerals (s : Section) (function : Function) : Prop :=
  ∀ k numeral n, s.JumpsTo k numeral → Text.uint32? numeral = some n →
    ∃ word, function.code.toList[k]? = some word ∧ word.target = n.toNat

end Section

/-! ## The word of a jump -/

section Word

variable {program : Program} {F : String → UInt16 → Prop} {L : String → Nat → Prop}

theorem opcode_of_jumpMnemonics {op : Opcode} (h : op.mnemonic ∈ jumpMnemonics) :
    op = .jump ∨ op = .jumpIf ∨ op = .jumpIfNot := by
  have hop : ∀ other : Opcode, op.mnemonic = other.mnemonic → op = other := by
    intro other hname
    have hfound := ofMnemonic?_mnemonic op
    rw [hname, ofMnemonic?_mnemonic] at hfound
    exact (Option.some.inj hfound).symm
  rcases List.mem_cons.mp h with h | h
  · exact .inl (hop .jump h)
  rcases List.mem_cons.mp h with h | h
  · exact .inr (.inl (hop .jumpIf h))
  · exact .inr (.inr (hop .jumpIfNot (List.mem_singleton.mp h)))

/-- The word of a jump holds what the last operand of the line says. -/
theorem Encodes.denotes_target {line : Token × List Token} {word : Instruction}
    (h : Encodes program F L line word) (hjump : line.1.text ∈ jumpMnemonics) {last : Token}
    (hlast : line.2.getLast? = some last) :
    Denotes program F L last.text (word.fields .two).b .label := by
  obtain ⟨op, hmnemonic, -, hoperands⟩ := h
  rw [← hmnemonic] at hjump
  obtain ⟨mnemonic, operands⟩ := line
  rcases opcode_of_jumpMnemonics hjump with rfl | rfl | rfl
  · rcases hoperands with _ | ⟨htarget, ⟨⟩⟩
    cases hlast
    exact htarget
  · rcases hoperands with _ | ⟨-, _ | ⟨htarget, ⟨⟩⟩⟩
    cases hlast
    exact htarget
  · rcases hoperands with _ | ⟨-, _ | ⟨htarget, ⟨⟩⟩⟩
    cases hlast
    exact htarget

end Word

/-! ## Sections -/

/-- The word at the place of a jump. -/
theorem Section.CompilesTo.exists_word {program : Program} {s : Section} {function : Function}
    (h : s.CompilesTo program function) {k : Nat} {target : String} (hjump : s.JumpsTo k target) :
    ∃ word, function.code.toList[k]? = some word ∧
      Denotes program program.NamedAt s.LabelAt target (word.fields .two).b .label := by
  obtain ⟨mnemonic, operands, last, hline, hmnemonic, hlast, rfl⟩ := hjump
  obtain ⟨word, hword, hencodes⟩ := getElem?_of_forall₂ h.code hline
  exact ⟨word, hword, hencodes.denotes_target hmnemonic hlast⟩

theorem Section.CompilesTo.landsOnLabels {program : Program} {s : Section} {function : Function}
    (h : s.CompilesTo program function) :
    s.LandsOnLabels (fun name => Text.uint32? name = none) function := by
  intro k label place hjump hlabel hname
  obtain ⟨word, hword, hdenotes⟩ := h.exists_word hjump
  simp only [Denotes, hname] at hdenotes
  refine ⟨word, hword, ?_⟩
  rw [← word.toNat_b]
  exact ((hdenotes place).mp hlabel).symm

theorem Section.CompilesTo.landsOnNumerals {program : Program} {s : Section} {function : Function}
    (h : s.CompilesTo program function) : s.LandsOnNumerals function := by
  intro k numeral n hjump hnumeral
  obtain ⟨word, hword, hdenotes⟩ := h.exists_word hjump
  simp only [Denotes, hnumeral] at hdenotes
  refine ⟨word, hword, ?_⟩
  rw [← word.toNat_b, hdenotes]

/-- **Jumps go to the labels that they name.**  In every function of an assembled program a jump to
a label of the same section, whose name is no numeral, goes to the place of the label.  A jump to a
numeral goes to the place with that number. -/
theorem jumps_land_on_labels {source file : String} {program : Program}
    (h : assemble source file = .ok program) :
    ∃ lines, tokenLines? source = some lines ∧
      List.Forall₂ (fun s function =>
        s.LandsOnLabels (fun name => Text.uint32? name = none) function ∧
          s.LandsOnNumerals function)
        (sections lines) program.functions.toList := by
  obtain ⟨outline, houtline, hcompiled, -⟩ := assemble_eq_ok h
  obtain ⟨lines, hlines, hrepresent⟩ := Outline.blocks_represent houtline
  refine ⟨lines, hlines, forall₂_comp (fun s block function hs hc => ?_) hrepresent hcompiled⟩
  have hcompiles := hc.compilesTo hs
  exact ⟨hcompiles.landsOnLabels, hcompiles.landsOnNumerals⟩

/-- The first section of `loopSource`. -/
def loopSection : Section where
  header := none
  body := [[⟨"again:", 1⟩, ⟨"LOAD_FUNCTION", 8⟩, ⟨"r0", 22⟩, ⟨"twice", 26⟩],
    [⟨"LOAD_CONST_I32", 1⟩, ⟨"r1", 16⟩, ⟨"70000", 20⟩],
    [⟨"CALL", 1⟩, ⟨"r0", 6⟩, ⟨"r0", 10⟩, ⟨"r1", 14⟩], [⟨"JUMP", 1⟩, ⟨"again", 6⟩]]

/-- The jump at the end of the loop goes back to its label. -/
theorem jumps_land_on_labels_loop :
    assemble loopSource "loop" = .ok loopProgram ∧
    loopSection.JumpsTo 3 "again" ∧ loopSection.LabelAt "again" 0 ∧
    ∃ function word, loopProgram.functions.toList[0]? = some function ∧
      function.code.toList[3]? = some word ∧ word.target = 0 := by
  have htokens : tokenLines? loopSource = some (loopSection.body ++
      [[⟨".func", 1⟩, ⟨"twice", 7⟩, ⟨"1", 13⟩],
        [⟨"ADD_I32", 1⟩, ⟨"r0", 9⟩, ⟨"r0", 13⟩, ⟨"r0", 17⟩], [⟨"RET", 1⟩, ⟨"r0", 5⟩]]) := by
    decide +kernel
  have hjump : loopSection.JumpsTo 3 "again" :=
    ⟨⟨"JUMP", 1⟩, [⟨"again", 6⟩], ⟨"again", 6⟩, by decide +kernel, .head _, rfl, rfl⟩
  have hlabel : loopSection.LabelAt "again" 0 := ⟨[], _, _, rfl, by decide +kernel, rfl⟩
  obtain ⟨lines, hlines, hlands⟩ := jumps_land_on_labels assemble_loop
  cases hlines.symm.trans htokens
  obtain ⟨function, hfunction, hlands, -⟩ :=
    getElem?_of_forall₂ hlands (k := 0) (a := loopSection) rfl
  obtain ⟨word, hword, htarget⟩ := hlands 3 "again" 0 hjump hlabel (by decide +kernel)
  exact ⟨assemble_loop, hjump, hlabel, function, word, hfunction, hword, htarget⟩

/-! ## A label that no jump leads to -/

/-- A label that is named like a number, and a jump to this number. -/
def numeralSource : String := "5: JUMP 5"

def numeralMain : Block where
  name := "main"
  paramCount := 0
  localCount := 0
  line := 1
  labels := (∅ : Std.HashMap String Nat).insert "5" 0
  lines := #[⟨1, ⟨"JUMP", 4⟩, [⟨"5", 9⟩]⟩]

/-- What `numeralSource` is assembled to. -/
def numeralProgram : Program :=
  { Program.empty with functions := #[⟨"main", ⟨"<source>", 1⟩, 0, 0, 0, #[⟨0x90000005⟩]⟩] }

theorem outline_numeral :
    Outline.ofSource numeralSource = .ok ⟨#[], numeralMain, true, 0, none⟩ := by
  have hlabel : Outline.start.current.defineLabel "5"
      = .ok { Outline.start.current with labels := numeralMain.labels } := by
    rw [Block.defineLabel, Outline.start, Block.new, Std.HashMap.contains_empty]
    rfl
  have hlines : Text.lines numeralSource = ["5: JUMP 5".toList] := by decide +kernel
  rw [Outline.ofSource, hlines]
  refine bind_eq_ok.mpr ⟨_, bind_eq_ok.mpr ⟨[⟨"5:", 1⟩, ⟨"JUMP", 4⟩, ⟨"5", 9⟩], rfl, ?_⟩, rfl⟩
  exact bind_eq_ok.mpr ⟨_, congrArg (atToken 1 ⟨"5:", 1⟩) hlabel, rfl⟩

theorem assemble_numeral : assemble numeralSource anonymousFile = .ok numeralProgram := by
  have hnames : nameBlocks ∅ 0 [numeralMain]
      = .ok ((∅ : Std.HashMap String UInt16).insert "main" 0) := by
    simp [nameBlocks, maxTableLength, numeralMain]
  refine bind_eq_ok.mpr ⟨_, outline_numeral, ?_⟩
  refine bind_eq_ok.mpr ⟨_, hnames, ?_⟩
  refine bind_eq_ok.mpr ⟨numeralProgram, rfl, ?_⟩
  refine bind_eq_ok.mpr ⟨0, ?_, rfl⟩
  simp [entryIndex, implicitName]

/-- The label stands before all instructions, but the jump that names it goes to place five. -/
theorem numeral_label_missed :
    assemble numeralSource anonymousFile = .ok numeralProgram ∧
    ∃ lines, tokenLines? numeralSource = some lines ∧
      ¬ List.Forall₂ (Section.LandsOnLabels fun _ => True) (sections lines)
        numeralProgram.functions.toList := by
  have htokens : tokenLines? numeralSource
      = some [[⟨"5:", 1⟩, ⟨"JUMP", 4⟩, ⟨"5", 9⟩]] := by
    decide +kernel
  refine ⟨assemble_numeral, _, htokens, fun hlands => ?_⟩
  obtain ⟨function, hfunction, hlands⟩ := getElem?_of_forall₂ hlands (k := 0)
    (a := ⟨none, [[⟨"5:", 1⟩, ⟨"JUMP", 4⟩, ⟨"5", 9⟩]]⟩) rfl
  cases hfunction
  obtain ⟨word, hword, htarget⟩ := hlands 0 "5" 0
    ⟨⟨"JUMP", 4⟩, [⟨"5", 9⟩], ⟨"5", 9⟩, by decide +kernel, .head _, rfl, rfl⟩
    ⟨[], _, [], rfl, by decide +kernel, rfl⟩ trivial
  cases hword
  cases htarget

end Assembly

end RegisterMachine
