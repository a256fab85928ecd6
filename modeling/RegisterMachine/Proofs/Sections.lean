import Mathlib
import RegisterMachine.Assembly.Outline
import RegisterMachine.Proofs.Plan

/-!
# Sections of a source text

What a source text says, without regard to how it is read.  A line is its tokens.  A line that
starts with `.func` begins a section, and the lines before the first such line are a section too,
that of `main`; it counts unless it is vacuous and another section follows (`sections`).

| part of a section | comes from                                                            |
|-------------------|-----------------------------------------------------------------------|
| name, parameters  | what stands behind `.func`                                            |
| local variables   | the last `.locals` in the body                                        |
| instructions      | the lines that hold more than a label and start with no directive     |
| place of a label  | the number of instructions before the line that defines it            |

The main statement is `Outline.blocks_represent`: the first pass over a text gives one block for
each section, in order, and each block holds what its section says.
-/

namespace RegisterMachine.Assembly

/-! ## Lines -/

/-- The lines of a source text as tokens, if every line can be split into them. -/
def tokenLines? (source : String) : Option (List (List Token)) :=
  (Text.lines source).mapM fun cs => (tokenize 0 cs).toOption

/-- Whether a line starts with a directive. -/
def isDirective : List Token → Bool
  | first :: _ => first.text.toList.head? = some '.'
  | [] => false

/-- What stands behind a given directive, if the line starts with it. -/
def arguments? (directive : String) : List Token → Option (List Token)
  | first :: rest => if first.text = directive then some rest else none
  | [] => none

/-- The label that a line defines. -/
def label? (line : List Token) : Option String :=
  if isDirective line then none else line.head?.bind fun first => labelName? first.text

/-- Tokens as an instruction, which is a mnemonic and operands. -/
def asInstruction? : List Token → Option (Token × List Token)
  | mnemonic :: operands => some (mnemonic, operands)
  | [] => none

/-- The instruction of a line; it may stand behind a label. -/
def instruction? (line : List Token) : Option (Token × List Token) :=
  if isDirective line then none
  else asInstruction? (if (label? line).isSome then line.tail else line)

/-! ## Sections -/

/-- The part of a source text that describes one function. -/
structure Section where
  /-- What stands behind the directive that begins the section; the first section has none. -/
  header : Option (List Token)
  body : List (List Token)

namespace Section

/-- The name of the function. -/
def name? (s : Section) : Option String :=
  match s.header with
  | none => some implicitName
  | some arguments => arguments.head?.map Token.text

/-- The number of parameters. -/
def paramCount? (s : Section) : Option UInt16 :=
  match s.header with
  | none | some [_] => some 0
  | some [_, count] => Text.uint16? count.text
  | some _ => none

/-- The number of local variables: the last one given counts. -/
def localCount? (s : Section) : Option UInt16 :=
  match (s.body.filterMap (arguments? ".locals")).getLast? with
  | none => some 0
  | some [count] => Text.uint16? count.text
  | some _ => none

/-- The instructions in their order. -/
def instructions (s : Section) : List (Token × List Token) := s.body.filterMap instruction?

/-- The label is defined where this many instructions stand before it. -/
def LabelAt (s : Section) (label : String) (place : Nat) : Prop :=
  ∃ before line after, s.body = before ++ line :: after ∧ label? line = some label ∧
    place = (before.filterMap instruction?).length

/-- There is nothing in the section that matters. -/
def Vacuous (s : Section) : Prop :=
  s.instructions = [] ∧ (∀ line ∈ s.body, label? line = none) ∧ s.localCount? = some 0

instance (s : Section) : Decidable s.Vacuous := inferInstanceAs (Decidable (_ ∧ _ ∧ _))

end Section

/-- The lines before the first `.func`, and a section for each `.func`. -/
def split : List (List Token) → List (List Token) × List Section
  | [] => ([], [])
  | line :: rest =>
    match arguments? ".func" line with
    | some arguments => ([], ⟨some arguments, (split rest).1⟩ :: (split rest).2)
    | none => (line :: (split rest).1, (split rest).2)

/-- All sections, when `first` is the one before the first `.func`. -/
def withFirst (first : Section) (rest : List Section) : List Section :=
  if first.Vacuous ∧ rest ≠ [] then rest else first :: rest

/-- The sections of a source text. -/
def sections (lines : List (List Token)) : List Section :=
  withFirst ⟨none, (split lines).1⟩ (split lines).2

/-! ## One more line -/

namespace Section

variable {s : Section} {line : List Token}

/-- The section with one more line at its end. -/
def snoc (s : Section) (line : List Token) : Section := { s with body := s.body ++ [line] }

theorem instructions_snoc :
    (s.snoc line).instructions = s.instructions ++ (instruction? line).toList := by
  rw [instructions, snoc, List.filterMap_append, instructions]
  cases hi : instruction? line <;> simp [hi]

theorem localCount?_snoc_of_none (h : arguments? ".locals" line = none) :
    (s.snoc line).localCount? = s.localCount? := by
  simp [localCount?, snoc, List.filterMap_append, h]

theorem localCount?_snoc_of_some {count : Token} (h : arguments? ".locals" line = some [count]) :
    (s.snoc line).localCount? = Text.uint16? count.text := by
  simp [localCount?, snoc, List.filterMap_append, h]

/-- A label is defined in the lines before, or by the last one. -/
theorem labelAt_snoc {label : String} {place : Nat} :
    (s.snoc line).LabelAt label place ↔
      s.LabelAt label place ∨ label? line = some label ∧ place = s.instructions.length := by
  constructor
  · rintro ⟨before, defining, after, hbody, hlabel, hplace⟩
    rcases List.eq_nil_or_concat after with rfl | ⟨after, last, rfl⟩
    · obtain ⟨hbefore, hline⟩ := List.append_inj' hbody rfl
      cases hline
      exact .inr ⟨hlabel, by rw [hplace, ← hbefore]; rfl⟩
    · rw [List.concat_eq_append, ← List.cons_append, ← List.append_assoc] at hbody
      obtain ⟨hbefore, -⟩ := List.append_inj' hbody rfl
      exact .inl ⟨before, defining, after, hbefore, hlabel, hplace⟩
  · rintro (⟨before, defining, after, hbody, hlabel, hplace⟩ | ⟨hlabel, hplace⟩)
    · exact ⟨before, defining, after ++ [line], by simp [snoc, hbody], hlabel, hplace⟩
    · exact ⟨s.body, line, [], rfl, hlabel, hplace⟩

end Section

/-! ## Blocks that hold what a section says -/

/-- The instructions of a block. -/
def Block.code (block : Block) : List (Token × List Token) :=
  block.lines.toList.map fun line => (line.mnemonic, line.operands)

theorem Block.length_code (block : Block) : block.code.length = block.lines.size := by
  simp [Block.code]

/-- A block holds what a section says. -/
structure Represents (s : Section) (block : Block) : Prop where
  name : s.name? = some block.name
  paramCount : s.paramCount? = some block.paramCount
  localCount : s.localCount? = some block.localCount
  code : block.code = s.instructions
  labels : ∀ label place, block.labels[label]? = some place ↔ s.LabelAt label place

namespace Represents

variable {s : Section} {block : Block}

/-- A block that takes one more line in represents the section with that line. -/
theorem snoc (h : Represents s block) {line : List Token} {next : Block}
    (hname : next.name = block.name) (hparams : next.paramCount = block.paramCount)
    (hlocals : (s.snoc line).localCount? = some next.localCount)
    (hcode : next.code = block.code ++ (instruction? line).toList)
    (hlabels : ∀ label place, next.labels[label]? = some place ↔
      block.labels[label]? = some place ∨
        label? line = some label ∧ place = block.lines.size) :
    Represents (s.snoc line) next where
  name := by rw [hname]; exact h.name
  paramCount := by rw [hparams]; exact h.paramCount
  localCount := hlocals
  code := by rw [hcode, h.code, Section.instructions_snoc]
  labels label place := by
    rw [hlabels, Section.labelAt_snoc, h.labels, ← h.code, Block.length_code]

/-- A line without instruction and label, which sets no number of local variables, changes
nothing. -/
theorem skip (h : Represents s block) {line : List Token} (hi : instruction? line = none)
    (hl : label? line = none) (hn : arguments? ".locals" line = none) :
    Represents (s.snoc line) block := by
  refine h.snoc rfl rfl ?_ (by simp [hi]) (by simp [hl])
  rw [Section.localCount?_snoc_of_none hn]
  exact h.localCount

/-- The block of a section is empty exactly if there is nothing in the section that matters. -/
theorem isEmpty_iff (h : Represents s block) : block.isEmpty = true ↔ s.Vacuous := by
  have hlines : block.lines.isEmpty = true ↔ s.instructions = [] := by
    rw [← h.code, Block.code, List.map_eq_nil_iff, Array.isEmpty_iff, Array.toList_eq_nil_iff]
  have hlocals : (block.localCount == 0) = true ↔ s.localCount? = some 0 := by
    rw [h.localCount, beq_iff_eq, Option.some.injEq]
  have hlabels : block.labels.isEmpty = true ↔ ∀ line ∈ s.body, label? line = none := by
    rw [Std.HashMap.isEmpty_iff_forall_not_mem]
    constructor
    · intro hnone line hline
      by_contra hsome
      obtain ⟨label, hlabel⟩ := Option.ne_none_iff_exists'.mp hsome
      obtain ⟨before, after, hbody⟩ := List.append_of_mem hline
      have hat := (h.labels label _).mpr ⟨before, line, after, hbody, hlabel, rfl⟩
      exact hnone label (Std.HashMap.isSome_getElem?_iff_mem.mp (by rw [hat]; rfl))
    · intro hnone label hmem
      obtain ⟨place, hplace⟩ := Option.isSome_iff_exists.mp
        (Std.HashMap.isSome_getElem?_iff_mem.mpr hmem)
      obtain ⟨before, line, after, hbody, hlabel, -⟩ := (h.labels label place).mp hplace
      have hline := hnone line (by rw [hbody]; simp)
      cases hlabel.symm.trans hline
  rw [Block.isEmpty, Bool.and_eq_true, Bool.and_eq_true, hlines, hlabels, hlocals, and_assoc,
    Section.Vacuous]

/-- A fresh block represents a section without lines. -/
theorem new {header : Option (List Token)} {name : String} {paramCount : UInt16} (line : Nat)
    (hname : Section.name? ⟨header, []⟩ = some name)
    (hparams : Section.paramCount? ⟨header, []⟩ = some paramCount) :
    Represents ⟨header, []⟩ (.new name paramCount line) where
  name := hname
  paramCount := hparams
  localCount := rfl
  code := rfl
  labels label place := by
    rw [Block.new, Std.HashMap.getElem?_empty]
    constructor
    · intro h; cases h
    · rintro ⟨before, _, _, hbody, -⟩
      cases before <;> cases hbody

end Represents

/-! ## What a line does to an outline -/

theorem number_eq_ok {α : Type} {read : String → Option α} {expected token : String} {a : α}
    (h : number read expected token = .ok a) : read token = some a := by
  rw [number] at h
  cases hr : read token with
  | none => rw [hr] at h; cases h
  | some b => rw [hr] at h; cases h; rfl

theorem getElem?_eq_none_of_not_contains {α : Type} {map : Std.HashMap String α} {key : String}
    (h : ¬map.contains key = true) : map[key]? = none := by
  rwa [Std.HashMap.contains_eq_isSome_getElem?, Bool.not_eq_true, Option.isSome_eq_false_iff,
    Option.isNone_iff_eq_none] at h

/-- A new key is added to those that are there. -/
theorem getElem?_insert_fresh {α : Type} {map : Std.HashMap String α} {key : String} {value : α}
    (h : map[key]? = none) (other : String) (value' : α) :
    (map.insert key value)[other]? = some value' ↔
      map[other]? = some value' ∨ some key = some other ∧ value' = value := by
  rw [Std.HashMap.getElem?_insert]
  by_cases heq : key = other
  · subst heq
    simp [h, eq_comm]
  · simp [heq]

/-- An instruction that stands in this line. -/
structure SourceLine.From (source : SourceLine) (number : Nat) (line : List Token) : Prop where
  number : source.number = number
  mnemonic : source.mnemonic ∈ line
  operands : ∀ token ∈ source.operands, token ∈ line

namespace Outline

variable {outline next : Outline} {number : Nat}

/-- The entry was named before, or it is named by a token of this line. -/
def EntryFrom (before : Option EntryName) (number : Nat) (line : List Token)
    (after : Option EntryName) : Prop :=
  ∀ entry, after = some entry →
    before = some entry ∨ entry.line = number ∧ ∃ token ∈ line, token.offset = entry.offset

theorem EntryFrom.refl (entry : Option EntryName) (line : List Token) :
    EntryFrom entry number line entry :=
  fun _ h => .inl h

/-- The ways in which a directive can change an outline. -/
inductive Directive (outline : Outline) (number : Nat) (first : Token) :
    List Token → Outline → Prop
  /-- `.globals` and `.entry` say nothing of the present section. -/
  | other {rest : List Token} (globalCount : UInt16) (entry : Option EntryName) :
      first.text ≠ ".func" → first.text ≠ ".locals" → EntryFrom outline.entry number rest entry →
      Directive outline number first rest { outline with globalCount, entry }
  | locals {count : Token} {localCount : UInt16} :
      first.text = ".locals" → Text.uint16? count.text = some localCount →
      Directive outline number first [count]
        { outline with current := { outline.current with localCount } }
  | func {name : Token} {rest : List Token} {paramCount : UInt16} :
      first.text = ".func" →
      Section.paramCount? ⟨some (name :: rest), []⟩ = some paramCount →
      Directive outline number first (name :: rest)
        (outline.beginBlock (.new name.text paramCount number))

theorem argument_eq_ok {directive token : Token} {arguments : List Token}
    (h : argument number directive arguments = .ok token) :
    ∃ rest, arguments = token :: rest := by
  cases arguments with
  | nil => cases h
  | cons head rest => cases h; exact ⟨rest, rfl⟩

/-- A directive with too many arguments is refused. -/
theorem addDirective_eq_ok {first : Token} {rest : List Token}
    (h : outline.addDirective number first rest = .ok next) :
    outline.applyDirective number first rest = .ok next ∧
      rest.length ≤ maxArguments first := by
  obtain ⟨changed, happly, h⟩ := bind_eq_ok.mp h
  cases hlast : rest.getLast? with
  | none =>
      rw [hlast] at h
      cases h
      obtain rfl := List.getLast?_eq_none_iff.mp hlast
      exact ⟨happly, Nat.zero_le _⟩
  | some last =>
      rw [hlast] at h
      obtain ⟨hlength, h⟩ := check_eq_ok.mp h
      cases h
      exact ⟨happly, Nat.le_of_not_lt hlength⟩

theorem addDirective_directive {first : Token} {rest : List Token}
    (h : outline.addDirective number first rest = .ok next) :
    Directive outline number first rest next := by
  obtain ⟨h, hlength⟩ := addDirective_eq_ok h
  rw [applyDirective] at h
  split at h
  · rename_i htext
    obtain ⟨token, -, h⟩ := bind_eq_ok.mp h
    obtain ⟨count, -, h⟩ := bind_eq_ok.mp h
    cases h
    exact .other _ _ (by rw [htext]; decide) (by rw [htext]; decide) (.refl _ rest)
  · rename_i htext
    obtain ⟨token, harg, h⟩ := bind_eq_ok.mp h
    obtain ⟨count, hcount, h⟩ := bind_eq_ok.mp h
    cases h
    obtain ⟨more, rfl⟩ := argument_eq_ok harg
    rw [maxArguments, if_neg (by rw [htext]; decide)] at hlength
    obtain rfl : more = [] := List.length_eq_zero_iff.mp (by simpa using hlength)
    exact .locals htext (number_eq_ok (mapError_eq_ok hcount))
  · rename_i htext
    obtain ⟨token, harg, h⟩ := bind_eq_ok.mp h
    cases h
    obtain ⟨more, rfl⟩ := argument_eq_ok harg
    refine .other _ _ (by rw [htext]; decide) (by rw [htext]; decide) fun entry hentry => ?_
    cases hentry
    exact .inr ⟨rfl, token, List.mem_cons_self, rfl⟩
  · rename_i htext
    obtain ⟨name, harg, h⟩ := bind_eq_ok.mp h
    obtain ⟨more, rfl⟩ := argument_eq_ok harg
    rw [maxArguments, if_pos htext, List.length_cons] at hlength
    match more with
    | [] =>
        cases h
        exact .func htext rfl
    | [second] =>
        obtain ⟨count, hcount, h⟩ := bind_eq_ok.mp h
        cases h
        exact .func htext (number_eq_ok (mapError_eq_ok hcount))
    | _ :: _ :: _ => simp at hlength
  · cases h

theorem arguments?_cons {directive : String} {first : Token} {rest : List Token} :
    arguments? directive (first :: rest)
      = if first.text = directive then some rest else none := rfl

theorem instruction?_of_directive {line : List Token} (h : isDirective line = true) :
    instruction? line = none := if_pos h

theorem label?_of_directive {line : List Token} (h : isDirective line = true) :
    label? line = none := if_pos h

/-- The present section goes on with a line: what follows for its block and for the others. -/
structure Continues (outline : Outline) (number : Nat) (line : List Token) (next : Outline) :
    Prop where
  finished : next.finished = outline.finished
  implicit : next.implicit = outline.implicit
  name : next.current.name = outline.current.name
  startLine : next.current.line = outline.current.line
  represents : ∀ s, Represents s outline.current → Represents (s.snoc line) next.current
  lines : ∀ source ∈ next.current.lines, source ∈ outline.current.lines ∨ source.From number line
  entry : EntryFrom outline.entry number line next.entry

/-- What a line does to an outline: it begins a section, or it is one more line of the present
one. -/
inductive Reads (outline : Outline) (number : Nat) (line : List Token) : Outline → Prop
  | func {name : Token} {rest : List Token} {paramCount : UInt16} :
      arguments? ".func" line = some (name :: rest) →
      Section.paramCount? ⟨some (name :: rest), []⟩ = some paramCount →
      Reads outline number line (outline.beginBlock (.new name.text paramCount number))
  | line {next : Outline} :
      arguments? ".func" line = none → Continues outline number line next →
      Reads outline number line next

theorem Directive.reads {first : Token} {rest : List Token}
    (hdot : isDirective (first :: rest) = true) (h : Directive outline number first rest next) :
    Reads outline number (first :: rest) next := by
  have hi := instruction?_of_directive hdot
  have hl := label?_of_directive hdot
  cases h with
  | other globalCount entry hfunc hlocals hentry =>
      refine .line (if_neg hfunc) ⟨rfl, rfl, rfl, rfl, fun s hs => hs.skip hi hl (if_neg hlocals),
        fun _ h => .inl h, fun e he => ?_⟩
      obtain he | ⟨hline, token, htoken, hoffset⟩ := hentry e he
      · exact .inl he
      · exact .inr ⟨hline, token, List.mem_cons_of_mem first htoken, hoffset⟩
  | @locals count localCount htext hcount =>
      refine .line (if_neg (by rw [htext]; decide))
        ⟨rfl, rfl, rfl, rfl, fun s hs => ?_, fun _ h => .inl h, .refl _ _⟩
      have harguments : arguments? ".locals" [first, count] = some [count] := if_pos htext
      refine hs.snoc rfl rfl ?_ (by simp [hi, Block.code]) (by simp [hl])
      rw [Section.localCount?_snoc_of_some harguments]
      exact hcount
  | func htext hparams => exact .func (if_pos htext) hparams

/-- A directive begins with a point, so that a line without one begins no section. -/
theorem arguments?_of_not_directive {line : List Token} (h : isDirective line = false)
    (directive : String) (hdirective : directive.toList.head? = some '.') :
    arguments? directive line = none := by
  cases line with
  | nil => rfl
  | cons first rest =>
      rw [arguments?_cons, if_neg]
      rintro rfl
      rw [isDirective, hdirective] at h
      simp at h

/-- A line that is no directive: once its label is among those of the block, its instruction is
added. -/
theorem addInstruction_reads {line tokens : List Token} {labels : Std.HashMap String Nat}
    (hdirective : isDirective line = false)
    (hinstruction : instruction? line = asInstruction? tokens) (htokens : tokens ⊆ line)
    (hlabels : ∀ label place, labels[label]? = some place ↔
      outline.current.labels[label]? = some place ∨
        label? line = some label ∧ place = outline.current.lines.size) :
    Reads outline number line (addInstruction
      { outline with current := { outline.current with labels } } number tokens) := by
  have hfunc := arguments?_of_not_directive hdirective ".func" rfl
  have hlocals := arguments?_of_not_directive hdirective ".locals" rfl
  have hcount : ∀ s : Section, Represents s outline.current →
      (s.snoc line).localCount? = some outline.current.localCount := by
    intro s hs
    rw [Section.localCount?_snoc_of_none hlocals]
    exact hs.localCount
  cases tokens with
  | nil =>
      refine .line hfunc ⟨rfl, rfl, rfl, rfl,
        fun s hs => hs.snoc rfl rfl (hcount s hs) ?_ hlabels, fun _ h => .inl h, .refl _ _⟩
      rw [hinstruction]
      exact (List.append_nil _).symm
  | cons mnemonic operands =>
      obtain ⟨hmnemonic, hoperands⟩ := List.cons_subset.mp htokens
      refine .line hfunc ⟨rfl, rfl, rfl, rfl,
        fun s hs => hs.snoc rfl rfl (hcount s hs) ?_ hlabels, fun source hsource => ?_, .refl _ _⟩
      · rw [hinstruction]
        simp [addInstruction, asInstruction?, Block.code]
      · rcases Array.mem_push.mp hsource with hsource | rfl
        · exact .inl hsource
        · exact .inr ⟨rfl, hmnemonic, hoperands⟩

theorem defineLabel_eq_ok {block changed : Block} {label : String}
    (h : block.defineLabel label = .ok changed) :
    block.labels[label]? = none ∧
      changed = { block with labels := block.labels.insert label block.lines.size } := by
  rw [Block.defineLabel] at h
  split at h
  · cases h
  · rename_i hnew
    cases h
    exact ⟨getElem?_eq_none_of_not_contains hnew, rfl⟩

theorem addTokens_reads {line : List Token} (h : outline.addTokens number line = .ok next) :
    Reads outline number line next := by
  cases line with
  | nil =>
      cases h
      exact .line rfl ⟨rfl, rfl, rfl, rfl, fun s hs => hs.skip rfl rfl rfl, fun _ h => .inl h,
        .refl _ _⟩
  | cons first rest =>
      rw [addTokens] at h
      by_cases hdot : first.text.toList.head? = some '.'
      · rw [if_pos hdot] at h
        exact (addDirective_directive h).reads (decide_eq_true hdot)
      · rw [if_neg hdot] at h
        have hdirective : isDirective (first :: rest) = false := decide_eq_false hdot
        have hlabel : label? (first :: rest) = labelName? first.text := by
          rw [label?, hdirective]
          rfl
        have hinstruction : instruction? (first :: rest) = asInstruction?
            (if (labelName? first.text).isSome then rest else first :: rest) := by
          rw [instruction?, hdirective, hlabel]
          rfl
        cases hname : labelName? first.text with
        | none =>
            rw [hname] at h hlabel hinstruction
            cases h
            exact addInstruction_reads hdirective hinstruction (List.Subset.refl _)
              (by simp [hlabel])
        | some label =>
            rw [hname] at h hlabel hinstruction
            obtain ⟨current, hdefine, h⟩ := bind_eq_ok.mp h
            cases h
            obtain ⟨hnew, rfl⟩ := defineLabel_eq_ok (mapError_eq_ok hdefine)
            refine addInstruction_reads hdirective hinstruction (List.subset_cons_self _ _)
              fun other place => ?_
            rw [hlabel]
            exact getElem?_insert_fresh hnew other place

end Outline

/-! ## What a text does -/

/-- The sections of the lines that are left, when the present one is `s`. -/
def continued (implicit : Bool) (s : Section) (lines : List (List Token)) : List Section :=
  let current : Section := { s with body := s.body ++ (split lines).1 }
  if implicit then withFirst current (split lines).2 else current :: (split lines).2

section Continued

variable {implicit : Bool} {s : Section} {line : List Token} {rest : List (List Token)}

theorem continued_nil : continued implicit s [] = [s] := by
  cases implicit <;> simp [continued, split, withFirst]

theorem continued_line (h : arguments? ".func" line = none) :
    continued implicit s (line :: rest) = continued implicit (s.snoc line) rest := by
  simp [continued, split, h, Section.snoc]

theorem continued_func {arguments : List Token} (h : arguments? ".func" line = some arguments) :
    continued implicit s (line :: rest)
      = (if implicit = true ∧ s.Vacuous then [] else [s])
        ++ continued false ⟨some arguments, []⟩ rest := by
  cases implicit with
  | false => simp [continued, split, h]
  | true => by_cases hs : s.Vacuous <;> simp [continued, split, h, withFirst, hs]

end Continued

namespace Outline

/-- The blocks of an outline represent `done` and the present section `s`. -/
structure Covers (outline : Outline) (done : List Section) (s : Section) : Prop where
  finished : List.Forall₂ Represents done outline.finished.toList
  current : Represents s outline.current

theorem Covers.blocks {outline : Outline} {done : List Section} {s : Section}
    (h : outline.Covers done s) : List.Forall₂ Represents (done ++ [s]) outline.blocks.toList := by
  rw [Outline.blocks, Array.toList_push]
  exact List.rel_append h.finished (.cons h.current .nil)

/-- A section that ends is kept unless it is the first one and vacuous. -/
theorem Covers.beginBlock {outline : Outline} {done : List Section} {s : Section}
    (h : outline.Covers done s) {header : Option (List Token)} {block : Block}
    (hblock : Represents ⟨header, []⟩ block) :
    (outline.beginBlock block).Covers
      (done ++ if outline.implicit = true ∧ s.Vacuous then [] else [s]) ⟨header, []⟩ := by
  refine ⟨?_, hblock⟩
  have hempty : (outline.implicit && outline.current.isEmpty) = true ↔
      outline.implicit = true ∧ s.Vacuous := by
    rw [Bool.and_eq_true, h.current.isEmpty_iff]
  rw [Outline.beginBlock]
  by_cases hdrop : outline.implicit = true ∧ s.Vacuous
  · rw [if_pos (hempty.mpr hdrop), if_pos hdrop, List.append_nil]
    exact h.finished
  · rw [if_neg (fun he => hdrop (hempty.mp he)), if_neg hdrop]
    exact h.blocks

theorem tokenize_eq_ok {number : Nat} {cs : List Char} {tokens : List Token}
    (h : tokenize number cs = .ok tokens) : (tokenize 0 cs).toOption = some tokens := by
  rw [tokenize] at h ⊢
  cases hs : scan 1 false none #[] cs with
  | error offset => rw [hs] at h; cases h
  | ok done => rw [hs] at h; cases h; rfl

/-- After the rest of a text the blocks represent the sections that it continues. -/
theorem fold_covers (texts : List (List Char)) :
    ∀ {number : Nat} {outline next : Outline},
      (texts.zipIdx number).foldlM (fun outline (cs, line) => outline.addLine line cs) outline
        = .ok next →
      ∃ lines, texts.mapM (fun cs => (tokenize 0 cs).toOption) = some lines ∧
        ∀ {done : List Section} {s : Section}, outline.Covers done s →
          List.Forall₂ Represents (done ++ continued outline.implicit s lines)
            next.blocks.toList := by
  induction texts with
  | nil =>
      intro number outline next h
      cases h
      refine ⟨[], rfl, fun hcovers => ?_⟩
      rw [continued_nil]
      exact hcovers.blocks
  | cons cs texts ih =>
      intro number outline next h
      rw [List.zipIdx_cons, List.foldlM_cons] at h
      obtain ⟨middle, hline, h⟩ := bind_eq_ok.mp h
      obtain ⟨line, htokens, hline⟩ := bind_eq_ok.mp hline
      obtain ⟨lines, hlines, hrest⟩ := ih h
      refine ⟨line :: lines, ?_, ?_⟩
      · rw [List.mapM_cons, tokenize_eq_ok htokens, hlines]
        rfl
      · intro done s hcovers
        cases addTokens_reads hline with
        | func hfunc hparams =>
            rw [continued_func hfunc, ← List.append_assoc]
            exact hrest (hcovers.beginBlock (.new _ rfl hparams))
        | line hfunc hcontinues =>
            rw [continued_line hfunc, ← hcontinues.implicit]
            exact hrest ⟨hcontinues.finished ▸ hcovers.finished,
              hcontinues.represents s hcovers.current⟩

/-- The outline of a text that is given as its lines. -/
def read (texts : List (List Char)) : Except Error Outline :=
  (texts.zipIdx 1).foldlM (fun outline (cs, line) => outline.addLine line cs) start

theorem read_represents {texts : List (List Char)} {outline : Outline}
    (h : read texts = .ok outline) :
    ∃ lines, texts.mapM (fun cs => (tokenize 0 cs).toOption) = some lines ∧
      List.Forall₂ Represents (sections lines) outline.blocks.toList := by
  obtain ⟨lines, hlines, hblocks⟩ := fold_covers _ h
  have hstart : start.Covers [] ⟨none, []⟩ := ⟨.nil, .new 1 rfl rfl⟩
  exact ⟨lines, hlines, hblocks hstart⟩

/-- **The first pass finds the sections.**  The blocks of an outline are those of the sections of
the text, in order. -/
theorem blocks_represent {source : String} {outline : Outline}
    (h : Outline.ofSource source = .ok outline) :
    ∃ lines, tokenLines? source = some lines ∧
      List.Forall₂ Represents (sections lines) outline.blocks.toList :=
  read_represents h

end Outline

end RegisterMachine.Assembly
