import RegisterMachine.Assembly.Token
import RegisterMachine.Text.Blank
import Std.Data.HashMap

/-!
# Outline of a source text

The first pass over a source text splits it into blocks, one for each function, with the labels
and the instruction lines of each; it also collects the other directives.

- `.func name [params]` starts a function; lines before the first one belong to `main`.
- `.locals n` sets the number of local variables of the present function.
- `.globals n` sets the number of global slots.
- `.entry name` names the function that a run starts in.
- `name:` in front of an instruction, or alone, names the place of the next instruction.
-/

namespace RegisterMachine.Assembly

structure SourceLine where
  number : Nat
  mnemonic : Token
  operands : List Token

structure Block where
  name : String
  paramCount : UInt16
  localCount : UInt16
  /-- Line of the directive that started the block, or one. -/
  line : Nat
  /-- For each label the number of instruction lines before it. -/
  labels : Std.HashMap String Nat
  lines : Array SourceLine

/-- The name of the entry function and where it stands. -/
structure EntryName where
  name : String
  line : Nat
  offset : Nat

/-- What was read of a source text. -/
structure Outline where
  /-- The blocks that are complete. -/
  finished : Array Block
  current : Block
  /-- Whether no function was started by a directive yet. -/
  implicit : Bool
  globalCount : UInt16
  entry : Option EntryName

/-- Name of the function that the lines before the first directive belong to. -/
def implicitName : String := "main"

def Block.new (name : String) (paramCount : UInt16) (line : Nat) : Block :=
  ⟨name, paramCount, 0, line, ∅, #[]⟩

/-- Whether a block holds nothing that matters. -/
def Block.isEmpty (block : Block) : Bool :=
  block.lines.isEmpty && block.labels.isEmpty && block.localCount == 0

/-- Names the place of the next instruction. -/
def Block.defineLabel (block : Block) (name : String) : Except Error Block :=
  if block.labels.contains name then .error (.duplicateLabel name)
  else .ok { block with labels := block.labels.insert name block.lines.size }

/-- The label that a token defines: what stands before the colon at its end. -/
def labelName? (token : String) : Option String :=
  match token.toList.reverse with
  | ':' :: c :: rest => some (String.ofList (c :: rest).reverse)
  | _ => none

namespace Outline

def start : Outline := ⟨#[], .new implicitName 0 1, true, 0, none⟩

def blocks (outline : Outline) : Array Block := outline.finished.push outline.current

/-- Starts the block of a function.  What stands before the first function counts only if there is
something. -/
def beginBlock (outline : Outline) (block : Block) : Outline :=
  { outline with
    finished := if outline.implicit && outline.current.isEmpty then outline.finished
      else outline.blocks
    current := block
    implicit := false }

def argument (line : Nat) (directive : Token) : List Token → Except Error Token
  | token :: _ => .ok token
  | [] => .error (.parse line directive.offset "directive is missing an argument")

/-- Applies a directive without regard to arguments that are too many. -/
def applyDirective (outline : Outline) (line : Nat) (directive : Token) (arguments : List Token) :
    Except Error Outline := do
  match directive.text with
  | ".globals" =>
    let token ← argument line directive arguments
    let globalCount ← atToken line token (number Text.uint16? "global count" token.text)
    return { outline with globalCount }
  | ".locals" =>
    let token ← argument line directive arguments
    let localCount ← atToken line token (number Text.uint16? "local count" token.text)
    return { outline with current := { outline.current with localCount } }
  | ".entry" =>
    let token ← argument line directive arguments
    return { outline with entry := some ⟨token.text, line, token.offset⟩ }
  | ".func" =>
    let name ← argument line directive arguments
    let paramCount ← match arguments with
      | _ :: token :: _ => atToken line token (number Text.uint16? "parameter count" token.text)
      | _ => pure 0
    return outline.beginBlock (.new name.text paramCount line)
  | _ => throw (.parse line directive.offset "unknown directive")

/-- Number of arguments that a directive takes at most. -/
def maxArguments (directive : Token) : Nat := if directive.text = ".func" then 2 else 1

/-- Adds a line that starts with a directive. -/
def addDirective (outline : Outline) (line : Nat) (directive : Token) (arguments : List Token) :
    Except Error Outline := do
  let outline ← outline.applyDirective line directive arguments
  match arguments.getLast? with
  | some last =>
    if maxArguments directive < arguments.length then
      throw (.parse line last.offset "too many directive arguments")
    return outline
  | none => return outline

/-- Adds an instruction line, or nothing if no token is left. -/
def addInstruction (outline : Outline) (line : Nat) : List Token → Outline
  | [] => outline
  | mnemonic :: operands =>
    { outline with
      current := { outline.current with
        lines := outline.current.lines.push ⟨line, mnemonic, operands⟩ } }

def addTokens (outline : Outline) (line : Nat) : List Token → Except Error Outline
  | [] => .ok outline
  | first :: rest =>
    if first.text.toList.head? = some '.' then outline.addDirective line first rest
    else
      match labelName? first.text with
      | some label => do
        let current ← atToken line first (outline.current.defineLabel label)
        return { outline with current }.addInstruction line rest
      | none => .ok (outline.addInstruction line (first :: rest))

def addLine (outline : Outline) (line : Nat) (cs : List Char) : Except Error Outline := do
  outline.addTokens line (← tokenize line cs)

def ofSource (source : String) : Except Error Outline :=
  ((Text.lines source).zipIdx 1).foldlM (fun outline (cs, line) => outline.addLine line cs) start

end Outline

end RegisterMachine.Assembly
