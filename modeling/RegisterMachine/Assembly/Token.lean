import RegisterMachine.Error

/-!
# Tokens

A line of assembly is a sequence of tokens with separators between them: commas, blanks, tabs and
carriage returns.  A double quote opens and closes a part of a token in which separators are
ordinary characters.  A `#` outside quotes starts a comment that runs to the end of the line.
-/

namespace RegisterMachine.Assembly

/-- A token and the column of its first byte, counted in bytes from one. -/
structure Token where
  text : String
  offset : Nat
deriving DecidableEq, Repr

/-- A token of which more may follow: its column and its characters, the last one first. -/
structure OpenToken where
  offset : Nat
  chars : List Char

def OpenToken.close (token : OpenToken) : Token :=
  ⟨String.ofList token.chars.reverse, token.offset⟩

def isSeparator (c : Char) : Bool := c == ',' || c == ' ' || c == '\t' || c == '\r'

/-- The tokens after the open one, if any, is closed. -/
def closed (done : Array Token) : Option OpenToken → Array Token
  | none => done
  | some token => done.push token.close

/-- The open token with one more character; `column` is the character's own column. -/
def extended (column : Nat) (c : Char) : Option OpenToken → OpenToken
  | none => ⟨column, [c]⟩
  | some token => { token with chars := c :: token.chars }

/-- The tokens of the rest of a line that starts in `column`, after those in `done`.  Fails with
the column of the token in which a quote is not closed. -/
def scan (column : Nat) (quoted : Bool) (token : Option OpenToken) (done : Array Token) :
    List Char → Except Nat (Array Token)
  | [] =>
    match quoted, token with
    | true, some token => .error token.offset
    | _, token => .ok (closed done token)
  | c :: rest =>
    if c = '#' ∧ !quoted then .ok (closed done token)
    else if isSeparator c ∧ !quoted then scan (column + 1) false none (closed done token) rest
    else
      scan (column + c.utf8Size) (quoted != (c == '"')) (some (extended column c token)) done rest

def tokenize (line : Nat) (cs : List Char) : Except Error (List Token) :=
  match scan 1 false none #[] cs with
  | .ok tokens => .ok tokens.toList
  | .error offset =>
    .error (.parse line offset "unterminated string literal (missing closing quote)")

/-- A failure with the place of the token that it concerns, unless it has a place already. -/
def located (line : Nat) (token : Token) (error : Error) : Error :=
  match error.position? with
  | some _ => error
  | none => .assembly line token.offset error.message

/-- Gives the failures of a computation the place of a token. -/
def atToken {α : Type} (line : Nat) (token : Token) (result : Except Error α) : Except Error α :=
  result.mapError (located line token)

/-- The value of a token that is read as a number. -/
def number {α : Type} (read : String → Option α) (expected token : String) : Except Error α :=
  match read token with
  | some value => .ok value
  | none => .error (.invalidOperand expected token)

end RegisterMachine.Assembly
