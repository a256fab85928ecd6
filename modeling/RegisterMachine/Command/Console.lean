import RegisterMachine.Log.Basic

/-!
# The outside of a command

What a command asks of the system it runs on, as a class of monads: files, the environment, lines
of input, two streams of output and the clock.  A command is written once for all of them.
-/

namespace RegisterMachine

inductive FileError where
  | notFound
  | isDirectory
  | notDirectory
  | nameTooLong
  | nulInName
  | invalidText
  | other (reason : String)
deriving DecidableEq, Repr

def FileError.message : FileError → String
  | notFound => "No such file or directory (os error 2)"
  | isDirectory => "Is a directory (os error 21)"
  | notDirectory => "Not a directory (os error 20)"
  | nameTooLong => "File name too long (os error 36)"
  | nulInName => "file name contained an unexpected NUL byte"
  | invalidText => "stream did not contain valid UTF-8"
  | other reason => reason

/-- The text that bytes stand for. -/
def decodeText (bytes : List UInt8) : Except FileError String :=
  match String.fromUTF8? ⟨bytes.toArray⟩ with
  | some text => .ok text
  | none => .error .invalidText

inductive Input where
  | line (text : String)
  | endOfInput
  | failure (error : FileError)
deriving DecidableEq, Repr

/-- Bytes without the line feed at their end and a carriage return before it. -/
def dropLineEnd (bytes : List UInt8) : List UInt8 :=
  match bytes.reverse with
  | 10 :: 13 :: line => line.reverse
  | 10 :: line => line.reverse
  | _ => bytes

/-- The line that bytes up to a line feed, or to the end of the input, stand for. -/
def inputLine (bytes : List UInt8) : Input :=
  if bytes.isEmpty then .endOfInput
  else
    match decodeText (dropLineEnd bytes) with
    | .ok text => .line text
    | .error error => .failure error

/-- A system that commands run on. -/
class Console (m : Type → Type) where
  /-- The value of an environment variable. -/
  lookup : String → m (Option String)
  readFile : String → m (Except FileError (List UInt8))
  writeFile : String → List UInt8 → m (Except FileError Unit)
  /-- Whether a path leads to something. -/
  pathExists : String → m Bool
  readLine : m Input
  /-- Writes to standard output. -/
  out : String → m Unit
  /-- Writes to standard error. -/
  err : String → m Unit
  /-- How log lines look at present. -/
  logStyle : m LogStyle

namespace Console

variable {m : Type → Type} [Monad m] [Console m]

def outLine (line : String) : m Unit := out (line ++ "\n")

def log (threshold level : Level) (message : String) : m Unit := do
  let line := logLine (← logStyle) threshold level message
  if line ≠ "" then err line

def readText (path : String) : m (Except FileError String) := do
  return (← readFile path).bind decodeText

/-- The log level that the environment asks for; warns about a value that names none. -/
def logLevel : m Level := do
  match Level.configured .info (← lookup "KORE_LOG") with
  | .ok level => return level
  | .error name =>
    log .info .warn ("Ignoring unknown KORE_LOG level: " ++ name)
    return .info

end Console

end RegisterMachine
