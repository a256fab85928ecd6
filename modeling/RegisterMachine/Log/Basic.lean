import RegisterMachine.Log.Calendar
import RegisterMachine.Text.Blank
import RegisterMachine.Text.Numeral

/-!
# Log lines

A message has a level and is written if its level is at least the threshold.  A line may start
with the time, and its color may depend on its level.
-/

namespace RegisterMachine

inductive Level where
  | debug
  | info
  | warn
  | error
deriving DecidableEq, Repr

/-- A time after the epoch. -/
structure Timestamp where
  seconds : Nat
  nanoseconds : Nat
deriving DecidableEq, Repr

structure LogStyle where
  /-- The time to start lines with. -/
  time : Option Timestamp
  colored : Bool

namespace Level

def text : Level → String
  | debug => "DEBUG"
  | info => "INFO"
  | warn => "WARN"
  | error => "ERROR"

def rank : Level → Nat
  | debug => 0
  | info => 1
  | warn => 2
  | error => 3

/-- The level with a given name, in any case and between blanks. -/
def ofName? (name : String) : Option Level :=
  match Text.asciiLower (Text.trim name) with
  | "debug" => some debug
  | "info" => some info
  | "warn" | "warning" => some warn
  | "error" => some error
  | _ => none

/-- Whether a message is written under a threshold. -/
def isEnabled (threshold level : Level) : Bool := threshold.rank ≤ level.rank

/-- The threshold that the value of a setting asks for; fails with a value that names no level. -/
def configured (threshold : Level) : Option String → Except String Level
  | none => .ok threshold
  | some name =>
    match ofName? name with
    | some level => .ok level
    | none => .error name

def color : Level → String
  | debug => "\x1b[36m"
  | info => ""
  | warn => "\x1b[1m\x1b[33m"
  | error => "\x1b[1m\x1b[31m"

end Level

/-- Whether a terminal may show colors, by the variables that give its type and that forbid
colors. -/
def allowsColor (terminal forbidden : Option String) : Bool :=
  forbidden.isNone && terminal.isSome && terminal != some "dumb"

def resetColor : String := "\x1b[0m"

/-- The time at a number of seconds and nanoseconds from the epoch; one before the epoch counts as
the epoch. -/
def Timestamp.sinceEpoch (seconds : Int) (nanoseconds : Nat) : Timestamp :=
  if seconds < 0 then ⟨0, 0⟩ else ⟨seconds.toNat, nanoseconds⟩

def Timestamp.text (time : Timestamp) : String :=
  let date := Date.ofDays (time.seconds / 86400)
  Text.zeroPadded 4 date.year ++ "-" ++ Text.zeroPadded 2 date.month ++ "-" ++
    Text.zeroPadded 2 date.day ++ " " ++ Text.zeroPadded 2 (time.seconds / 3600 % 24) ++ ":" ++
    Text.zeroPadded 2 (time.seconds / 60 % 60) ++ ":" ++ Text.zeroPadded 2 (time.seconds % 60) ++
    "." ++ Text.zeroPadded 3 (time.nanoseconds / 1000000)

/-- What is written for a message: nothing if its level is below the threshold. -/
def logLine (style : LogStyle) (threshold level : Level) (message : String) : String :=
  if !Level.isEnabled threshold level then ""
  else
    let time := match style.time with
      | some time => time.text ++ " "
      | none => ""
    let line := time ++ "[" ++ level.text ++ "] " ++ message ++ "\n"
    if style.colored then resetColor ++ level.color ++ line ++ resetColor else line

end RegisterMachine
