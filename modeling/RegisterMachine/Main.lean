import RegisterMachine.Command.Compile
import RegisterMachine.Command.Run
import Std.Time.DateTime.Timestamp

/-!
# The program

The commands on the system that the program runs on.  The name that it is called by says which
command it is.
-/

namespace RegisterMachine

/-- Why the system could not do something with a file.  A file where a directory is needed is
reported with the code 20, a name that is too long with the code 36, or with their negatives. -/
def FileError.ofSystem : IO.Error → FileError
  | .noFileOrDirectory .. => .notFound
  | .inappropriateType _ code _ =>
    if code = 20 ∨ -code = 20 then .notDirectory else .isDirectory
  | error@(.invalidArgument _ code _) =>
    if code = 36 ∨ -code = 36 then .nameTooLong else .other (toString error)
  | .permissionDenied .. => .other "Permission denied (os error 13)"
  | error => .other (toString error)

namespace Host

def attempt {α : Type} (action : IO α) : IO (Except FileError α) := do
  match ← action.toBaseIO with
  | .ok a => return .ok a
  | .error error => return .error (.ofSystem error)

/-- The bytes of a line of input and of its end; none at the end of the input. -/
partial def lineBytes (input : IO.FS.Stream) (line : List UInt8) : IO (List UInt8) := do
  match (← input.read 1).toList with
  | [] => return line.reverse
  | byte :: _ =>
    if byte = 10 then return (byte :: line).reverse else lineBytes input (byte :: line)

/-- Asks for a line if the input is a terminal, and reads it. -/
def readLine : IO Input := do
  let input ← IO.getStdin
  if ← input.isTty then
    IO.print "kore> "
    (← IO.getStdout).flush
  return inputLine (← lineBytes input [])

def logStyle : IO LogStyle := do
  let now ← Std.Time.Timestamp.now
  let nanoseconds := now.toNanosecondsSinceUnixEpoch.val
  return {
    time := some (.sinceEpoch (nanoseconds.fdiv 1000000000) (nanoseconds.fmod 1000000000).toNat)
    colored := allowsColor (← IO.getEnv "TERM") (← IO.getEnv "NO_COLOR") }

/-- What the runner counts on: sixteen gibibytes, at sixteen bytes an element. -/
def memory : Memory := .ofCapacity 0x40000000

end Host

instance : Console IO where
  lookup name := IO.getEnv name
  readFile path := Host.attempt do return (← IO.FS.readBinFile path).toList
  writeFile path bytes := Host.attempt (IO.FS.writeBinFile path ⟨bytes.toArray⟩)
  pathExists path := do ((← IO.currentDir) / path).pathExists
  readLine := Host.readLine
  out text := IO.print text
  err text := IO.eprint text
  logStyle := Host.logStyle

end RegisterMachine

def main (arguments : List String) : IO UInt32 := do
  let program := (RegisterMachine.Path.fileName? (← IO.appPath).toString).getD "kore"
  if RegisterMachine.Path.stem program = "kasm" then
    RegisterMachine.Compile.command program arguments
  else RegisterMachine.Run.command RegisterMachine.Host.memory program arguments
