import RegisterMachine.Assembly.Assemble
import RegisterMachine.Command.Console
import RegisterMachine.Program.File

/-!
# Paths and program files

Paths are texts with slashes between their components.  A component `.` other than the first one,
and slashes at the end or next to each other, mean nothing.  Programs are loaded from files, saved
in files and assembled from them.
-/

namespace RegisterMachine.Path

/-- Drops slashes and `.` components at the end of a path that is given last character first.  A
leading slash or `.` stays. -/
def dropEnd : List Char → List Char
  | '/' :: c :: rest => dropEnd (c :: rest)
  | '.' :: '/' :: rest => dropEnd ('/' :: rest)
  | path => path

/-- The path without its last component; `none` if it has none. -/
def parent? (path : String) : Option String :=
  match dropEnd path.toList.reverse with
  | [] => none
  | ['/'] => none
  | cs => some (String.ofList (dropEnd (cs.dropWhile (· != '/'))).reverse)

/-- The last component, if it is a name. -/
def fileName? (path : String) : Option String :=
  let name := String.ofList ((dropEnd path.toList.reverse).takeWhile (· != '/')).reverse
  if name = "" ∨ name = "." ∨ name = ".." then none else some name

/-- A file name without its extension, which starts at the last point unless that is its first
character. -/
def stem (name : String) : String :=
  match name.toList.reverse.dropWhile (· != '.') with
  | '.' :: c :: rest => String.ofList (c :: rest).reverse
  | _ => name

/-- A name in a directory. -/
def join (directory name : String) : String :=
  if directory = "" then name
  else if directory.toList.getLast? = some '/' then directory ++ name
  else directory ++ "/" ++ name

end RegisterMachine.Path

namespace RegisterMachine

def FileError.toError (error : FileError) : Error := .io error.message

variable {m : Type → Type} [Monad m] [Console m]

def Program.loadFile (path : String) : m (Except Error Program) := do
  match ← Console.readFile path with
  | .ok bytes => return Program.ofBytes bytes
  | .error error => return .error error.toError

def Program.saveFile (program : Program) (path : String) : m (Except Error Unit) := do
  match ← Console.writeFile path program.toBytes with
  | .ok () => return .ok ()
  | .error error => return .error error.toError

/-- Assembles a file; its functions carry the path. -/
def Assembly.assembleFile (path : String) : m (Except Error Program) := do
  match ← Console.readText path with
  | .ok source => return assemble source path
  | .error error => return .error error.toError

end RegisterMachine
