import RegisterMachine.Command.Console

/-!
# A small world

A system that lives in memory: a working directory with files and directories in it, an
environment and an input, and what was written.  Commands that run in it are plain functions.
-/

namespace RegisterMachine

/-- The state of the system.  A place is given by the names that lead to it: from the working
directory, with `..` in front for each directory that it lies above, or from the root, which is
called `/`. -/
structure World where
  files : List (List String × List UInt8)
  directories : List (List String)
  environment : List (String × String)
  input : List UInt8
  out : String
  err : String

inductive Entry where
  | file (bytes : List UInt8)
  | directory
  | nothing

namespace World

def empty : World := ⟨[], [], [], [], "", ""⟩

/-- Whether a place is the root, or the working directory or a directory above it.  These are always
there. -/
def isAbove (place : List String) : Bool := place = ["/"] || place.all (· = "..")

/-- What stands at a place. -/
def entry (world : World) (place : List String) : Entry :=
  match world.files.lookup place with
  | some bytes => .file bytes
  | none => if isAbove place ∨ place ∈ world.directories then .directory else .nothing

/-- The place of a name in a directory. -/
def child (here : List String) (name : String) : List String :=
  match name with
  | "." => here
  | ".." =>
    if here = ["/"] then here
    else if isAbove here then here ++ [".."]
    else here.dropLast
  | _ => here ++ [name]

def longestName : Nat := 255

def longestPath : Nat := 4095

/-- Fails unless a directory stands at the place. -/
def needDirectory (world : World) (place : List String) : Except FileError Unit :=
  match world.entry place with
  | .directory => .ok ()
  | .file _ => .error .notDirectory
  | .nothing => .error .notFound

/-- Follows names from a place on.  Whatever has a name after it must be a directory. -/
def follow (world : World) : List String → List String → Except FileError (List String)
  | here, [] => .ok here
  | here, name :: rest => do
    world.needDirectory here
    if longestName < name.utf8ByteSize then throw .nameTooLong
    world.follow (child here name) rest

/-- Where a path starts, and the names in it. -/
def route (path : String) : Except FileError (List String × List String) :=
  if path.toList.contains '\x00' then .error .nulInName
  else if longestPath < path.utf8ByteSize then .error .nameTooLong
  else if path = "" then .error .notFound
  else
    let start := if path.toList.head? = some '/' then ["/"] else []
    .ok (start, ((path.toList.splitOn '/').filter (· ≠ [])).map String.ofList)

def resolve (world : World) (path : String) : Except FileError (List String) := do
  let (start, names) ← route path
  world.follow start names

/-- Whether a path can only mean a directory. -/
def demandsDirectory (path : String) : Bool := path.toList.getLast? = some '/'

def read (world : World) (path : String) : Except FileError (List UInt8) := do
  match world.entry (← world.resolve path) with
  | .file bytes => if demandsDirectory path then throw .notDirectory else return bytes
  | .directory => throw .isDirectory
  | .nothing => throw .notFound

def setFile (world : World) (place : List String) (bytes : List UInt8) : World :=
  { world with files := (place, bytes) :: world.files.filter (·.1 ≠ place) }

/-- Makes a directory and those on the way to it. -/
def makeDirectory (world : World) (place : List String) : World :=
  let made := (List.range (place.length + 1)).map place.take
  { world with directories := made ++ world.directories }

/-- Writes a file.  A path that can only mean a directory is refused once the names before its last
one have been followed, whatever the last one names. -/
def write (world : World) (path : String) (bytes : List UInt8) : Except FileError World := do
  let (start, names) ← route path
  if demandsDirectory path then
    world.needDirectory (← world.follow start names.dropLast)
    throw .isDirectory
  let place ← world.follow start names
  match world.entry place with
  | .directory => throw .isDirectory
  | _ => return world.setFile place bytes

/-- Whether a path leads to something. -/
def leadsSomewhere (world : World) (path : String) : Bool :=
  match world.resolve path with
  | .error _ => false
  | .ok place =>
    match world.entry place with
    | .file _ => !demandsDirectory path
    | .directory => true
    | .nothing => false

/-- The bytes up to the first line feed, which is included, and the bytes after it. -/
def splitLine (line : List UInt8) : List UInt8 → List UInt8 × List UInt8
  | [] => (line.reverse, [])
  | byte :: rest =>
    if byte = 10 then ((byte :: line).reverse, rest) else splitLine (byte :: line) rest

def nextLine (world : World) : Input × World :=
  let (line, rest) := splitLine [] world.input
  (inputLine line, { world with input := rest })

end World

abbrev InWorld := StateM World

instance : Console InWorld where
  lookup name := do return (← get).environment.lookup name
  readFile path := do return (← get).read path
  writeFile path bytes := do
    match (← get).write path bytes with
    | .ok world =>
      set world
      return .ok ()
    | .error error => return .error error
  pathExists path := do return (← get).leadsSomewhere path
  readLine := modifyGet World.nextLine
  out text := modify fun world => { world with out := world.out ++ text }
  err text := modify fun world => { world with err := world.err ++ text }
  logStyle := return ⟨none, false⟩

end RegisterMachine
