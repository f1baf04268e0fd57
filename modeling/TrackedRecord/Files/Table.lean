import TrackedRecord.Files.Path
import TrackedRecord.Keyed
import TrackedRecord.Text.Utf8

/-!
# Tables of files

Files and directories by their places. A directory that holds an entry is there itself, and so is every
directory from where paths start upwards. A path is followed name by name, so each of its names has to be
there, also one that `..` takes back.
-/

namespace TrackedRecord.Files

inductive Entry where
  | file (bytes : List UInt8)
  | directory
  deriving DecidableEq, Repr

structure Table where
  entries : List (Place × Entry) := []
  deriving DecidableEq, Repr

namespace Table

/-- The table of the given paths with the directories on the way; later entries come before earlier
ones. -/
def ofList (entries : List (String × Entry)) : Table :=
  ⟨(entries.map fun (path, entry) => (Path.place path, entry)).reverse ++
    (entries.flatMap fun (path, _) => Path.ways path).map fun place => (place, .directory)⟩

def entryAt? (table : Table) (place : Place) : Option Entry :=
  (table.entries.lookup place).or
    (if place.isAbove || table.entries.any (fun entry => place.isPrefixOf entry.1) then some .directory
    else none)

/-- Goes on by one name; only a directory can be left. -/
def step (table : Table) (place : Place) (name : String) : Except Failure Place :=
  if table.entryAt? place ≠ some .directory then .error .notDirectory
  else if Path.maxName < name.utf8ByteSize then .error .nameTooLong
  else if (table.entryAt? (place.enter name)).isNone then .error .notFound
  else .ok (place.enter name)

/-- The entry that a path leads to, with its place. A path that ends in `/` is no file's. -/
def locate (table : Table) (path : String) : Except Failure (Place × Entry) := do
  Path.check path
  let place ← (Path.names path).foldlM table.step (Path.start path)
  match table.entryAt? place with
  | some (.file bytes) => if path.endsWith "/" then throw .notDirectory else return (place, .file bytes)
  | some .directory => return (place, .directory)
  | none => throw .notFound

def find (table : Table) (path : String) : Except Failure Entry :=
  (table.locate path).map (·.2)

def isDirectory (table : Table) (path : String) : Bool :=
  match table.find path with
  | .ok .directory => true
  | _ => false

def readBytes (table : Table) (path : String) : Except Failure (List UInt8) := do
  match ← table.find path with
  | .file bytes => return bytes
  | .directory => throw .isDirectory

def readText (table : Table) (path : String) : Except Failure String := do
  match Utf8.decode? (← table.readBytes path) with
  | some text => return text
  | none => throw .notUtf8

def namesIn (table : Table) (path : String) : List String :=
  match table.locate path with
  | .ok (place, _) =>
    let below := table.entries.filterMap fun entry =>
      if place.isPrefixOf entry.1 then (entry.1.drop place.length).head? else none
    Keyed.keys (Keyed.ofList ((below.filter fun name => name ≠ ".." && name ≠ "/").map fun name => (name, ())))
  | .error _ => []

def join (directory name : String) : String :=
  if directory.endsWith "/" then directory ++ name else directory ++ "/" ++ name

/-- Writes a file; its directory has to be there. -/
def write (table : Table) (path : String) (bytes : List UInt8) : Except Failure Table := do
  Path.check path
  let names := Path.names path
  let directory ← names.dropLast.foldlM table.step (Path.start path)
  if table.entryAt? directory ≠ some .directory then throw .notDirectory
  match names.getLast? with
  | none => throw .isDirectory
  | some name =>
    if name = "." ∨ name = ".." ∨ path.endsWith "/" then throw .isDirectory
    if Path.maxName < name.utf8ByteSize then throw .nameTooLong
    if table.entryAt? (directory.enter name) = some .directory then throw .isDirectory
    return ⟨(directory.enter name, .file bytes) :: table.entries⟩

end Table

end TrackedRecord.Files
