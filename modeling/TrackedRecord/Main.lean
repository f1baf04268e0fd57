import TrackedRecord.Command.Program

/-!
# The outer layer

The files at the paths of a command line are read into a table, the program is run on it, and what came
of the run is handed out.
-/

namespace TrackedRecord.Outer

def entryAt (path : String) : IO (List (String × Files.Entry)) := do
  let place := System.mkFilePath [path]
  if ← place.isDir then return [(path, .directory)]
  else if ← place.pathExists then return [(path, .file (← IO.FS.readBinFile place).toList)]
  else return []

def entriesIn (path : String) : IO (List (String × Files.Entry)) := do
  let place := System.mkFilePath [path]
  if ← place.isDir then
    let entries ← (← place.readDir).toList.mapM fun entry => entryAt (Files.Table.join path entry.fileName)
    return entries.flatten
  else return []

/-- What stands on the way to a path, there, and in a directory that is there. -/
def entriesAround (path : String) : IO (List (String × Files.Entry)) := do
  let names := path.splitOn "/"
  let ways := (List.range names.length).map fun count => "/".intercalate (names.take (count + 1))
  let passed ← (ways.filter fun way => way ≠ "").mapM entryAt
  return passed.flatten ++ (← entriesIn path)

def tableAround (paths : List String) : IO Files.Table := do
  let entries ← paths.mapM entriesAround
  return Files.Table.ofList entries.flatten

def writeBack (files : Files.Table) (path : String) : IO Unit := do
  if let .ok bytes := files.readBytes path then
    IO.FS.writeBinFile (System.mkFilePath [path]) (ByteArray.mk bytes.toArray)

end TrackedRecord.Outer

open TrackedRecord in
def main (words : List String) : IO UInt32 := do
  let command := (Command.Arguments.parse? words).bind Command.Request.command?
  let destination := command.bind Command.destination?
  let files ← Outer.tableAround (((command.map Command.sources).getD []) ++ destination.toList)
  let input ← if command.any Command.hasInput then (← IO.getStdin).readBinToEnd else pure ByteArray.empty
  let outcome := Command.program files words input.toList
  if outcome.exitCode = 0 then
    if let some path := destination then Outer.writeBack outcome.files path
  (← IO.getStdout).putStr outcome.output
  (← IO.getStderr).putStr outcome.messages
  return outcome.exitCode.toUInt32
