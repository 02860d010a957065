import BlockGraph.CommandLine.Run

/-!
The program. It copies the files that its arguments name into storage, runs the command line on
it, prints what the run prints, and writes the file that the run has saved.
-/

set_option autoImplicit false

namespace BlockGraph.Program

/-- What stands at a place of the file system. -/
def probe (place : Place) : IO (Option Node) := do
  let path := (← IO.currentDir) / ("/" ++ Storage.key place)
  if ← path.isDir then return some .directory
  try
    return some (.file (.bytes (← IO.FS.readBinFile path)))
  catch _ => return none

/-- Copies what stands along a path. -/
def survey (storage : Storage) (path : String) : IO Storage := do
  let mut storage := storage
  let mut place := storage.start path
  for part in Path.parts path do
    let some next := storage.enter? place part | return storage
    place := next
    if let some node ← probe place then
      storage := storage.insert place node
  return storage

/-- Writes the file at a path, with the directories above it. -/
def commit (storage : Storage) (path : String) : IO Unit := do
  let some place := storage.locate? path | return ()
  let some (.file contents) := storage.node? place | return ()
  IO.FS.createDirAll ("/" ++ Storage.key place.dropLast)
  IO.FS.writeBinFile ("/" ++ Storage.key place) contents.toBytes

def refuse (fault : CommandLine.UsageFault) : IO UInt32 := do
  match fault.message? with
  | none =>
    IO.println CommandLine.helpText
    return 0
  | some message =>
    IO.eprintln s!"error: {message}"
    IO.eprintln CommandLine.helpText
    return 2

def execute (arguments : CommandLine.Arguments) : IO UInt32 := do
  let home := Path.steps (← IO.currentDir).toString
  let paths := arguments.input :: (arguments.commands.toList ++ arguments.save.toList)
  let storage ← paths.foldlM survey (Storage.ofHome home)
  match CommandLine.run arguments { storage := storage } with
  | .ok _ console =>
    IO.eprint console.notices
    IO.print console.output
    arguments.save.forM (commit console.storage)
    return 0
  | .error failure console =>
    IO.eprint console.notices
    IO.print console.output
    IO.eprintln s!"Error: {failure.message}"
    return 1

end BlockGraph.Program

def main (arguments : List String) : IO UInt32 :=
  match BlockGraph.CommandLine.parse arguments with
  | .error fault => BlockGraph.Program.refuse fault
  | .ok parsed => BlockGraph.Program.execute parsed
