import TermSearch.CommandLine.Execute

namespace TermSearch.CommandLine

/-! The program on the real file system. A run looks at settings files only:
those in the working directory, in the home directory and in the directories
above. They are read before it, and what it has changed is written after it. -/

def entryAt? (path : Path) : IO (Option Entry) := do
  let place := (← IO.currentDir) / path.text
  if ← place.isDir then
    pure (some .directory)
  else if ← place.pathExists then
    try
      pure (some (.file (← IO.FS.readBinFile place)))
    catch _ =>
      pure (some .closed)
  else
    pure none

def entriesAt : List Path → IO (List (Path × Entry))
  | [] => pure []
  | path :: paths => do
      let rest ← entriesAt paths
      pure (((← entryAt? path).map fun entry => (path, entry)).toList ++ rest)

def isSameFile : Option Entry → Option Entry → Bool
  | some (.file before), some (.file after) => before == after
  | _, some (.file _) => false
  | _, _ => true

/-- Writes the files at the paths that are not as before. -/
def writeChanges (before after : FileTree) : List Path → IO Unit
  | [] => pure ()
  | path :: paths => do
      match after.find? path with
      | some (.file content) =>
          unless isSameFile (before.find? path) (after.find? path) do
            IO.FS.writeBinFile path.text content
      | _ => pure ()
      writeChanges before after paths

def runProgram (arguments : List String) : IO UInt32 := do
  let directory := Path.ofAbsolute (← IO.currentDir).toString
  let home :=
    ((← IO.getEnv "HOME").filter fun home => !home.isEmpty).map Path.ofAbsolute
  let directories :=
    (directory.ancestors ++ (home.map Path.ancestors).getD []).eraseDups
  let settingsFiles :=
    directories.map fun directory => directory.child settingsFileName
  let tree := FileTree.ofEntries (← entriesAt (directories ++ settingsFiles))
  let readsInput := (Invocation.ofArguments? arguments).any fun invocation =>
    invocation.command.readsInput
  let input ←
    if readsInput then (← IO.getStdin).readBinToEnd
    else pure ByteArray.empty
  let outcome := execute arguments ⟨tree, directory, home, input⟩
  try
    writeChanges tree outcome.tree settingsFiles
  catch error =>
    (← IO.getStderr).putStr ("error: " ++ toString error ++ "\n")
    return Status.failure.code.toUInt32
  (← IO.getStdout).putStr outcome.output
  (← IO.getStderr).putStr outcome.errors
  return outcome.status.code.toUInt32

end TermSearch.CommandLine

def main (arguments : List String) : IO UInt32 :=
  TermSearch.CommandLine.runProgram arguments
