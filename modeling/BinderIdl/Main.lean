import BinderIdl.CommandLine
import BinderIdl.Log.Time
import Std.Time.DateTime.Timestamp

/-! The program. It looks at the files that the command can reach, lets the
library carry the command out on them, and makes the changes that come of it. -/
namespace BinderIdl.Main

/-- The place of a path from the root. A path that names no files leads nowhere. -/
def placeOf (path : Path) : Place := (path.parts.mapM Text.Loose.bytes?).getD []

/-- What is on the disk at a place. -/
def nodeAt (place : Place) : IO (Option Node) := do
  let path := (← IO.currentDir) / place.path.shown
  if ← path.isDir then return some .folder
  if ← path.pathExists then
    return some (.file (← IO.FS.readBinFile path))
  return none

/-- Take over what is at a place, together with the folders on the way to it. -/
def takePlace (t : FileTree) (place : Place) : IO FileTree := do
  let mut tree := t
  for n in List.range (place.length + 1) do
    let part := place.take n
    if (tree.get? part).isNone then
      match ← nodeAt part with
      | some node => tree := tree.put part node
      | none => return tree
  return tree

/-- Take over everything in a folder. -/
partial def takeFolder (t : FileTree) (place : Place) : IO FileTree := do
  let mut tree ← takePlace t place
  match tree.get? place with
  | some .folder =>
      let path := (← IO.currentDir) / place.path.shown
      for entry in ← path.readDir do
        tree ← takeFolder tree (place ++ [.ofString entry.fileName])
      return tree
  | _ => return tree

/-- Take over what a command can reach. -/
def takeAll (current : Place) (words : List String) : IO FileTree := do
  let mut tree ← takePlace .empty current
  let given := (CommandLine.read? words).getD []
  for g in given do
    match g with
    | .value flag text =>
        let path := CommandLine.resolved current text
        if flag = .folder then tree ← takeFolder tree (placeOf path)
        else tree ← takePlace tree (placeOf path)
        if flag = .config then
          match CommandLine.configOf tree current (some path) with
          | .ok config => tree ← takePlace tree (placeOf (Path.read config.knownTypesFile.asText))
          | .error _ => pure ()
    | _ => pure ()
  return tree

/-- Put a file on the disk in one step. -/
def putFile (place : Place) (content : ByteArray) : IO Unit := do
  let target := place.path
  let name := AtomicWrite.temporaryName target.name 0
  let temporary := (⟨target.root, target.parts.dropLast ++ [name]⟩ : Path).shown
  IO.FS.writeBinFile temporary content
  IO.FS.rename temporary target.shown

/-- Make the changes that lead from one tree to another. -/
def makeChanges (before after : FileTree) : IO Unit := do
  let added := after.nodes.mergeSort fun a b => decide (a.1.length ≤ b.1.length)
  for (place, node) in added do
    match node, before.get? place with
    | .folder, some .folder => pure ()
    | .folder, _ => IO.FS.createDirAll (place.path.shown)
    | .file content, some (.file old) => if content != old then putFile place content
    | .file content, _ => putFile place content
  for (place, _) in before.nodes do
    if (after.get? place).isNone then IO.FS.removeFile (place.path.shown)

/-- How the command is used. -/
def usage : String :=
  "Usage: aidl2 --prefix FOLDER [--update FILE]... [--remove FILE]... [--config FILE] " ++
    "[--log-level LEVEL] [--log-file FILE]\n"

/-- The time of the clock, as the log shows it. -/
def timeNow : IO String := do
  let now ← Std.Time.Timestamp.now
  let milliseconds := now.toMillisecondsSinceUnixEpoch.toInt.toNat
  return Log.timeText (milliseconds / 1000) (milliseconds % 1000)

/-- Carry out a command and give its exit code. -/
def run (words : List String) : IO UInt32 := do
  let current := placeOf (Path.read (← IO.currentDir).toString)
  let environment ← IO.getEnv "AIDL2_LOG_LEVEL"
  let tree ← takeAll current words
  let (ending, w) := CommandLine.run (← timeNow) environment words { tree, current }
  makeChanges tree w.tree
  match ending with
  | .help =>
      IO.print usage
      return 0
  | .misuse =>
      IO.eprint usage
      return 2
  | .finished isFine console =>
      IO.eprint console
      return if isFine then 0 else 1
  | .crashed crash =>
      IO.eprintln crash.message
      return 1

end BinderIdl.Main

/-- Carry out the command that the arguments give. -/
def main (words : List String) : IO UInt32 := BinderIdl.Main.run words
