import CertSteward.Command.Execute
import CertSteward.Store.FileTree
import Std.Time.DateTime.Timestamp

/-!
# The program

Reads the files and variables that a command needs, executes the command on them, writes the files
that it changed, and prints what there is to tell. What the program does is decided elsewhere.
-/

namespace CertSteward.CommandLine

/-- Adds what is at a place, and what is below it, to a tree. -/
partial def readPlace (tree : FileTree) (p : FilePath) : IO FileTree := do
  let place := System.mkFilePath [p.text]
  if ← place.isDir then
    let tree : FileTree :=
      if p.length < 2 then tree else ⟨(p, .directory FileTree.directoryMode false) :: tree.entries⟩
    (← place.readDir).foldlM (fun tree e => readPlace tree (p ++ [e.fileName])) tree
  else if ← place.pathExists then
    let content ← IO.FS.readBinFile place
    return ⟨(p, .file content.toList FileTree.fileMode) :: tree.entries⟩
  else return tree

/-- Adds the directories above a place to a tree. -/
def readAbove (tree : FileTree) (p : FilePath) : IO FileTree :=
  (List.range (p.length - 2)).foldlM (fun tree n => do
    let above : FilePath := p.take (n + 2)
    let place := System.mkFilePath [above.text]
    if tree.holds above then return tree
    else if ← place.isDir then
      return ⟨(above, .directory FileTree.directoryMode false) :: tree.entries⟩
    else if ← place.pathExists then
      return ⟨(above, .file [] FileTree.fileMode) :: tree.entries⟩
    else return tree) tree

/-- Adds the places of paths to a tree. -/
def readPaths (tree : FileTree) (directory : FilePath) (paths : List String) : IO FileTree :=
  paths.foldlM (fun tree path => do
    let p := FilePath.resolve directory path
    if tree.holds p then return tree
    readPlace (← readAbove tree p) p) tree

/-- Makes a change on the disk. -/
def makeChange : FileChange → IO Unit
  | .remove p isDirectory =>
    if isDirectory then IO.FS.removeDir p.text else IO.FS.removeFile p.text
  | .makeDirectory p mode => do
    IO.FS.createDir p.text
    IO.Prim.setAccessRights p.text mode.toUInt32
  | .write p content mode => do
    IO.FS.writeBinFile p.text ⟨content.toArray⟩
    IO.Prim.setAccessRights p.text mode.toUInt32
  | .restrict p mode => IO.Prim.setAccessRights p.text mode.toUInt32

/-- What the clock shows. -/
def readWallClock : IO Instant := do
  let t := (← Std.Time.Timestamp.now).toNanosecondsSinceUnixEpoch.val
  return { seconds := t / 1000000000, nanos := (t % 1000000000).toNat }

/-- The values of variables. -/
def readVariables (names : List String) : IO (String → Option String) := do
  let values ← names.filterMapM fun name => do return (← IO.getEnv name).map (name, ·)
  return fun name => values.lookup name

/-- What a command with a configuration finds. -/
def readHost (i : Invocation) : IO Host := do
  let directory := FilePath.ofText (← IO.currentDir).toString
  let wall ← readWallClock
  let seed := (← IO.getRandomBytes 32).toList
  let files ← readPaths {} directory (i.config.toList ++ Host.commandPaths i.command)
  let h : Host := { files, directory, wall, seed }
  match h.loadConfig i.config with
  | .error _ => return h
  | .ok c =>
    let environment ← readVariables (Host.configVariables c)
    return { h with files := ← readPaths files directory (Host.configPaths c), environment }

/-- Writes what was changed, and prints what there is to tell. -/
def finish (h : Host) (ending : Ending) : IO UInt32 := do
  (h.files.changesTo ending.files).forM makeChange
  IO.print ending.out
  IO.eprint ending.err
  return ending.code.toUInt32

/-- Sweeps again and again. -/
partial def watch (i : Invocation) (w : Watch) (isDue : Bool) : IO UInt32 := do
  if isDue then
    let h ← readHost i
    let (w, files) := w.sweep h
    (h.files.changesTo files).forM makeChange
    watch i w false
  else
    IO.sleep (w.interval / 1000000).toUInt32
    watch i w true

/-- Executes a command. -/
def execute (i : Invocation) : IO UInt32 := do
  let h ← readHost i
  if i.command = .run then
    if let .ok w := h.startWatch i.config then
      return ← watch i w w.service.practice.runOnStart
  finish h (h.execute i)

end CertSteward.CommandLine

open CertSteward in
/-- Does what the arguments ask for. -/
def main (arguments : List String) : IO UInt32 := do
  let environment ← CommandLine.readVariables ["CERTKEEPER_CONFIG", "CERTKEEPER_EXPORT_PASSPHRASE"]
  match Invocation.read arguments environment with
  | .ok (.invocation i) => CommandLine.execute i
  | _ =>
    let h : Host := { wall := ← CommandLine.readWallClock, seed := [], environment }
    CommandLine.finish h (h.serve arguments)
