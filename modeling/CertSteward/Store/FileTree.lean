import CertSteward.Bytes.Unicode
import CertSteward.Text.Chars

/-!
# A tree of files

The files and directories that the program keeps its records in, as a value. Every action on the
tree either succeeds or fails with a cause and leaves the tree as it was.

What has to be done to files so that they are as another tree says can be worked out. Files are
removed first, what is below a directory before the directory; then directories are made before what
is in them.

## Main definitions

* `FilePath`, `FilePath.ofText`, `FilePath.resolve` — where a file is
* `FileTree.locate` — what is at a path
* `FileTree.makeDirectories`, `FileTree.write`, `FileTree.restrict`, `FileTree.removeFile`,
  `FileTree.removeAll` — the actions
* `FileTree.read`, `FileTree.readText?`, `FileTree.children` — what can be seen
* `FileChange`, `FileTree.changesTo` — the changes from one tree to another
-/

namespace CertSteward

/-- The parts of a path from the top. An absolute path starts with the part `/`. -/
abbrev FilePath := List String

namespace FilePath

/-- The parts of a written path. -/
def ofText (s : String) : FilePath :=
  let parts := (Chars.splitOn '/' s.toList).filter fun p => p ≠ [] ∧ p ≠ ['.']
  let parts := parts.map String.ofList
  if s.toList.head? = some '/' then "/" :: parts else parts

/-- A written path as seen from a directory. -/
def resolve (directory : FilePath) (s : String) : FilePath :=
  if s.toList.head? = some '/' then ofText s else directory ++ ofText s

end FilePath

/-- Why an action on files fails. -/
inductive FileFault
  /-- There is nothing at the path. -/
  | missing
  /-- A part of the path that should be a directory is none. -/
  | notDirectory
  /-- There is a directory where a file should be. -/
  | isDirectory
  /-- There is a file where a directory should be made. -/
  | taken
  /-- A part of the path is longer than a name may be. -/
  | nameTooLong
  /-- The path has a zero byte in it. -/
  | zeroInPath
  /-- The bytes of the file are no text. -/
  | notText
deriving DecidableEq, Repr

/-- The wording of a fault. -/
def FileFault.message : FileFault → String
  | .missing => "No such file or directory (os error 2)"
  | .notDirectory => "Not a directory (os error 20)"
  | .isDirectory => "Is a directory (os error 21)"
  | .taken => "File exists (os error 17)"
  | .nameTooLong => "File name too long (os error 36)"
  | .zeroInPath => "file name contained an unexpected NUL byte"
  | .notText => "stream did not contain valid UTF-8"

/-- A file or a directory, with the bits that say who may use it. -/
inductive FileEntry
  | file (content : List UInt8) (mode : Nat)
  /-- A directory; nothing can be made in a sealed one. -/
  | directory (mode : Nat) (isSealed : Bool)
deriving DecidableEq, Repr

namespace FileEntry

/-- Who may use it. -/
def mode : FileEntry → Nat
  | file _ m => m
  | directory m _ => m

/-- The entry with other bits for who may use it. -/
def withMode (m : Nat) : FileEntry → FileEntry
  | file c _ => file c m
  | directory _ s => directory m s

/-- Whether it is a directory. -/
def isDirectory : FileEntry → Bool
  | file .. => false
  | directory .. => true

end FileEntry

/-- Files and directories by their paths, the newest first. The top is a directory that has no
entry of its own. -/
structure FileTree where
  entries : List (FilePath × FileEntry) := []
deriving DecidableEq, Repr

namespace FileTree

/-- The mode of a new file. -/
def fileMode : Nat := 0o644

/-- The mode of a new directory. -/
def directoryMode : Nat := 0o755

/-- The entry with that path. -/
def entry? (t : FileTree) (p : FilePath) : Option FileEntry :=
  if p = [] ∨ p = ["/"] then some (.directory directoryMode false) else t.entries.lookup p

/-- How many bytes the name of a file may have. -/
def nameLimit : Nat := 255

/-- What is found on the way down from an entry. -/
def descend (t : FileTree) (done : FilePath) (e : FileEntry) :
    FilePath → Except FileFault FileEntry
  | [] => .ok e
  | part :: rest =>
    if !e.isDirectory then .error .notDirectory
    else if nameLimit < part.utf8ByteSize then .error .nameTooLong
    else
      match t.entry? (done ++ [part]) with
      | some next => t.descend (done ++ [part]) next rest
      | none => .error .missing

/-- What is at a path. -/
def locate (t : FileTree) (p : FilePath) : Except FileFault FileEntry :=
  if p.any (·.toList.contains '\x00') then .error .zeroInPath
  else t.descend [] (.directory directoryMode false) p

/-- Whether there is something at a path. -/
def holds (t : FileTree) (p : FilePath) : Bool :=
  match t.locate p with
  | .ok _ => true
  | .error _ => false

/-- Puts a new entry into the directory above it. -/
def insertNew (t : FileTree) (p : FilePath) (e : FileEntry) : Except FileFault FileTree :=
  match t.locate p.dropLast with
  | .ok (.directory _ false) => .ok ⟨(p, e) :: t.entries⟩
  | .ok (.directory _ true) => .error .missing
  | .ok (.file ..) => .error .notDirectory
  | .error fault => .error fault

/-- Changes the entry with that path. -/
def change (t : FileTree) (p : FilePath) (f : FileEntry → FileEntry) : FileTree :=
  ⟨t.entries.map fun (q, e) => if q = p then (q, f e) else (q, e)⟩

/-- Makes a directory, unless it is there. -/
def makeDirectory (t : FileTree) (p : FilePath) : Except FileFault FileTree :=
  match t.locate p with
  | .ok (.directory ..) => .ok t
  | .ok (.file ..) => .error .taken
  | .error .missing => t.insertNew p (.directory directoryMode false)
  | .error fault => .error fault

/-- Makes the directories on the way down from one that is there. -/
def makeBelow (t : FileTree) (done : FilePath) : FilePath → Except FileFault FileTree
  | [] => .ok t
  | part :: rest => do (← t.makeDirectory (done ++ [part])).makeBelow (done ++ [part]) rest

/-- Makes a directory and those above it, as far as they are not there. -/
def makeDirectories (t : FileTree) (p : FilePath) : Except FileFault FileTree :=
  match t.locate p with
  | .ok (.directory ..) => .ok t
  | .ok (.file ..) => .error .taken
  | .error .missing => t.makeBelow [] p
  | .error fault => .error fault

/-- Gives a file its content. -/
def write (t : FileTree) (p : FilePath) (content : List UInt8) : Except FileFault FileTree :=
  match t.locate p with
  | .ok (.file ..) => .ok (t.change p fun e => .file content e.mode)
  | .ok (.directory ..) => .error .isDirectory
  | .error .missing => t.insertNew p (.file content fileMode)
  | .error fault => .error fault

/-- Says who may use what is at a path. -/
def restrict (t : FileTree) (p : FilePath) (mode : Nat) : Except FileFault FileTree :=
  match t.locate p with
  | .ok _ => .ok (t.change p (·.withMode mode))
  | .error fault => .error fault

/-- Removes a file. -/
def removeFile (t : FileTree) (p : FilePath) : Except FileFault FileTree :=
  match t.locate p with
  | .ok (.file ..) => .ok ⟨t.entries.filter fun (q, _) => q ≠ p⟩
  | .ok (.directory ..) => .error .isDirectory
  | .error fault => .error fault

/-- The tree without what is at a path and below it. -/
def without (t : FileTree) (p : FilePath) : FileTree :=
  ⟨t.entries.filter fun (q, _) => !p.isPrefixOf q⟩

/-- Removes a directory with all that is in it. -/
def removeAll (t : FileTree) (p : FilePath) : Except FileFault FileTree :=
  match t.locate p with
  | .ok (.directory ..) => .ok (t.without p)
  | .ok (.file ..) => .error .notDirectory
  | .error fault => .error fault

/-- The bytes of a file. -/
def read (t : FileTree) (p : FilePath) : Except FileFault (List UInt8) :=
  match t.locate p with
  | .ok (.file content _) => .ok content
  | .ok (.directory ..) => .error .isDirectory
  | .error fault => .error fault

/-- The text of a file. -/
def readText (t : FileTree) (p : FilePath) : Except FileFault String := do
  match Utf8.decode? (← t.read p) with
  | some text => .ok text
  | none => .error .notText

/-- The text of a file that may be missing. -/
def readText? (t : FileTree) (p : FilePath) : Except FileFault (Option String) :=
  match t.readText p with
  | .ok text => .ok (some text)
  | .error .missing => .ok none
  | .error fault => .error fault

/-- What is right below a path, with its names. -/
def below (t : FileTree) (p : FilePath) : List (String × FileEntry) :=
  t.entries.filterMap fun (q, e) =>
    match q.getLast? with
    | some name => if q.dropLast = p then some (name, e) else none
    | none => none

/-- What is right in a directory, with its names, the newest first. -/
def children (t : FileTree) (p : FilePath) : Except FileFault (List (String × FileEntry)) :=
  match t.locate p with
  | .ok (.directory ..) => .ok (t.below p)
  | .ok (.file ..) => .error .notDirectory
  | .error fault => .error fault

end FileTree

/-! ### Changes -/

/-- A change of one file or directory. -/
inductive FileChange
  | remove (path : FilePath) (isDirectory : Bool)
  | makeDirectory (path : FilePath) (mode : Nat)
  | write (path : FilePath) (content : List UInt8) (mode : Nat)
  /-- Says who may use it. -/
  | restrict (path : FilePath) (mode : Nat)
deriving DecidableEq, Repr

/-- Makes an entry what it is, where there was nothing or something of its kind. -/
def FileChange.make (p : FilePath) (e : FileEntry) (before : Option FileEntry) : FileChange :=
  match e, before with
  | .file content mode, some (.file old _) =>
    if content = old then .restrict p mode else .write p content mode
  | .file content mode, _ => .write p content mode
  | .directory mode _, some (.directory ..) => .restrict p mode
  | .directory mode _, _ => .makeDirectory p mode

/-- A written path. -/
def FilePath.text (p : FilePath) : String :=
  match p with
  | "/" :: parts => "/" ++ Text.join "/" parts
  | parts => Text.join "/" parts

namespace FileTree

/-- What of a tree is not in another one. -/
def removalsTo (old new : FileTree) : List FileChange :=
  (old.entries.filter fun (p, e) =>
    ((new.entries.lookup p).map FileEntry.isDirectory) ≠ some e.isDirectory).map fun (p, e) =>
      .remove p e.isDirectory

/-- What of a tree is new or other than in another one. -/
def makingsFrom (new old : FileTree) : List FileChange :=
  (new.entries.reverse.filter fun (p, e) => old.entries.lookup p ≠ some e).map fun (p, e) =>
    .make p e (old.entries.lookup p)

/-- What has to be done so that files are as another tree says. -/
def changesTo (old new : FileTree) : List FileChange := old.removalsTo new ++ new.makingsFrom old

end FileTree

end CertSteward
