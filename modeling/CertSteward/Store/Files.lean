import CertSteward.Record.Stored
import CertSteward.Store.FileTree

/-!
# A store in files

Below the base of the store there is a directory `records` with one directory for each record,
named like the record. In it `record.json` holds the record, and `cert.pem`, `chain.pem` and
`key.pem` its texts as far as they are not empty; the key is read back from there. The account is
in `credentials.json`. Only the owner may use the directories, the keys and the account.

Saving is a sequence of steps. The first that fails ends it, and what the steps before it did stays
done.

## Main definitions

* `StoreError`, `StoreError.message` — why a store fails
* `FileStore` — the tree and where in it the store is
* `FileStore.isStorable` — which names a record may have
* `FileStore.saveSteps`, `FileStore.save`, `FileStore.load`, `FileStore.list`, `FileStore.delete`
-/

namespace CertSteward

/-- Why a store fails. -/
inductive StoreError
  /-- An action on its files failed. -/
  | file (fault : FileFault)
  /-- A stored text is no record. -/
  | unreadable
  /-- There is no such record. -/
  | notFound (id : String)
  /-- A record cannot be stored under that name. -/
  | invalidId (id : String)
deriving DecidableEq, Repr

namespace StoreError

/-- The wording. -/
def message : StoreError → String
  | file fault => "IO error: " ++ fault.message
  | unreadable => "Serialization error: the text is no record"
  | notFound id => "Certificate record not found: " ++ id
  | invalidId id => "Invalid storage structure: invalid record id '" ++ id ++ "'"

/-- The wordings of the error and of what is behind it. -/
def chain : StoreError → List String
  | file fault => [(file fault).message, fault.message]
  | e => [e.message]

end StoreError

/-- A store in files. -/
structure FileStore where
  tree : FileTree := {}
  /-- The directory of the store. -/
  base : FilePath
deriving DecidableEq

/-- One action on a tree of files. -/
inductive FileStep
  | makeDirectories (path : FilePath)
  | write (path : FilePath) (content : String)
  | restrict (path : FilePath) (mode : Nat)
  /-- Removes a file if it is there. -/
  | clear (path : FilePath)
deriving DecidableEq, Repr

namespace FileStep

/-- Does the action. -/
def run (t : FileTree) : FileStep → Except FileFault FileTree
  | makeDirectories p => t.makeDirectories p
  | write p content => t.write p (Utf8.encode content)
  | restrict p mode => t.restrict p mode
  | clear p => if t.holds p then t.removeFile p else .ok t

/-- Does actions until one fails. -/
def runAll (t : FileTree) : List FileStep → Except FileFault Unit × FileTree
  | [] => (.ok (), t)
  | step :: steps =>
    match step.run t with
    | .ok t => runAll t steps
    | .error fault => (.error fault, t)

end FileStep

namespace FileStore

/-- The mode of directories and of files that only their owner may use. -/
def ownDirectory : Nat := 0o700
/-- The mode of a file that only its owner may use. -/
def ownFile : Nat := 0o600

/-- Where the records are. -/
def recordsPath (s : FileStore) : FilePath := s.base ++ ["records"]

/-- Where the account is. -/
def accountPath (s : FileStore) : FilePath := s.base ++ ["credentials.json"]

/-- Makes the directories of a store. -/
def openAt (tree : FileTree) (base : FilePath) : Except StoreError Unit × FileStore :=
  let s : FileStore := { tree, base }
  let (result, tree) := FileStep.runAll tree
    [.makeDirectories s.recordsPath, .restrict base ownDirectory,
      .restrict s.recordsPath ownDirectory]
  (result.mapError .file, { s with tree })

/-- A record may be stored under a name of letters, digits, `_` and `-`. -/
def isStorable (id : String) : Bool :=
  !id.isEmpty && id.toList.all fun c => Chars.isAlnum c || c == '_' || c == '-'

/-- Where a record is. -/
def recordPath (s : FileStore) (id : String) : Except StoreError FilePath :=
  if isStorable id then .ok (s.recordsPath ++ [id]) else .error (.invalidId id)

/-- Keeps a text in a file of its own unless it is empty. -/
def keepText (path : FilePath) (content : String) : List FileStep :=
  if content.isEmpty then [.clear path] else [.write path content]

/-- Keeps a text in a file that only its owner may use unless it is empty. -/
def keepSecret (path : FilePath) (content : String) : List FileStep :=
  if content.isEmpty then [.clear path] else [.write path content, .restrict path ownFile]

/-- What has to be done to save a record in a directory. -/
def saveSteps (directory : FilePath) (r : CertificateRecord) : List FileStep :=
  [.makeDirectories directory, .write (directory ++ ["record.json"]) r.toJson.pretty] ++
    keepText (directory ++ ["cert.pem"]) r.certificate ++
    keepText (directory ++ ["chain.pem"]) r.chain ++
    keepSecret (directory ++ ["key.pem"]) r.key.text

/-- Saves a record. -/
def save (s : FileStore) (r : CertificateRecord) : Except StoreError Unit × FileStore :=
  match s.recordPath r.id with
  | .error e => (.error e, s)
  | .ok directory =>
    let (result, tree) := FileStep.runAll s.tree (saveSteps directory r)
    (result.mapError .file, { s with tree })

/-- The record in a directory, if there is one. -/
def recordIn (t : FileTree) (directory : FilePath) :
    Except StoreError (Option CertificateRecord) := do
  match ← (t.readText? (directory ++ ["record.json"])).mapError .file with
  | none => return none
  | some text =>
    match CertificateRecord.ofText? text with
    | none => throw .unreadable
    | some r =>
      match ← (t.readText? (directory ++ ["key.pem"])).mapError .file with
      | some key => return some (r.attachKey ⟨key⟩)
      | none => return some r

/-- The record with that name. -/
def load (s : FileStore) (id : String) : Except StoreError (Option CertificateRecord) :=
  match s.recordPath id with
  | .ok directory => recordIn s.tree directory
  | .error _ => .ok none

/-- The record in a directory, if there is one that can be read. -/
def readable? (s : FileStore) (child : String × FileEntry) : Option CertificateRecord :=
  if child.2.isDirectory then
    match recordIn s.tree (s.recordsPath ++ [child.1]) with
    | .ok found => found
    | .error _ => none
  else none

/-- The records that can be read, the newest directory first. -/
def list (s : FileStore) : Except StoreError (List CertificateRecord) :=
  if s.tree.holds s.recordsPath then
    match s.tree.children s.recordsPath with
    | .ok found => .ok (found.filterMap s.readable?)
    | .error fault => .error (.file fault)
  else .ok []

/-- Removes the record with that name and says whether there was one. -/
def delete (s : FileStore) (id : String) : Except StoreError Bool × FileStore :=
  match s.recordPath id with
  | .error e => (.error e, s)
  | .ok directory =>
    if s.tree.holds directory then
      match s.tree.removeAll directory with
      | .ok tree => (.ok true, { s with tree })
      | .error fault => (.error (.file fault), s)
    else (.ok false, s)

/-- The account. -/
def account (s : FileStore) : Except StoreError (Option String) :=
  (s.tree.readText? s.accountPath).mapError .file

/-- Saves the account. -/
def saveAccount (s : FileStore) (text : String) : Except StoreError Unit × FileStore :=
  let (result, tree) := FileStep.runAll s.tree
    [.write s.accountPath text, .restrict s.accountPath ownFile]
  (result.mapError .file, { s with tree })

end FileStore

end CertSteward
