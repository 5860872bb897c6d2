import CertSteward.Json.Convert
import CertSteward.Store.FileTree

/-!
# Reports of files

## Main definitions

* `FileTree.report` — what stands in a directory
-/

namespace CertSteward

/-- Who may use a file, in octal digits. -/
def FileEntry.modeText (e : FileEntry) : String := String.ofList (Nat.toDigits 8 e.mode)

/-- Whether files of that name are for their owner only. -/
def FilePath.isSecret (name : String) : Bool :=
  name.endsWith "key.pem" || name.endsWith "credentials.json"

namespace FileTree

/-- Who may use what is at a path, nothing if there is nothing. -/
def modeReport (t : FileTree) (p : FilePath) : Json :=
  match t.locate p with
  | .ok e => .string e.modeText
  | .error _ => .null

/-- A file or directory below a directory; of files that hold secrets it is told who may use
them. -/
def entryReport (p : FilePath) (e : FileEntry) : String × Json :=
  let name := Text.join "/" p
  if e.isDirectory then (name ++ "/", .null)
  else (name, if FilePath.isSecret name then .string e.modeText else .null)

/-- What stands below a directory at the top, with the names from there on. -/
def report (t : FileTree) : Json :=
  .object (t.entries.filterMap fun (p, e) =>
    if p.length < 2 then none else some (entryReport (p.drop 1) e))

end FileTree

end CertSteward
