import CertSteward.Record.Record
import CertSteward.Store.Files

/-!
# Stores of records

A store is kept in memory or in files. Both list records by when they were made.

## Main definitions

* `MemoryStore` — records by their names, and the account
* `RecordStore`
* `RecordStore.save`, `RecordStore.load`, `RecordStore.list`, `RecordStore.delete`
* `RecordStore.find` — the newest record for a domain
* `RecordStore.resolve` — the record with a name or for a domain
* `StoreRequest`, `RecordStore.answer` — what a store is asked, and its answers
-/

namespace CertSteward

/-! ### Records in memory -/

/-- Records in the order in which they were first saved, each name once, and the account. -/
structure MemoryStore where
  records : List CertificateRecord := []
  account : Option String := none
deriving DecidableEq

namespace MemoryStore

/-- Puts a record into the place of the one that has its name, or at the end. -/
def put (r : CertificateRecord) : List CertificateRecord → List CertificateRecord
  | [] => [r]
  | x :: xs => if x.id = r.id then r :: xs else x :: put r xs

/-- Saves a record. -/
def save (s : MemoryStore) (r : CertificateRecord) : MemoryStore :=
  { s with records := put r s.records }

/-- The record with that name. -/
def load? (s : MemoryStore) (id : String) : Option CertificateRecord :=
  s.records.find? fun r => r.id = id

/-- Removes the record with that name and says whether there was one. -/
def delete (s : MemoryStore) (id : String) : Bool × MemoryStore :=
  ((s.load? id).isSome, { s with records := s.records.filter fun r => r.id ≠ id })

end MemoryStore

/-! ### Stores -/

/-- A store of records. -/
inductive RecordStore
  | memory (store : MemoryStore)
  | files (store : FileStore)

/-- Records by when they were made; those made at the same time stay in their order. -/
def CertificateRecord.byAge (rs : List CertificateRecord) : List CertificateRecord :=
  rs.mergeSort fun a b => a.createdAt ≤ b.createdAt

/-- The newest record, of several the last. -/
def CertificateRecord.newest? (rs : List CertificateRecord) : Option CertificateRecord :=
  rs.foldl (fun best r =>
    match best with
    | some b => if b.createdAt ≤ r.createdAt then some r else some b
    | none => some r) none

namespace RecordStore

/-- Saves a record. -/
def save (r : CertificateRecord) : RecordStore → Except StoreError Unit × RecordStore
  | memory s => (.ok (), memory (s.save r))
  | files s => (s.save r).map id files

/-- The record with that name. -/
def load (id : String) : RecordStore → Except StoreError (Option CertificateRecord)
  | memory s => .ok (s.load? id)
  | files s => s.load id

/-- All records that can be read, by when they were made. -/
def list : RecordStore → Except StoreError (List CertificateRecord)
  | memory s => .ok (CertificateRecord.byAge s.records)
  | files s => s.list.map CertificateRecord.byAge

/-- Removes the record with that name and says whether there was one. -/
def delete (id : String) : RecordStore → Except StoreError Bool × RecordStore
  | memory s => (s.delete id).map .ok memory
  | files s => (s.delete id).map (fun r => r) files

/-- The account. -/
def account : RecordStore → Except StoreError (Option String)
  | memory s => .ok s.account
  | files s => s.account

/-- Saves the account. -/
def saveAccount (text : String) : RecordStore → Except StoreError Unit × RecordStore
  | memory s => (.ok (), memory { s with account := some text })
  | files s => (s.saveAccount text).map (fun r => r) files

/-- A domain as it is asked for: without blanks around it, dots at its end and capitals. -/
def asked (domain : String) : String :=
  Text.lower (String.ofList (Chars.dropEndWhile (· == '.') (Chars.trim domain.toList)))

/-- The newest record for a domain. -/
def find (domain : String) (s : RecordStore) : Except StoreError (Option CertificateRecord) := do
  return CertificateRecord.newest? ((← s.list).filter fun r => r.primaryDomain = asked domain)

/-- The record with that name, or else the newest for that domain. -/
def resolve (name : String) (s : RecordStore) : Except StoreError (Option CertificateRecord) := do
  match ← s.load name with
  | some r => return some r
  | none => s.find name

end RecordStore

/-! ### Requests -/

/-- What a store is asked. -/
inductive StoreRequest
  | save (r : CertificateRecord)
  | load (id : String)
  | list
  | delete (id : String)
  /-- The newest record for a domain. -/
  | find (domain : String)
  /-- The record with a name or for a domain. -/
  | resolve (name : String)
deriving DecidableEq

/-- The answer to a request. -/
@[reducible] def StoreRequest.Reply : StoreRequest → Type
  | save _ => Except StoreError Unit
  | load _ | find _ | resolve _ => Except StoreError (Option CertificateRecord)
  | list => Except StoreError (List CertificateRecord)
  | delete _ => Except StoreError Bool

/-- What a store answers. -/
def RecordStore.answer (s : RecordStore) : (r : StoreRequest) → r.Reply × RecordStore
  | .save r => s.save r
  | .load id => (s.load id, s)
  | .list => (s.list, s)
  | .delete id => s.delete id
  | .find domain => (s.find domain, s)
  | .resolve name => (s.resolve name, s)

end CertSteward
