import CertSteward.Bytes.Hex
import CertSteward.Json.Value
import CertSteward.Time.Rfc3339

/-!
# Values in JSON

Values are written in JSON as reports need them. Reading is lenient: what is absent or of another
kind reads as an empty value, so that every JSON value can be read as any type.

## Main definitions

* `ToJson` — types whose values are written
* `OfJson` — types whose values are read
* `Json.get` — a member read as a value of the type that is expected
-/

namespace CertSteward

/-- Types whose values can be written in JSON. -/
class ToJson (α : Type) where
  /-- The value in JSON. -/
  toJson : α → Json

/-- Types as whose values JSON can be read. -/
class OfJson (α : Type) where
  /-- The value that JSON stands for, an empty one if it stands for none. -/
  ofJson : Json → α

namespace ToJson

instance : ToJson Json := ⟨id⟩

instance : ToJson String := ⟨.string⟩

instance : ToJson Nat := ⟨.nat⟩

instance : ToJson Int := ⟨.int⟩

instance : ToJson Bool := ⟨.bool⟩

/-- Nothing to tell means that something is done. -/
instance : ToJson Unit := ⟨fun _ => .bool true⟩

instance : ToJson Instant := ⟨fun t => .string t.toRfc3339⟩

instance [ToJson α] : ToJson (Option α) := ⟨fun a => a.elim .null toJson⟩

instance [ToJson α] : ToJson (List α) := ⟨fun as => .array (as.map toJson)⟩

instance [ToJson α] [ToJson β] : ToJson (α × β) := ⟨fun p => .array [toJson p.1, toJson p.2]⟩

end ToJson

/-- A span of time as its seconds and the nanoseconds above them. -/
def Duration.toJson (d : Duration) : Json := ToJson.toJson (d.seconds, d.subsecond)

/-- Bytes in hexadecimal digits. -/
def Json.hex (bs : List UInt8) : Json := .string (Hex.encode bs)

namespace OfJson

instance : OfJson Json := ⟨id⟩

instance : OfJson String := ⟨fun j => j.string?.getD ""⟩

instance : OfJson Nat := ⟨fun j => j.nat?.getD 0⟩

instance : OfJson Bool := ⟨fun j => j.bool?.getD false⟩

instance : OfJson Float := ⟨fun j => j.float?.getD 0⟩

/-- The first instant that is counted stands for none. -/
instance : OfJson Instant := ⟨fun j => (j.string?.bind Instant.ofRfc3339?).getD ⟨0, 0⟩⟩

/-- Only `null` reads as nothing. -/
instance [OfJson α] : OfJson (Option α) :=
  ⟨fun
    | .null => none
    | j => some (ofJson j)⟩

instance [OfJson α] : OfJson (List α) := ⟨fun j => (j.array?.getD []).map ofJson⟩

/-- Bytes stand in hexadecimal digits. -/
instance : OfJson (List UInt8) := ⟨fun j => (j.string?.bind Hex.decode?).getD []⟩

end OfJson

namespace Json

/-- A member, `null` if there is none of that name. -/
def member (j : Json) (name : String) : Json := (j.field? name).getD .null

/-- A member read as what is expected. -/
def get (j : Json) {α : Type} [OfJson α] (name : String) : α := OfJson.ofJson (j.member name)

/-- Whether there is a member of that name that is not `null`. -/
def has (j : Json) (name : String) : Bool := (j.get name : Option Json).isSome

/-- A span of time: milliseconds, or seconds and nanoseconds. -/
def duration? : Json → Option Duration
  | .array [s, n] => some (.ofSeconds (OfJson.ofJson s) + (OfJson.ofJson n : Nat))
  | j => j.nat?.map .ofMillis

end Json

end CertSteward
