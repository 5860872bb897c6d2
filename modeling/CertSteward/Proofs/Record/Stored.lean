import CertSteward.Proofs.Json.Cut
import CertSteward.Proofs.Time.Rfc3339
import CertSteward.Record.Stored

/-!
# A stored record is read back

The stored form leaves the private key out and nothing else. What is read back from it is the
record without its key; putting the key in again gives the record. A stored text that breaks off is
not read.

## Main definitions

* `CertificateRecord.HasReadings` — records whose dates a clock can show

## Main results

* `CertificateRecord.ofJson?_toJson` — the members are read back
* `CertificateRecord.ofText?_pretty` — the text is read back
* `CertificateRecord.ofText?_of_isCut` — no beginning of the text is read
-/

namespace CertSteward

theorem Status.ofText?_text (s : Status) : Status.ofText? s.text = some s := by
  cases s <;> decide

theorem Revocation.ofStored?_stored (r : Revocation) : Revocation.ofStored? r.stored = some r := by
  cases r <;> decide

namespace CertificateRecord

variable {r : CertificateRecord}

/-- A record whose dates are instants that a clock can show. -/
structure HasReadings (r : CertificateRecord) : Prop where
  issuedAt : ∀ a ∈ r.issuedAt, a.IsReading
  expiresAt : ∀ a ∈ r.expiresAt, a.IsReading
  createdAt : r.createdAt.IsReading
  updatedAt : r.updatedAt.IsReading

/-! ### Members -/

/-- All members are known, and none stands there twice. -/
theorem members?_toJson (r : CertificateRecord) : members? r.toJson = some r.toJson.members := by
  have hknown : (r.toJson.members.filter fun m => memberNames.contains m.1) = r.toJson.members := by
    simp [toJson, memberNames, Json.members]
  have hnodup : (r.toJson.members.map (·.1)).Nodup := by
    simp [toJson, Json.members]
  have hmembers : members? r.toJson =
      let ms := r.toJson.members.filter fun m => memberNames.contains m.1
      if (ms.map (·.1)).Nodup then some ms else none := rfl
  rw [hmembers, hknown, if_pos hnodup]

/-- Texts that are written are read back one by one. -/
theorem mapM_string? (xs : List String) : xs.mapM (Json.string? ∘ Json.string) = some xs := by
  induction xs with
  | nil => rfl
  | cons x xs ih => simp [ih, Json.string?]

theorem time?_string {a : Instant} (h : a.IsReading) : time? (.string a.toRfc3339) = some a := by
  simp only [time?, Json.string?, Option.bind_some, h.ofRfc3339?_toRfc3339]

/-- A date that may be missing is read back. -/
theorem nullable?_timeJson {a : Option Instant} (h : ∀ b ∈ a, b.IsReading) :
    nullable? time? (timeJson a) = some a := by
  cases a with
  | none => rfl
  | some b =>
    simp only [timeJson, Option.map_some, Json.optional, Option.elim_some, nullable?,
      time?_string (h b rfl)]

theorem nullable?_string? (s : Option String) :
    nullable? Json.string? (.optional s) = some s := by
  cases s <;> rfl

theorem nullable?_revocation (r : Option Revocation) :
    nullable? (word? Revocation.ofStored?) (.optional (r.map Revocation.stored)) = some r := by
  cases r with
  | none => rfl
  | some r =>
    simp only [Option.map_some, Json.optional, Option.elim_some, nullable?, word?,
      Revocation.ofStored?_stored]

section Members

variable {α : Type} {ms : List (String × Json)} {name : String} {v : Json} {a : α}
variable {read : Json → Option α}

theorem required?_eq_some (h : ms.lookup name = some v) (hread : read v = some a) :
    required? ms name read = some a := by
  rw [required?, h, Option.bind_some, hread]

theorem usual?_eq_some {usual : α} (h : ms.lookup name = some v) (hread : read v = some a) :
    usual? ms name read usual = some a := by
  rw [usual?, h]
  exact hread

end Members

/-! ### The record -/

/-- A record is read back from its stored form, without its key. -/
theorem HasReadings.ofJson?_toJson (h : r.HasReadings) :
    ofJson? r.toJson = some { r with key := .none } := by
  have hnames : ((Json.strings r.sanDomains).array?.bind fun vs => vs.mapM Json.string?) =
      some r.sanDomains := by
    rw [Json.strings, Json.array?, Option.bind_some, List.mapM_map]
    exact mapM_string? r.sanDomains
  -- the members are looked up one after the other
  obtain ⟨ms, hms, look⟩ : ∃ ms, members? r.toJson = some ms ∧
      ∀ {name v}, r.toJson.members.lookup name = v → ms.lookup name = v :=
    ⟨_, members?_toJson r, fun h => h⟩
  rw [ofJson?, hms]
  refine Option.bind_eq_some_iff.mpr ⟨ms, rfl, ?_⟩
  refine Option.bind_eq_some_iff.mpr ⟨_, required?_eq_some (look rfl) rfl, ?_⟩
  refine Option.bind_eq_some_iff.mpr ⟨_, usual?_eq_some (look rfl) rfl, ?_⟩
  refine Option.bind_eq_some_iff.mpr ⟨_, required?_eq_some (look rfl) rfl, ?_⟩
  refine Option.bind_eq_some_iff.mpr ⟨_, usual?_eq_some (look rfl) hnames, ?_⟩
  refine Option.bind_eq_some_iff.mpr ⟨_, usual?_eq_some (look rfl) rfl, ?_⟩
  refine Option.bind_eq_some_iff.mpr ⟨_, usual?_eq_some (look rfl) rfl, ?_⟩
  refine Option.bind_eq_some_iff.mpr ⟨_, usual?_eq_some (look rfl) rfl, ?_⟩
  refine Option.bind_eq_some_iff.mpr
    ⟨_, usual?_eq_some (look rfl) (nullable?_timeJson h.issuedAt), ?_⟩
  refine Option.bind_eq_some_iff.mpr
    ⟨_, usual?_eq_some (look rfl) (nullable?_timeJson h.expiresAt), ?_⟩
  refine Option.bind_eq_some_iff.mpr ⟨_, required?_eq_some (look rfl) rfl, ?_⟩
  refine Option.bind_eq_some_iff.mpr
    ⟨_, required?_eq_some (look rfl) (Status.ofText?_text _), ?_⟩
  refine Option.bind_eq_some_iff.mpr ⟨_, usual?_eq_some (look rfl) (nullable?_string? _), ?_⟩
  refine Option.bind_eq_some_iff.mpr ⟨_, usual?_eq_some (look rfl) (nullable?_revocation _), ?_⟩
  refine Option.bind_eq_some_iff.mpr
    ⟨_, required?_eq_some (look rfl) (time?_string h.createdAt), ?_⟩
  refine Option.bind_eq_some_iff.mpr
    ⟨_, required?_eq_some (look rfl) (time?_string h.updatedAt), ?_⟩
  rfl

theorem fits_optional (levels : Nat) (s : Option String) : Json.Fits levels (.optional s) := by
  cases s with
  | none => exact .null levels
  | some s => exact .string levels s

/-- The stored form has no numbers in it and is flat. -/
theorem fits_toJson (r : CertificateRecord) : Json.Fits Json.maxLevels r.toJson := by
  have hnames : Json.Fits 127 (.strings r.sanDomains) := by
    refine .array fun x hx => ?_
    obtain ⟨s, -, rfl⟩ := List.mem_map.mp hx
    exact .string 126 s
  refine .object ?_
  simp only [List.forall_mem_cons, List.not_mem_nil, false_implies, implies_true, and_true, timeJson]
  simp only [Json.Fits.string, Json.Fits.bool, fits_optional, hnames, and_self]

/-- A record is read back from its stored text, without its key. -/
theorem HasReadings.ofText?_pretty (h : r.HasReadings) :
    ofText? r.toJson.pretty = some { r with key := .none } := by
  rw [ofText?, (fits_toJson r).parse?_pretty, Option.bind_some, h.ofJson?_toJson]

/-- A stored text that breaks off is no record. -/
theorem ofText?_of_isCut {text : String} (h : IsCut text.toList r.toJson.pretty.toList) :
    ofText? text = none := by
  rw [ofText?, (fits_toJson r).parse?_of_isCut h, Option.bind_none]

end CertificateRecord

end CertSteward
