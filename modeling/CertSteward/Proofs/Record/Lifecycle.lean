import CertSteward.Proofs.Time.Order
import CertSteward.Record.Record

/-!
# The life of a record

A record begins as pending and is then changed by operations that may come in any order, with any
arguments and under a clock that may even run backwards. `invariantFault?` looks at the expiry and
at the order of dates only, which is too little to be kept by the next change: an expired record
without a certificate passes it, and so does a failed one that still has its dates. What every
change keeps is `Consistent`, which says for each status what the record holds.

## Main definitions

* `RecordChange`, `CertificateRecord.take`, `takeAll` — one change of a record, and many
* `CertificateRecord.Consistent` — what a record of each status holds
* `CertificateRecord.SameOwner` — what a record is for, which no change touches

## Main results

* `Consistent.invariantFault?_eq_none` — a consistent record passes its own check
* `Consistent.take` — every change keeps a record consistent
* `takeAll_lifecycle` — what holds after any number of changes of a new record
-/

namespace CertSteward

/-- A change of a record, with what it takes besides the reading of the clock. -/
inductive RecordChange
  | issue (m : IssuedMaterial)
  | fail (reason : String)
  | revoke (reason : Revocation)
  | expire (now : Instant)
  | setAutoRenew (on : Bool)
  | attachKey (key : PrivateKey)

/-- What a change makes of a record when the clock says `clock`, unless it is refused. -/
def RecordChange.result (c : RecordChange) (r : CertificateRecord) (clock : Instant) :
    Except RecordError CertificateRecord :=
  match c with
  | issue m => r.markIssued m clock
  | fail reason => r.markFailed reason clock
  | revoke reason => r.markRevoked reason clock
  | expire now => .ok (r.markExpiredIfDue now clock)
  | setAutoRenew on => .ok (r.setAutoRenew on clock)
  | attachKey key => .ok (r.attachKey key)

namespace CertificateRecord

variable {r s : CertificateRecord}

/-- The record after a change; one that is refused leaves it as it is. -/
def take (r : CertificateRecord) (c : RecordChange) (clock : Instant) : CertificateRecord :=
  match c.result r clock with
  | .ok s => s
  | .error _ => r

/-- The record after many changes, each with its reading of the clock. -/
def takeAll (r : CertificateRecord) (history : List (RecordChange × Instant)) :
    CertificateRecord :=
  history.foldl (fun r step => r.take step.1 step.2) r

/-! ### What a record holds -/

/-- What a record of each status holds. -/
structure Consistent (r : CertificateRecord) : Prop where
  /-- Without a certificate there are no dates, no certificate and no chain. -/
  empty : r.status.hasExpiry = false →
    r.issuedAt = none ∧ r.expiresAt = none ∧ r.certificate = "" ∧ r.chain = ""
  /-- With a certificate there are both dates, in their order. -/
  dated : r.status.hasExpiry = true →
    ∃ i e, r.issuedAt = some i ∧ r.expiresAt = some e ∧ i < e ∧ Text.isBlank r.certificate = false
  /-- There is a reason for a failure, and for nothing else. -/
  lastError_isSome : r.lastError.isSome ↔ r.status = .failed
  /-- There is a reason for a revocation, and for nothing else. -/
  revocation_isSome : r.revocation.isSome ↔ r.status = .revoked
  /-- No change came before the record was made. -/
  createdAt_le : r.createdAt ≤ r.updatedAt

/-- What a record is for, and since when. -/
structure SameOwner (r s : CertificateRecord) : Prop where
  id : s.id = r.id
  domainId : s.domainId = r.domainId
  primaryDomain : s.primaryDomain = r.primaryDomain
  sanDomains : s.sanDomains = r.sanDomains
  wildcard : s.wildcard = r.wildcard
  createdAt : s.createdAt = r.createdAt

theorem SameOwner.refl (r : CertificateRecord) : SameOwner r r := ⟨rfl, rfl, rfl, rfl, rfl, rfl⟩

theorem SameOwner.trans {t : CertificateRecord} (hr : SameOwner r s) (hs : SameOwner s t) :
    SameOwner r t where
  id := hs.id.trans hr.id
  domainId := hs.domainId.trans hr.domainId
  primaryDomain := hs.primaryDomain.trans hr.primaryDomain
  sanDomains := hs.sanDomains.trans hr.sanDomains
  wildcard := hs.wildcard.trans hr.wildcard
  createdAt := hs.createdAt.trans hr.createdAt

/-- A consistent record passes its own check. -/
theorem Consistent.invariantFault?_eq_none (h : r.Consistent) : r.invariantFault? = none := by
  have hnew : ¬ r.updatedAt < r.createdAt := Instant.not_lt.mpr h.createdAt_le
  cases hs : r.status.hasExpiry with
  | false =>
    obtain ⟨hi, he, -, -⟩ := h.empty hs
    have hissued : r.status ≠ .issued := by
      intro h'
      simp [h', Status.hasExpiry] at hs
    simp [invariantFault?, hs, he, hissued, hnew]
  | true =>
    obtain ⟨i, e, hi, he, hlt, -⟩ := h.dated hs
    simp [invariantFault?, hs, hi, he, hlt, hnew]

/-! ### One change -/

@[simp] theorem touch_createdAt (r : CertificateRecord) (now : Instant) :
    (r.touch now).createdAt = r.createdAt := rfl

theorem le_updatedAt_touch (r : CertificateRecord) (now : Instant) :
    r.updatedAt ≤ (r.touch now).updatedAt :=
  Instant.le_max_left r.updatedAt now

/-- Only the time of the change moves. -/
theorem Consistent.touch (h : r.Consistent) (now : Instant) : (r.touch now).Consistent :=
  ⟨h.empty, h.dated, h.lastError_isSome, h.revocation_isSome,
    Instant.le_trans h.createdAt_le (r.le_updatedAt_touch now)⟩

/-- Everything that a change can do: it is refused, or it is one of the six. -/
theorem take_cases (r : CertificateRecord) (c : RecordChange) (clock : Instant) :
    r.take c clock = r ∨
    (∃ m, c = .issue m ∧ r.status ≠ .revoked ∧ m.issuedAt < m.expiresAt ∧
      Text.isBlank m.certificate = false ∧
      r.take c clock = { r with
        certificate := m.certificate, chain := m.chain, key := m.key, issuedAt := some m.issuedAt
        expiresAt := some m.expiresAt, lastError := none, revocation := none
        status := .issued }.touch clock) ∨
    (∃ reason, c = .fail reason ∧ r.status ≠ .revoked ∧
      r.take c clock = { r with
        certificate := "", chain := "", key := .none, issuedAt := none, expiresAt := none
        lastError := some reason, status := .failed }.touch clock) ∨
    (∃ reason, c = .revoke reason ∧ (r.status = .issued ∨ r.status = .expired) ∧
      r.take c clock = { r with revocation := some reason, status := .revoked }.touch clock) ∨
    (r.status = .issued ∧ r.take c clock = { r with status := .expired }.touch clock) ∨
    (∃ on, r.take c clock = { r with autoRenew := on }.touch clock) ∨
    (∃ key, r.take c clock = { r with key }) := by
  cases c with
  | issue m =>
    by_cases hrev : r.status = .revoked
    · left; simp [take, RecordChange.result, markIssued, hrev]
    by_cases hval : m.expiresAt ≤ m.issuedAt
    · left; simp [take, RecordChange.result, markIssued, hrev, hval]
    by_cases hmat : Text.isBlank m.certificate = true ∨ m.key.isBlank = true
    · left; simp [take, RecordChange.result, markIssued, hrev, hval, hmat]
    · right; left
      refine ⟨m, rfl, hrev, Instant.not_le.mp hval, ?_, ?_⟩
      · simpa using fun h => hmat (.inl h)
      · simp [take, RecordChange.result, markIssued, hrev, hval, hmat]
  | fail reason =>
    by_cases hrev : r.status = .revoked
    · left; simp [take, RecordChange.result, markFailed, hrev]
    · right; right; left
      exact ⟨reason, rfl, hrev, by simp [take, RecordChange.result, markFailed, hrev]⟩
  | revoke reason =>
    by_cases hdated : r.status = .issued ∨ r.status = .expired
    · right; right; right; left
      exact ⟨reason, rfl, hdated, by simp [take, RecordChange.result, markRevoked, hdated]⟩
    · left; simp [take, RecordChange.result, markRevoked, hdated]
  | expire now =>
    by_cases hover : r.isOver now = true
    · right; right; right; right; left
      refine ⟨?_, by simp [take, RecordChange.result, markExpiredIfDue, hover]⟩
      simpa using (Bool.and_eq_true_iff.mp hover).1
    · left; simp [take, RecordChange.result, markExpiredIfDue, hover]
  | setAutoRenew on =>
    exact .inr (.inr (.inr (.inr (.inr (.inl ⟨on, rfl⟩)))))
  | attachKey key =>
    exact .inr (.inr (.inr (.inr (.inr (.inr ⟨key, rfl⟩)))))

/-- **Every change keeps a record consistent.** -/
theorem Consistent.take (h : r.Consistent) (c : RecordChange) (clock : Instant) :
    (r.take c clock).Consistent := by
  obtain heq | ⟨m, -, -, hlt, hcert, heq⟩ | ⟨reason, -, hrev, heq⟩ | ⟨reason, -, hstatus, heq⟩ |
    ⟨hstatus, heq⟩ | ⟨on, heq⟩ | ⟨key, heq⟩ := r.take_cases c clock
  · rwa [heq]
  · rw [heq]
    refine Consistent.touch ?_ clock
    exact ⟨(fun h' => nomatch h'), fun _ => ⟨m.issuedAt, m.expiresAt, rfl, rfl, hlt, hcert⟩, by simp,
      by simp, h.createdAt_le⟩
  · rw [heq]
    -- a failure leaves the reason for a revocation alone, but only a revoked record has one
    have hnone : r.revocation.isSome = false := by
      simpa using fun h' => hrev (h.revocation_isSome.mp h')
    refine Consistent.touch ?_ clock
    exact ⟨fun _ => ⟨rfl, rfl, rfl, rfl⟩, (fun h' => nomatch h'), by simp, by simp [hnone],
      h.createdAt_le⟩
  · rw [heq]
    have hexp : r.status.hasExpiry = true := by
      obtain h' | h' := hstatus <;> rw [h'] <;> rfl
    have hfail : r.lastError.isSome = false := by
      obtain h' | h' := hstatus <;> simpa [h'] using h.lastError_isSome
    refine Consistent.touch ?_ clock
    exact ⟨(fun h' => nomatch h'), fun _ => h.dated hexp, by simp [hfail], by simp, h.createdAt_le⟩
  · rw [heq]
    have hexp : r.status.hasExpiry = true := by rw [hstatus]; rfl
    have hfail : r.lastError.isSome = false := by simpa [hstatus] using h.lastError_isSome
    have hnone : r.revocation.isSome = false := by simpa [hstatus] using h.revocation_isSome
    refine Consistent.touch ?_ clock
    exact ⟨(fun h' => nomatch h'), fun _ => h.dated hexp, by simp [hfail], by simp [hnone],
      h.createdAt_le⟩
  · rw [heq]
    refine Consistent.touch ?_ clock
    exact ⟨h.empty, h.dated, h.lastError_isSome, h.revocation_isSome, h.createdAt_le⟩
  · rw [heq]
    exact ⟨h.empty, h.dated, h.lastError_isSome, h.revocation_isSome, h.createdAt_le⟩

/-- No change touches what a record is for. -/
theorem sameOwner_take (r : CertificateRecord) (c : RecordChange) (clock : Instant) :
    SameOwner r (r.take c clock) := by
  obtain heq | ⟨_, -, -, -, -, heq⟩ | ⟨_, -, -, heq⟩ | ⟨_, -, -, heq⟩ | ⟨-, heq⟩ | ⟨_, heq⟩ |
    ⟨_, heq⟩ := r.take_cases c clock <;> rw [heq] <;> exact ⟨rfl, rfl, rfl, rfl, rfl, rfl⟩

/-- The time of the last change never moves backwards, whatever the clock does. -/
theorem le_updatedAt_take (r : CertificateRecord) (c : RecordChange) (clock : Instant) :
    r.updatedAt ≤ (r.take c clock).updatedAt := by
  obtain heq | ⟨_, -, -, -, -, heq⟩ | ⟨_, -, -, heq⟩ | ⟨_, -, -, heq⟩ | ⟨-, heq⟩ | ⟨_, heq⟩ |
    ⟨_, heq⟩ := r.take_cases c clock <;> rw [heq]
  · exact Instant.le_refl _
  all_goals first | exact Instant.le_max_left _ _ | exact Instant.le_refl _

/-- A revoked record stays revoked. -/
theorem status_take_of_revoked (h : r.status = .revoked) (c : RecordChange) (clock : Instant) :
    (r.take c clock).status = .revoked := by
  obtain heq | ⟨_, -, hrev, -, -, heq⟩ | ⟨_, -, hrev, heq⟩ | ⟨_, -, -, heq⟩ | ⟨hstatus, heq⟩ |
    ⟨_, heq⟩ | ⟨_, heq⟩ := r.take_cases c clock
  · rw [heq, h]
  · exact absurd h hrev
  · exact absurd h hrev
  · rw [heq]; rfl
  · rw [h] at hstatus; cases hstatus
  · rw [heq]; exact h
  · rw [heq]; exact h

/-- A change that is refused leaves the whole record as it is. -/
theorem take_of_error {c : RecordChange} {clock : Instant} {e : RecordError}
    (h : c.result r clock = .error e) : r.take c clock = r := by
  rw [take, h]

/-! ### Many changes -/

/-- A new record is consistent. -/
theorem Consistent.of_make {id domainId primary : String} {others : List String}
    {wildcard autoRenew : Bool} {now : Instant}
    (h : make id domainId primary others wildcard autoRenew now = .ok r) : r.Consistent := by
  unfold make at h
  cases hp : domain primary false with
  | error e => simp [hp, bind, Except.bind] at h
  | ok p =>
    cases ho : others.mapM fun name => domain name true with
    | error e => simp [hp, ho, bind, Except.bind] at h
    | ok names =>
      simp only [hp, ho, bind, Except.bind, pure, Except.pure, Except.ok.injEq] at h
      subst h
      exact ⟨fun _ => ⟨rfl, rfl, rfl, rfl⟩, by simp [Status.hasExpiry], by simp, by simp,
        Instant.le_refl now⟩

theorem Consistent.takeAll (h : r.Consistent) (history : List (RecordChange × Instant)) :
    (r.takeAll history).Consistent := by
  induction history generalizing r with
  | nil => exact h
  | cons step history ih => exact ih (h.take step.1 step.2)

theorem sameOwner_takeAll (r : CertificateRecord) (history : List (RecordChange × Instant)) :
    SameOwner r (r.takeAll history) := by
  induction history generalizing r with
  | nil => exact .refl r
  | cons step history ih => exact (r.sameOwner_take step.1 step.2).trans (ih _)

/-- **The life of a record.** After any number of changes of a new record it passes its own check,
holds what its status says, and is still for the same owner; and what the next change makes of it
is no older, stays revoked if it was, and is the same record if the change is refused. -/
theorem takeAll_lifecycle {id domainId primary : String} {others : List String}
    {wildcard autoRenew : Bool} {now : Instant}
    (h : make id domainId primary others wildcard autoRenew now = .ok r)
    (history : List (RecordChange × Instant)) :
    (r.takeAll history).invariantFault? = none ∧ (r.takeAll history).Consistent ∧
      SameOwner r (r.takeAll history) ∧
      ∀ c clock,
        (r.takeAll history).updatedAt ≤ ((r.takeAll history).take c clock).updatedAt ∧
        ((r.takeAll history).status = .revoked →
          ((r.takeAll history).take c clock).status = .revoked) ∧
        ∀ e, c.result (r.takeAll history) clock = .error e →
          (r.takeAll history).take c clock = r.takeAll history := by
  have hcons := (Consistent.of_make h).takeAll history
  exact ⟨hcons.invariantFault?_eq_none, hcons, r.sameOwner_takeAll history, fun c clock =>
    ⟨le_updatedAt_take _ c clock, fun hrev => status_take_of_revoked hrev c clock,
      fun _ herr => take_of_error herr⟩⟩

/-- A record that was issued and revoked under a clock that runs backwards, and is then asked to
fail. -/
theorem takeAll_lifecycle_example_com :
    ∃ r, make "cert_1" "" "Example.com." ["*.example.com"] false true { seconds := 9 } = .ok r ∧
      let history : List (RecordChange × Instant) :=
        [(.issue { certificate := "certificate", chain := "", key := { text := "key" }
                   issuedAt := { seconds := 9 }, expiresAt := { seconds := 20 } }, { seconds := 5 }),
          (.revoke .keyCompromise, { seconds := 11 })]
      (r.takeAll history).status = .revoked ∧ (r.takeAll history).updatedAt = { seconds := 11 } ∧
        (r.takeAll history).invariantFault? = none ∧
        ((r.takeAll history).take (.fail "too late") { seconds := 2 }) = r.takeAll history := by
  have h : make "cert_1" "" "Example.com." ["*.example.com"] false true { seconds := 9 } =
      .ok { id := "cert_1", primaryDomain := "example.com", wildcard := true, autoRenew := true
            createdAt := { seconds := 9 }, updatedAt := { seconds := 9 } } := rfl
  refine ⟨_, h, rfl, rfl, (takeAll_lifecycle h _).1, ?_⟩
  exact ((takeAll_lifecycle h _).2.2.2 (.fail "too late") { seconds := 2 }).2.2 _ rfl

end CertificateRecord

end CertSteward
