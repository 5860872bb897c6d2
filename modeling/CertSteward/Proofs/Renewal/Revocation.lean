import CertSteward.Proofs.Issuance.Repetition
import CertSteward.Proofs.Issuance.Requests
import CertSteward.Proofs.Material.Pem
import CertSteward.Proofs.Run.Courses
import CertSteward.Renewal.Manage

/-!
# What a revocation comes to, in the record and at the authority

A request to revoke may do its work although its sender never hears of it: the answer gets lost, or
comes too late to be waited for. The sender then asks again, and an authority that refuses to revoke
a certificate twice says no to that. Nothing in the program tells this no from any other, so the
revocation ends as one that was not done, and the record stays as it was.

That is the only way in which record and authority come apart. The book of the authority has three
entries here and not two, because the whole question is whether its owner heard of the revocation:
the record is revoked exactly if the certificate is and a good answer said so.

## Main definitions

* `BookEntry`, `BookEntry.Takes`, `BookEntry.After` — what an authority knows of a certificate, and
  how answers and paths go with it

## Main results

* `ends_retryFrom` — how calls that are made again end
* `settled_revokeCertificate` — what requests to revoke that are made again come to
* `revokeRecord_agrees` — what a revocation says and does, by the book of the authority
* `revokeRecord_disagrees` — a revocation that was done and is taken for one that was not
-/

namespace CertSteward

/-- After such an answer it is open whether the request was carried out. -/
def IssuanceError.leavesOpen : IssuanceError → Bool
  | transient _ _ | timeout _ _ => true
  | _ => false

/-! ### The book of an authority -/

/-- What an authority knows of a certificate. -/
inductive BookEntry
  | good
  /-- It is revoked, and who asked for it was told so. -/
  | revoked
  /-- It is revoked, and no good answer said so. -/
  | unseen
deriving DecidableEq

namespace BookEntry

/-- Whether the certificate is revoked. -/
def isRevoked : BookEntry → Bool
  | good => false
  | revoked | unseen => true

/-- What becomes of an entry when a request to revoke gets an answer. What is revoked already is
refused. -/
inductive Takes : BookEntry → Except IssuanceError Unit → BookEntry → Prop
  | done : Takes good (.ok ()) revoked
  /-- The work is done, and the answer does not say so. -/
  | lost {e : IssuanceError} (isOpen : e.leavesOpen = true) : Takes good (.error e) unseen
  /-- Nothing is done. -/
  | stays {b : BookEntry} {e : IssuanceError} : Takes b (.error e) b

/-- What becomes of the entry of a certificate along a path whose caller waits for no answer longer
than `limit`. -/
inductive After (limit : Duration) (der : List UInt8) :
    BookEntry → List Happening → BookEntry → Prop
  | start (b : BookEntry) : After limit der b [] b
  | asked {b b' b'' : BookEntry} {reason : Revocation} {answer : Except IssuanceError Unit × Duration}
    {path : List Happening}
    (takes : b.Takes (AuthorityRequest.received limit (.revoke der reason) answer) b')
    (rest : After limit der b' path b'') :
    After limit der b (⟨.authority (.revoke der reason), answer⟩ :: path) b''
  | other {b b' : BookEntry} {h : Happening} {path : List Happening}
    (differs : ∀ reason, h.1 ≠ .authority (.revoke der reason)) (rest : After limit der b path b') :
    After limit der b (h :: path) b'

variable {limit : Duration} {der : List UInt8} {b b' : BookEntry} {path rest : List Happening}

theorem after_append : After limit der b (path ++ rest) b' ↔
    ∃ m, After limit der b path m ∧ After limit der m rest b' := by
  constructor
  · intro h
    induction path generalizing b with
    | nil => exact ⟨b, .start b, h⟩
    | cons x path ih =>
      cases h with
      | asked takes hrest =>
        obtain ⟨m, hm, hm'⟩ := ih hrest
        exact ⟨m, .asked takes hm, hm'⟩
      | other differs hrest =>
        obtain ⟨m, hm, hm'⟩ := ih hrest
        exact ⟨m, .other differs hm, hm'⟩
  · rintro ⟨m, hm, hm'⟩
    induction hm with
    | start => exact hm'
    | asked takes _ ih => exact .asked takes (ih hm')
    | other differs _ ih => exact .other differs (ih hm')

/-- Another request changes nothing. -/
theorem After.of_other {h : Happening} (hbook : After limit der b (h :: path) b')
    (differs : ∀ reason, h.1 ≠ .authority (.revoke der reason)) : After limit der b path b' := by
  cases hbook with
  | asked => exact absurd rfl (differs _)
  | other _ rest => exact rest

/-- Without a request to revoke an entry stays what it is. -/
theorem After.eq_of_forall (h : After limit der b path b')
    (hpath : ∀ x ∈ path, ∀ reason, x.1 ≠ .authority (.revoke der reason)) : b' = b := by
  induction h with
  | start => rfl
  | asked => exact absurd rfl (hpath _ List.mem_cons_self _)
  | other _ _ ih => exact ih fun x hx => hpath x (List.mem_cons_of_mem _ hx)

/-- The entry of a certificate after requests to revoke it, the last of which got `answer`. -/
def Settles (b : BookEntry) : Except IssuanceError Unit → BookEntry → Prop
  | .ok (), b' => b = good ∧ b' = revoked
  | .error _, b' => b' = b ∨ (b = good ∧ b' = unseen)

theorem Takes.settles {answer : Except IssuanceError Unit} (h : b.Takes answer b') :
    b.Settles answer b' := by
  cases h with
  | done => exact ⟨rfl, rfl⟩
  | lost => exact .inr ⟨rfl, rfl⟩
  | stays => exact .inl rfl

/-- A request that has failed, and the same request again. -/
theorem Settles.trans {e : IssuanceError} {answer : Except IssuanceError Unit} {m : BookEntry}
    (h : b.Settles (.error e) m) (h' : m.Settles answer b') : b.Settles answer b' := by
  obtain rfl | ⟨rfl, rfl⟩ := h
  · exact h'
  · cases answer with
    | ok => cases h'.1
    | error e' =>
      obtain rfl | ⟨hm, -⟩ := h'
      · exact .inr ⟨rfl, rfl⟩
      · cases hm

end BookEntry

/-! ### Requests to revoke -/

open BookEntry Steward

variable {limit : Duration} {der : List UInt8} {reason : Revocation} {b b' : BookEntry}
variable {path : List Happening} {c : Bool}

/-- One call to the authority is one request, and a pause for as long as it takes. -/
theorem ends_callOnce {q : AuthorityRequest} {o : Option q.Reply}
    (h : Ends false (callOnce limit q).run path c o) :
    ∃ answer time, path = [⟨.authority q, answer⟩, ⟨.wait (.sleep time), some ()⟩] ∧ c = false ∧
      o = some (q.received limit answer) := by
  obtain ⟨answer, slept, rfl, possible, rfl, rfl⟩ := ends_callOnce_iff.mp h
  cases slept with
  | none => exact absurd (Act.canGet_wait_none.mp possible) Bool.false_ne_true
  | some u => exact ⟨answer, _, rfl, rfl, rfl⟩

/-- Calls that are made again end as their parts do. `R` says what a path and the answer at its end
have to do with each other: a failure is followed by a look at the clock, and by a pause and more
calls unless it is the end. -/
theorem ends_retryFrom {ε α : Type} {R : List Happening → Except ε α → Prop} {again : ε → Bool}
    {call : Watched (Except ε α)} {start : Duration} {retries : Nat} {delays : Backoff}
    {o : Option (Except ε α)}
    (hcall : ∀ path c o, Ends false call.run path c o → ∃ x, o = some x ∧ c = false ∧ R path x)
    (hlast : ∀ path e now, R path (.error e) → R (path ++ [⟨.now, now⟩]) (.error e))
    (hagain : ∀ first e now time rest x, R first (.error e) → R rest x →
      R (first ++ ⟨.now, now⟩ :: ⟨.wait (.sleep time), some ()⟩ :: rest) x)
    (h : Ends false (retryFrom again call start retries delays).run path c o) :
    ∃ x, o = some x ∧ c = false ∧ R path x := by
  induction retries generalizing delays path with
  | zero => exact hcall path c o h
  | succ retries ih =>
    rw [retryFrom] at h
    obtain ⟨first, rest, d, _, rfl, hfirst, hrest⟩ := ends_run_bind_iff.mp h
    obtain ⟨x, rfl, rfl, hR⟩ := hcall first d _ hfirst
    obtain ⟨hnone, -⟩ | ⟨_, ⟨⟩, hrest⟩ := hrest
    · cases hnone
    have hpure : ∀ {y : Except ε α}, Ends false (pure y : Watched (Except ε α)).run rest c o →
        R first y → ∃ x, o = some x ∧ c = false ∧ R (first ++ rest) x := by
      intro y hy hR
      obtain ⟨rfl, rfl, rfl⟩ := ends_run_pure_iff.mp hy
      exact ⟨y, rfl, rfl, by rwa [List.append_nil]⟩
    cases x with
    | ok a => exact hpure hrest hR
    | error e =>
      dsimp only at hrest
      split at hrest
      · obtain ⟨_, _, _, _, rfl, hnow, hrest⟩ := ends_run_bind_iff.mp hrest
        obtain ⟨now, rfl, -, rfl, rfl⟩ := ends_run_perform_iff.mp hnow
        obtain ⟨hnone, -⟩ | ⟨_, ⟨⟩, hrest⟩ := hrest
        · cases hnone
        cases hnext : delays.next? (now - start) with
        | none =>
          rw [hnext] at hrest
          obtain ⟨rfl, rfl, rfl⟩ := ends_run_pure_iff.mp hrest
          exact ⟨_, rfl, rfl, hlast first e now hR⟩
        | some step =>
          rw [hnext] at hrest
          obtain ⟨_, more, _, slept, rfl, hsleep, hrest⟩ := ends_run_bind_iff.mp hrest
          obtain ⟨_, rfl, -, rfl, rfl⟩ := ends_run_await_false.mp hsleep
          obtain ⟨hnone, -⟩ | ⟨_, ⟨⟩, hrest⟩ := hrest
          · cases hnone
          obtain ⟨x, rfl, rfl, hR'⟩ := ih hrest
          exact ⟨x, rfl, rfl, hagain first e now step.1 more x hR hR'⟩
      · exact hpure hrest hR

/-- A call that cannot be interrupted has an answer. -/
theorem ends_callAuthority {s : IssuanceSettings} {retries : Nat} {q : AuthorityRequest}
    {R : List Happening → q.Reply → Prop} {o : Option q.Reply}
    (hask : ∀ answer time, R [⟨.authority q, answer⟩, ⟨.wait (.sleep time), some ()⟩]
      (q.received s.callTimeout answer))
    (hlast : ∀ path e now, R path (.error e) → R (path ++ [⟨.now, now⟩]) (.error e))
    (hagain : ∀ first e now time rest x, R first (.error e) → R rest x →
      R (first ++ ⟨.now, now⟩ :: ⟨.wait (.sleep time), some ()⟩ :: rest) x)
    (h : Ends false (callAuthority s retries q).run path c o) :
    ∃ now rest x, path = ⟨.now, now⟩ :: rest ∧ o = some x ∧ c = false ∧ R rest x := by
  unfold callAuthority retry at h
  obtain ⟨_, rest, _, _, rfl, hnow, hrest⟩ := ends_run_bind_iff.mp h
  obtain ⟨now, rfl, -, rfl, rfl⟩ := ends_run_perform_iff.mp hnow
  obtain ⟨hnone, -⟩ | ⟨_, ⟨⟩, hrest⟩ := hrest
  · cases hnone
  obtain ⟨x, rfl, rfl, hR⟩ := ends_retryFrom (fun path c o hcall => by
    obtain ⟨answer, time, rfl, rfl, rfl⟩ := ends_callOnce hcall
    exact ⟨_, rfl, rfl, hask answer time⟩) hlast hagain hrest
  exact ⟨now, rest, x, rfl, rfl, rfl, hR⟩

/-! ### Revocations -/

/-- A path with requests to revoke settles every entry as the answer at its end says. -/
def Settled (limit : Duration) (der : List UInt8) (path : List Happening)
    (answer : Except IssuanceError Unit) : Prop :=
  ∀ b b', After limit der b path b' → b.Settles answer b'

/-- Requests to revoke that are made again settle an entry as the last of them does. -/
theorem settled_callAuthority {s : IssuanceSettings} {retries : Nat}
    {o : Option (Except IssuanceError Unit)}
    (h : Ends false (callAuthority s retries (.revoke der reason)).run path c o) :
    ∃ answer, o = some answer ∧ c = false ∧ Settled s.callTimeout der path answer := by
  have hask : ∀ answer time, Settled s.callTimeout der
      [⟨.authority (.revoke der reason), answer⟩, ⟨.wait (.sleep time), some ()⟩]
      (AuthorityRequest.received s.callTimeout (.revoke der reason) answer) := by
    intro answer time b b' hbook
    cases hbook with
    | asked takes hrest =>
      obtain rfl := (hrest.of_other (by simp)).eq_of_forall (by simp)
      exact takes.settles
    | other differs => exact absurd rfl (differs reason)
  have hlast : ∀ path e now, Settled s.callTimeout der path (.error e) →
      Settled s.callTimeout der (path ++ [⟨.now, now⟩]) (.error e) := by
    intro path e now hR b b' hbook
    obtain ⟨m, hm, hrest⟩ := after_append.mp hbook
    obtain rfl := hrest.eq_of_forall (by simp)
    exact hR b _ hm
  have hagain : ∀ first e now time rest x, Settled s.callTimeout der first (.error e) →
      Settled s.callTimeout der rest x → Settled s.callTimeout der
        (first ++ ⟨.now, now⟩ :: ⟨.wait (.sleep time), some ()⟩ :: rest) x := by
    intro first e now time rest x hR hR' b b' hbook
    obtain ⟨m, hm, hrest⟩ := after_append.mp hbook
    exact (hR b m hm).trans (hR' m b' ((hrest.of_other (by simp)).of_other (by simp)))
  obtain ⟨now, rest, answer, rfl, rfl, rfl, hR⟩ :=
    ends_callAuthority (q := .revoke der reason) hask hlast hagain h
  exact ⟨answer, rfl, rfl, fun b b' hbook => hR b b' (hbook.of_other (by simp))⟩

/-- A revocation at the authority settles an entry as the answer it ends with says. -/
theorem settled_revokeCertificate {s : IssuanceSettings} {o : Option (Except IssuanceError Unit)}
    (h : Ends false (revokeCertificate s der reason).run path c o) :
    ∃ answer, o = some answer ∧ c = false ∧ Settled s.callTimeout der path answer := by
  unfold revokeCertificate at h
  obtain ⟨first, rest, d, ensured, rfl, hensure, hrest⟩ := ends_run_bind_iff.mp h
  -- nothing is revoked while the account is seen to
  have honly : Only (fun a => ∀ reason, a ≠ .authority (.revoke der reason))
      (callAuthority s s.callRetries .ensureAccount).run :=
    .callAuthority (by simp) (by simp) (by simp)
  have hsame : ∀ b m, After s.callTimeout der b first m → m = b :=
    fun b m hm => hm.eq_of_forall fun x hx reason => honly.goes hensure x hx reason
  obtain ⟨_, _, answer, -, rfl, rfl, -⟩ := ends_callAuthority (R := fun _ _ => True)
    (fun _ _ => trivial) (fun _ _ _ _ => trivial) (fun _ _ _ _ _ _ _ _ => trivial) hensure
  obtain ⟨hnone, -⟩ | ⟨_, ⟨⟩, hrest⟩ := hrest
  · cases hnone
  cases answer with
  | error e =>
    obtain ⟨rfl, rfl, rfl⟩ := ends_run_pure_iff.mp hrest
    refine ⟨.error e, rfl, rfl, fun b b' hbook => .inl ?_⟩
    exact hsame b b' (by rwa [List.append_nil] at hbook)
  | ok =>
    obtain ⟨answer, rfl, rfl, hsettled⟩ := settled_callAuthority hrest
    refine ⟨answer, rfl, rfl, fun b b' hbook => ?_⟩
    obtain ⟨m, hm, hrest⟩ := after_append.mp hbook
    obtain rfl := hsame b m hm
    exact hsettled _ b' hrest

/-- **What a revocation comes to.** A certificate that can be revoked and is good at the authority
is revoked in the record if and only if the revocation says that it was done, and that is if and
only if a good answer came from the authority. Otherwise the record is the one from before, and the
certificate is good still, or was revoked by a request whose answer did not say so. -/
theorem revokeRecord_agrees {p : IssuancePractice} {r s : CertificateRecord} {ders : List (List UInt8)}
    {done : Bool} {entry : BookEntry} (hstatus : r.status = .issued ∨ r.status = .expired)
    (hder : Pem.certificates r.certificate = .ok (der :: ders))
    (h : Ends false (revokeRecord p r reason) path c (done, s))
    (hbook : After p.settings.callTimeout der .good path entry) :
    (done = true ↔ s.status = .revoked) ∧ (done = true ↔ entry = .revoked) ∧
      (done = false → s = r ∧ (entry = .good ∨ entry = .unseen)) := by
  unfold revokeRecord at h
  rw [if_neg fun h => hstatus.elim h.1 h.2, hder] at h
  obtain ⟨asks, rest, d, o, rfl, hasks, hrest⟩ := ends_bind_iff.mp h
  obtain ⟨answer, rfl, rfl, hsettled⟩ := settled_revokeCertificate hasks
  obtain ⟨m, hm, hafter⟩ := after_append.mp hbook
  have hsettles := hsettled _ _ hm
  have hunrevoked : r.status ≠ .revoked := by
    obtain h | h := hstatus <;> rw [h] <;> nofun
  cases answer with
  | error e =>
    obtain ⟨rfl, rfl, ⟨⟩⟩ := ends_done_iff.mp hrest
    obtain rfl := hafter.eq_of_forall (by simp)
    have hentry : entry = .good ∨ entry = .unseen := by
      obtain rfl | ⟨-, rfl⟩ := hsettles
      · exact .inl rfl
      · exact .inr rfl
    refine ⟨by simp [hunrevoked], ?_, fun _ => ⟨rfl, hentry⟩⟩
    obtain rfl | rfl := hentry <;> simp
  | ok =>
    obtain ⟨_, _, _, now, rfl, hnow, hlast⟩ := ends_bind_iff.mp hrest
    obtain ⟨rfl, -, rfl⟩ := ends_perform_iff.mp hnow
    rw [CertificateRecord.markRevoked, if_pos hstatus] at hlast
    obtain ⟨rfl, rfl, ⟨⟩⟩ := ends_done_iff.mp hlast
    obtain rfl := hafter.eq_of_forall (by simp)
    exact ⟨by simp [CertificateRecord.touch], by simp [hsettles.2], nofun⟩

/-- A record with a certificate of two bytes, which is enough to be asked to revoke. -/
def sampleIssued : CertificateRecord :=
  { id := "cert_1", primaryDomain := "example.com", autoRenew := true, status := .issued
    certificate := "-----BEGIN CERTIFICATE-----\neHg=\n-----END CERTIFICATE-----\n"
    createdAt := { seconds := 9 }, updatedAt := { seconds := 9 } }

theorem certificates_sampleIssued : Pem.certificates sampleIssued.certificate = .ok [[120, 120]] := by
  have htext : sampleIssued.certificate = Pem.ofCertificates [[120, 120]] := by decide +kernel
  rw [htext, Pem.certificates_ofCertificates (by decide)]

/-- A request to revoke that is answered at once, once the account is seen to. -/
def sampleAsked (answer : Except IssuanceError Unit) : List Happening :=
  [⟨.now, (0 : Nat)⟩, ⟨.authority .ensureAccount, (.ok (), (0 : Nat))⟩,
    ⟨.wait (.sleep (0 : Nat)), some ()⟩, ⟨.now, (0 : Nat)⟩,
    ⟨.authority (.revoke [120, 120] .keyCompromise), (answer, (0 : Nat))⟩,
    ⟨.wait (.sleep (0 : Nat)), some ()⟩]

/-- A certificate that is revoked at the first request. -/
theorem revokeRecord_agrees_sampleIssued :
    let path := sampleAsked (.ok ()) ++ [⟨.wallClock, { seconds := 10 }⟩]
    let s := { sampleIssued with revocation := some .keyCompromise, status := .revoked
                                 updatedAt := { seconds := 10 } }
    Ends false (revokeRecord {} sampleIssued .keyCompromise) path false (true, s) ∧
      After (.ofSeconds 30) [120, 120] .good path .revoked ∧ s.status = .revoked := by
  intro path s
  have h : Ends false (revokeRecord {} sampleIssued .keyCompromise) path false (true, s) := by
    unfold revokeRecord
    rw [if_neg (by decide), certificates_sampleIssued]
    exact .ask trivial (.ask trivial (.ask trivial (.ask trivial (.ask trivial (.ask trivial
      (.ask trivial (.stay _ _)))))))
  have hbook : After (.ofSeconds 30) [120, 120] .good path .revoked :=
    .other (by simp) (.other (by simp) (.other (by simp) (.other (by simp)
      (.asked .done (.other (by simp) (.other (by simp) (.start _)))))))
  have hagrees := revokeRecord_agrees (.inl rfl) certificates_sampleIssued h hbook
  exact ⟨h, hbook, hagrees.1.mp rfl⟩

/-- The last answer that a caller got along a path who waits for no answer longer than `limit`. -/
def lastAnswer? (limit : Duration) (path : List Happening) : Option (Except IssuanceError Unit) :=
  (path.filterMap fun
    | ⟨.authority q, answer⟩ => some ((q.received limit answer).map fun _ => ())
    | _ => none).getLast?

/-- The record and the authority do not agree whenever the last answer is clear: the first request
is carried out although its answer is lost, and the second one is refused for that. -/
theorem revokeRecord_disagrees : ¬ ∀ (p : IssuancePractice) (r s : CertificateRecord)
    (reason : Revocation) (der : List UInt8) (ders : List (List UInt8)) (path : List Happening)
    (c done : Bool) (entry : BookEntry), r.status = .issued ∨ r.status = .expired →
    Pem.certificates r.certificate = .ok (der :: ders) →
    Ends false (revokeRecord p r reason) path c (done, s) →
    After p.settings.callTimeout der .good path entry →
    (∀ e, lastAnswer? p.settings.callTimeout path = some (.error e) → e.leavesOpen = false) →
    (s.status = .revoked ↔ entry.isRevoked = true) ∧ (done = true ↔ entry.isRevoked = true) := by
  intro hagree
  let lost : IssuanceError := .transient "revoke" "connection reset"
  let refusal : IssuanceError := .rejected "revoke" "alreadyRevoked"
  let path : List Happening := sampleAsked (.error lost) ++
    [⟨.now, (0 : Nat)⟩, ⟨.wait (.sleep (.ofSeconds 1)), some ()⟩,
      ⟨.authority (.revoke [120, 120] .keyCompromise), (.error refusal, (0 : Nat))⟩,
      ⟨.wait (.sleep (0 : Nat)), some ()⟩]
  have h : Ends false (revokeRecord {} sampleIssued .keyCompromise) path false
      (false, sampleIssued) := by
    unfold revokeRecord
    rw [if_neg (by decide), certificates_sampleIssued]
    exact .ask trivial (.ask trivial (.ask trivial (.ask trivial (.ask trivial (.ask trivial
      (.ask trivial (.ask trivial (.ask trivial (.ask trivial (.stay _ _))))))))))
  have hbook : After (.ofSeconds 30) [120, 120] .good path .unseen :=
    .other (by simp) (.other (by simp) (.other (by simp) (.other (by simp)
      (.asked (.lost rfl) (.other (by simp) (.other (by simp) (.other (by simp)
        (.asked .stays (.other (by simp) (.start _))))))))))
  have hclear : ∀ e, lastAnswer? (.ofSeconds 30) path = some (.error e) → e.leavesOpen = false := by
    rintro e ⟨⟩
    rfl
  have hsame := (hagree {} sampleIssued sampleIssued .keyCompromise [120, 120] [] path false false
    .unseen (.inl rfl) certificates_sampleIssued h hbook hclear).2
  exact Bool.false_ne_true (hsame.mpr rfl)

end CertSteward
