import CertSteward.Issuance.Run
import CertSteward.Proofs.Material.Chain
import CertSteward.Proofs.Run.Conduct
import CertSteward.Proofs.Time.Order

/-!
# The material that a run hands out

A certificate is taken from the authority only if it can be read and has not run out, and it is
written again before it is kept. So whatever the authority answers, what a run hands out is fit for
a record: neither the certificate nor the key is blank, and it runs out after it was issued.

## Main definitions

* `IssuedMaterial.Fit` — what a record asks of its material

## Main results

* `Pem.isBlank_encode` — a text of blocks is not blank
* `issueCertificate_material` — what a run hands out was made by `materialOf`
* `materialOf_fit`, `issueCertificate_fit` — the material of a run is fit
-/

namespace CertSteward

/-- A record can take the material in. -/
structure IssuedMaterial.Fit (m : IssuedMaterial) : Prop where
  /-- It runs out after it was issued. -/
  issuedAt_lt : m.issuedAt < m.expiresAt
  /-- There is a certificate. -/
  certificate : Text.isBlank m.certificate = false
  /-- There is a key. -/
  key : m.key.isBlank = false

/-- A text of blocks is not blank. -/
theorem Pem.isBlank_encode (b : PemBlock) (bs : List PemBlock) :
    Text.isBlank (Pem.encode (b :: bs)) = false := by
  have hmem : '-' ∈ Pem.encodeChars (b :: bs) := by
    have hmark : '-' ∈ Pem.beginMark := by decide
    cases bs <;> simp [Pem.encodeChars, Pem.encodeBlock, hmark]
  rw [Text.isBlank, Pem.encode, String.toList_ofList, List.all_eq_false]
  exact ⟨'-', hmem, by decide⟩

theorem Pem.isBlank_of_splitChain {text leaf above : String}
    (h : Pem.splitChain text = .ok (leaf, above)) : Text.isBlank leaf = false := by
  obtain ⟨der, _, -, rfl, -⟩ := Pem.splitChain_eq_ok_iff.mp h
  exact Pem.isBlank_encode _ []

theorem materialOf_fit {chain : String} {key : KeyPair} {now : Instant} {m : IssuedMaterial}
    (h : materialOf chain key now = .ok m) : m.Fit := by
  unfold materialOf at h
  cases hs : Pem.splitChain chain with
  | error e => rw [hs] at h; cases h
  | ok parts =>
    obtain ⟨certificate, above⟩ := parts
    rw [hs] at h
    replace h : (((certificateValidity certificate).mapError .material).bind fun dates =>
        if dates.2 ≤ now then throw _ else return _ : Except IssuanceError IssuedMaterial) = _ := h
    cases hv : certificateValidity certificate with
    | error e => rw [hv] at h; cases h
    | ok dates =>
      rw [hv] at h
      replace h : (if dates.2 ≤ now then throw _ else return _ :
        Except IssuanceError IssuedMaterial) = _ := h
      split at h
      · cases h
      · rename_i hlt
        cases h
        exact ⟨Instant.not_le.mp hlt, Pem.isBlank_of_splitChain hs, Pem.isBlank_encode _ []⟩

open Steward in
theorem issueHeld_material (p : IssuancePractice) (domain : String) (names : List String)
    (request : List UInt8) (key : KeyPair) :
    Yields (fun issued => ∀ c, issued = .ok c →
      ∃ chain key now, materialOf chain key now = .ok c.material)
      (issueHeld p domain names request key) := by
  unfold issueHeld
  refine .bind fun _ => .bind fun ⟨result, _⟩ => .bind fun _ => .bind fun _ => .bind fun _ => ?_
  cases result with
  | error e => cases e <;> exact yields_pure nofun
  | ok chain =>
    refine .bind fun now => yields_pure fun c hc => ?_
    cases hm : materialOf chain key now with
    | error e => rw [hm] at hc; cases hc
    | ok m =>
      rw [hm] at hc
      cases hc
      exact ⟨chain, key, now, hm⟩

open Steward in
/-- Whatever a run hands out was made of what the authority answered. -/
theorem issueCertificate_material (p : IssuancePractice) (r : IssuanceRequest) (mode : LockMode) :
    Yields (fun issued => ∀ c, issued = .ok c →
      ∃ chain key now, materialOf chain key now = .ok c.material) (issueCertificate p r mode) := by
  unfold issueCertificate
  cases r.normal with
  | error e => exact yields_pure nofun
  | ok r =>
    refine .bind fun key => ?_
    cases r.signed key with
    | error e => exact yields_pure nofun
    | ok parts =>
      obtain ⟨key, names, request⟩ := parts
      refine .bind fun lock => ?_
      cases lock with
      | error e => exact yields_pure nofun
      | ok lock =>
        intro b path c issued h
        -- the domain is let go last, and the result is the one from before
        obtain ⟨_, _, _, issued', -, hi, h⟩ := ends_bind_iff.mp h
        obtain ⟨_, _, _, _, -, -, h⟩ := ends_bind_iff.mp h
        obtain ⟨-, -, rfl⟩ := ends_done_iff.mp h
        exact issueHeld_material p r.primary names request key _ _ _ _ hi

open Steward in
/-- Whatever the authority answers, a run hands out material that a record can take in. -/
theorem issueCertificate_fit (p : IssuancePractice) (r : IssuanceRequest) (mode : LockMode) :
    Yields (fun issued => ∀ c, issued = .ok c → c.material.Fit) (issueCertificate p r mode) := by
  intro b path d issued h c hc
  obtain ⟨chain, key, now, hm⟩ := issueCertificate_material p r mode b path d issued h c hc
  exact materialOf_fit hm

end CertSteward
