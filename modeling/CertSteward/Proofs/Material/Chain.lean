import CertSteward.Proofs.Material.Pem

/-!
# Chains of certificates

A chain is split into its first certificate and the others by reading its blocks and writing two
texts. Both texts are made of certificates only, and written one behind the other they are split
into themselves again, although no empty line stands between them then.

## Main results

* `Pem.splitChain_eq_ok_iff` — what a chain is split into
* `Pem.writes_back_and_splits` — blocks that were written are read again, and what the two parts
  of a chain hold
-/

namespace CertSteward

namespace Pem

variable {text leaf above : String} {der : List UInt8} {ders : List (List UInt8)}

/-- The tags under which blocks are written. -/
def tags : List String := [certificateTag, privateKeyTag, requestTag]

/-- Blocks without headers under these tags. -/
theorem plain_of_mem_tags {b : PemBlock} (htag : b.tag ∈ tags) (hheaders : b.headers = []) :
    b.Plain := by
  have hall : ∀ tag ∈ tags, tag.toList ≠ [] ∧ '-' ∉ tag.toList := by decide
  exact ⟨hheaders, (hall _ htag).1, (hall _ htag).2⟩

/-- What a chain is split into. -/
theorem splitChain_eq_ok_iff : splitChain text = .ok (leaf, above) ↔
    ∃ der ders, certificates text = .ok (der :: ders) ∧ leaf = ofCertificates [der] ∧
      above = ofCertificates ders := by
  rw [splitChain]
  cases hc : certificates text with
  | error e => exact ⟨nofun, fun ⟨_, _, h, _⟩ => nomatch h⟩
  | ok ders =>
    cases ders with
    | nil => exact ⟨nofun, fun ⟨_, _, h, _⟩ => nomatch h⟩
    | cons der ders =>
      simp only [bind, Except.bind, pure, Except.pure, Except.ok.injEq, Prod.mk.injEq]
      constructor
      · rintro ⟨rfl, rfl⟩
        exact ⟨der, ders, rfl, rfl, rfl⟩
      · rintro ⟨_, _, h, rfl, rfl⟩
        cases h
        exact ⟨rfl, rfl⟩

theorem ofCertificates_eq_empty_iff : ofCertificates ders = "" ↔ ders = [] := by
  constructor
  · intro h
    have hlength := (spells_encodeChars (plain_of_mem_map ders)).length_le
    have hempty : encodeChars (ders.map certificateBlock) = [] := String.ofList_eq_empty_iff.mp h
    rw [hempty, List.length_map] at hlength
    exact List.eq_nil_of_length_eq_zero (Nat.le_zero.mp hlength)
  · rintro rfl
    rfl

/-- Certificates that were written one behind the other are read as one chain. -/
theorem certificates_append (hne : ders ≠ []) (ders' : List (List UInt8)) :
    certificates (ofCertificates ders ++ ofCertificates ders') = .ok (ders ++ ders') := by
  have hspells : Spells (encodeChars (ders.map certificateBlock) ++
      encodeChars (ders'.map certificateBlock)) ((ders ++ ders').map certificateBlock) := by
    rw [List.map_append]
    exact (spells_encodeChars (plain_of_mem_map _)).encodeChars_append (plain_of_mem_map _)
  have htext : ofCertificates ders ++ ofCertificates ders' =
      String.ofList (encodeChars (ders.map certificateBlock) ++
        encodeChars (ders'.map certificateBlock)) := String.ofList_append.symm
  rw [htext]
  exact certificates_eq_ok_iff.mpr ⟨by simp [hne], _, hspells.decode (by simp [hne]), dersOf_map _⟩

/-- **What was written is read again, and a chain is split without loss.** Blocks with any contents
under the tags in use are read as they were written. A text with a certificate among its blocks is
split into a text of the first certificate and nothing else, and a text of the others in their
order, which is empty if there are none; and one behind the other the two are split into themselves
again. -/
theorem writes_back_and_splits :
    (∀ bs : List (String × List UInt8), bs ≠ [] → (∀ b ∈ bs, b.1 ∈ tags) →
      let blocks := bs.map fun b => ({ tag := b.1, contents := b.2 } : PemBlock)
      decode (encode blocks) = .ok blocks) ∧
    ∀ text bs, decode text = .ok bs → (∃ b ∈ bs, b.tag = certificateTag) →
      ∃ der ders leaf above, dersOf bs = der :: ders ∧ splitChain text = .ok (leaf, above) ∧
        certificates leaf = .ok [der] ∧ (above = "" ↔ ders = []) ∧
        (ders ≠ [] → certificates above = .ok ders) ∧
        decode leaf = .ok [certificateBlock der] ∧
        (ders ≠ [] → decode above = .ok (ders.map certificateBlock)) ∧
        splitChain (leaf ++ above) = .ok (leaf, above) := by
  constructor
  · intro bs hne htags
    have hplain : ∀ b ∈ bs.map fun b => ({ tag := b.1, contents := b.2 } : PemBlock), b.Plain := by
      intro b hb
      obtain ⟨part, hpart, rfl⟩ := List.mem_map.mp hb
      exact plain_of_mem_tags (htags part hpart) rfl
    exact (spells_encodeChars hplain).decode (by simpa using hne)
  · rintro text bs hread ⟨b, hb, htag⟩
    obtain ⟨der, ders, hders⟩ : ∃ der ders, dersOf bs = der :: ders := by
      refine List.exists_cons_of_ne_nil (List.ne_nil_of_mem (a := b.contents) ?_)
      exact List.mem_map_of_mem (List.mem_filter.mpr ⟨hb, beq_iff_eq.mpr htag⟩)
    have hcert : certificates text = .ok (der :: ders) :=
      certificates_eq_ok_iff.mpr ⟨List.cons_ne_nil _ _, bs, hread, hders⟩
    have hdecode : ∀ {ders}, ders ≠ [] →
        decode (ofCertificates ders) = .ok (ders.map certificateBlock) := fun hne =>
      (spells_encodeChars (plain_of_mem_map _)).decode (by simpa using hne)
    have hone : [der] ≠ [] := List.cons_ne_nil _ _
    exact ⟨der, ders, ofCertificates [der], ofCertificates ders, hders,
      splitChain_eq_ok_iff.mpr ⟨der, ders, hcert, rfl, rfl⟩, certificates_ofCertificates hone,
      ofCertificates_eq_empty_iff, certificates_ofCertificates, hdecode hone, hdecode,
      splitChain_eq_ok_iff.mpr ⟨der, ders, certificates_append hone ders, rfl, rfl⟩⟩

/-- A certificate, a key without bytes and two more certificates. -/
def sampleBlocks : List (String × List UInt8) :=
  [(certificateTag, [1, 2, 3]), (privateKeyTag, []), (certificateTag, [4]),
    (certificateTag, [5, 6])]

/-- The key is left out. -/
theorem writes_back_and_splits_sampleBlocks :
    let text := encode (sampleBlocks.map fun b => { tag := b.1, contents := b.2 })
    decode text = .ok (sampleBlocks.map fun b => { tag := b.1, contents := b.2 }) ∧
    ∃ leaf above, splitChain text = .ok (leaf, above) ∧ certificates leaf = .ok [[1, 2, 3]] ∧
      certificates above = .ok [[4], [5, 6]] ∧ splitChain (leaf ++ above) = .ok (leaf, above) := by
  have hread := writes_back_and_splits.1 sampleBlocks (by decide) (by decide)
  obtain ⟨der, ders, leaf, above, hders, hsplit, hleaf, -, habove, -, -, hagain⟩ :=
    writes_back_and_splits.2 _ _ hread ⟨_, List.mem_cons_self, rfl⟩
  have hsample : dersOf (sampleBlocks.map fun b => { tag := b.1, contents := b.2 }) =
      [1, 2, 3] :: [[4], [5, 6]] := by decide
  obtain ⟨rfl, rfl⟩ := List.cons.inj (hsample.symm.trans hders)
  exact ⟨hread, leaf, above, hsplit, hleaf, habove (by decide), hagain⟩

end Pem

end CertSteward
