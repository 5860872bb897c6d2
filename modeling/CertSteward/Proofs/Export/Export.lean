import CertSteward.Export.Export
import CertSteward.Proofs.Material.Chain
import CertSteward.Proofs.Text.Chars

/-!
# What an export as text holds

An export cuts the blanks off the end of each part and closes it by a line feed. As the text of
blocks ends with a line feed and has no blank before it, each part is then exactly the text of its
blocks, whatever blanks were behind it, and the parts follow each other as blocks that were written.

## Main definitions

* `Text.IsPadded` — a text with blanks behind it
* `Pem.HasBlocks` — the blocks of a part, none if it is blank
* `CertificateRecord.IsWritten` — records whose parts are texts that were written

## Main results

* `Pem.IsTextOf.exportedPart` — the text of a part in an export
* `CertificateRecord.exportAs_keeps_blocks` — an export holds the blocks of its parts, and there is
  none without a certificate
-/

namespace CertSteward

/-- The text `t` is `s` with blanks behind it. -/
def Text.IsPadded (s t : String) : Prop :=
  ∃ blanks : List Char, (∀ c ∈ blanks, Chars.isBlank c = true) ∧ t = s ++ String.ofList blanks

namespace Pem

variable {text : String} {bs cs ds : List PemBlock}

/-! ### One part -/

/-- The blocks of a part: those that are read, or none if it is blank. -/
def HasBlocks (text : String) (bs : List PemBlock) : Prop :=
  decode text = .ok bs ∨ Text.isBlank text = true ∧ bs = []

/-- A hyphen is no blank. -/
theorem notMem_of_blank {blanks : List Char} (h : ∀ c ∈ blanks, Chars.isBlank c = true) :
    '-' ∉ blanks := fun hmem => absurd (h '-' hmem) (by decide)

/-- A blank text has no blocks. -/
theorem isBlank_of_decode (h : decode text = .ok bs) : Text.isBlank text = false := by
  rw [← Bool.not_eq_true]
  intro hblank
  have hnone := (spells_of_notMem (notMem_of_blank (List.all_eq_true.mp hblank))).found
    text.toList.length (Nat.zero_le _)
  rw [decode, blocks, hnone] at h
  cases h

/-- The text of plain blocks, with blanks behind it. -/
structure IsTextOf (text : String) (bs : List PemBlock) : Prop where
  plain : ∀ b ∈ bs, b.Plain
  padded : Text.IsPadded (encode bs) text

/-- The text of blocks ends with a hyphen and a line feed. -/
theorem encodeChars_eq_concat (b : PemBlock) (bs : List PemBlock) :
    ∃ body, encodeChars (b :: bs) = body ++ ['-', '\n'] := by
  have hblock : ∀ b, ∃ body, encodeBlock b = body ++ ['-', '\n'] := by
    intro b
    have hend : ∃ body, encodeBlock b = body ++ dashes ++ ['\n'] := ⟨_, rfl⟩
    obtain ⟨body, hbody⟩ := hend
    exact ⟨body ++ ['-', '-', '-', '-'], by rw [hbody, dashes]; simp⟩
  induction bs generalizing b with
  | nil => exact hblock b
  | cons c bs ih =>
    obtain ⟨body, hbody⟩ := ih c
    exact ⟨encodeBlock b ++ '\n' :: body, by rw [encodeChars, hbody]; simp⟩

theorem IsTextOf.hasBlocks (h : IsTextOf text bs) : HasBlocks text bs := by
  obtain ⟨hplain, blanks, hblanks, rfl⟩ := h
  cases bs with
  | nil =>
    refine .inr ⟨?_, rfl⟩
    rw [Text.isBlank, String.toList_append, encode, encodeChars, String.toList_ofList,
      String.toList_ofList, List.nil_append]
    exact List.all_eq_true.mpr hblanks
  | cons b bs =>
    have hspells := (spells_of_notMem (notMem_of_blank hblanks)).encodeChars_append hplain
    rw [List.append_nil] at hspells
    rw [encode, ← String.ofList_append]
    exact .inl (hspells.decode (List.cons_ne_nil _ _))

/-- In an export the blanks behind the text of blocks are gone. -/
theorem IsTextOf.exportedPart (h : IsTextOf text bs) : exportedPart text = encodeChars bs := by
  obtain ⟨-, blanks, hblanks, rfl⟩ := h
  have hpart : (encode bs ++ String.ofList blanks).toList = encodeChars bs ++ blanks := by
    rw [String.toList_append, encode, String.toList_ofList, String.toList_ofList]
  rw [CertSteward.exportedPart, Text.isBlank, hpart]
  cases bs with
  | nil => rw [encodeChars, List.nil_append, if_pos (List.all_eq_true.mpr hblanks)]
  | cons b bs =>
    obtain ⟨body, hbody⟩ := encodeChars_eq_concat b bs
    have htrim : Chars.trimEnd (encodeChars (b :: bs) ++ blanks) = body ++ ['-'] := by
      refine Chars.dropEndWhile_eq_iff.mpr ⟨'\n' :: blanks, ?_, ?_, ?_⟩
      · rw [hbody, List.append_assoc, List.append_assoc]
        rfl
      · exact List.forall_mem_cons.mpr ⟨by decide, hblanks⟩
      · intro c hc
        obtain rfl : c = '-' := by simpa using hc.symm
        decide
    have hnot : ¬ ((encodeChars (b :: bs) ++ blanks).all Chars.isBlank = true) := by
      rw [List.all_eq_true, hbody]
      intro hall
      exact absurd (hall '-' (by simp)) (by decide)
    rw [if_neg hnot, htrim, hbody, List.append_assoc]
    rfl

end Pem

/-! ### The export -/

namespace CertificateRecord

variable {r : CertificateRecord}

/-- A record whose parts are texts that were written, with blanks behind them: its certificate and
its chain come from chains that were split, and its key is blank or made of private keys. -/
structure IsWritten (r : CertificateRecord) : Prop where
  certificate : ∃ whole leaf above, Pem.splitChain whole = .ok (leaf, above) ∧
    Text.IsPadded leaf r.certificate
  chain : ∃ whole leaf above, Pem.splitChain whole = .ok (leaf, above) ∧
    Text.IsPadded above r.chain
  key : r.key.isBlank = true ∨ ∃ keys : List (List UInt8), Text.IsPadded
    (Pem.encode (keys.map fun key => { tag := Pem.privateKeyTag, contents := key })) r.key.text

theorem IsWritten.exists_blocks (h : r.IsWritten) : ∃ c hs ks,
    Pem.IsTextOf r.certificate [c] ∧ Pem.IsTextOf r.chain hs ∧ Pem.IsTextOf r.key.text ks := by
  obtain ⟨_, leaf, _, hleaf, hcertificate⟩ := h.certificate
  obtain ⟨der, _, -, rfl, -⟩ := Pem.splitChain_eq_ok_iff.mp hleaf
  obtain ⟨_, _, above, habove, hchain⟩ := h.chain
  obtain ⟨_, ders, -, -, rfl⟩ := Pem.splitChain_eq_ok_iff.mp habove
  obtain ⟨ks, hkey⟩ : ∃ ks, Pem.IsTextOf r.key.text ks := by
    obtain hblank | ⟨keys, hkeys⟩ := h.key
    · refine ⟨[], nofun, r.key.text.toList, List.all_eq_true.mp hblank, ?_⟩
      rw [String.ofList_toList]
      exact String.empty_append.symm
    · refine ⟨_, fun b hb => ?_, hkeys⟩
      obtain ⟨key, -, rfl⟩ := List.mem_map.mp hb
      exact Pem.plain_of_mem_tags (show Pem.privateKeyTag ∈ Pem.tags by decide) rfl
  exact ⟨Pem.certificateBlock der, ders.map Pem.certificateBlock, ks,
    ⟨Pem.plain_of_mem_map [der], hcertificate⟩, ⟨Pem.plain_of_mem_map ders, hchain⟩, hkey⟩

/-- The parts of an export follow each other as blocks that were written. -/
theorem decode_exportText {c : PemBlock} {hs ks : List PemBlock}
    (hcertificate : Pem.IsTextOf r.certificate [c]) (hchain : Pem.IsTextOf r.chain hs)
    (hkey : Pem.IsTextOf r.key.text ks) :
    Pem.decode r.exportText = .ok ([c] ++ hs ++ ks) := by
  have htext : r.exportText = String.ofList
      (Pem.encodeChars [c] ++ (Pem.encodeChars hs ++ Pem.encodeChars ks)) := by
    rw [exportText, List.flatMap_cons, List.flatMap_cons, List.flatMap_cons, List.flatMap_nil,
      hcertificate.exportedPart, hchain.exportedPart, hkey.exportedPart, List.append_nil]
  have hspells := ((Pem.spells_encodeChars hkey.plain).encodeChars_append
    hchain.plain).encodeChars_append hcertificate.plain
  rw [htext, List.append_assoc]
  exact hspells.decode (List.cons_ne_nil _ _)

/-- Without a certificate nothing else is looked at. -/
theorem exportAs_of_isBlank {format : ExportFormat} {passphrase : Option String}
    (h : Text.isBlank r.certificate = true) :
    r.exportAs format passphrase = .error (.missingCertificate r.id) := by
  rw [exportAs.eq_def, hasMaterial, h]
  rfl

/-- **An export as text keeps the blocks of its parts.** If the parts of a record are texts that
were written, with blanks behind them, then exporting it as text succeeds whatever the passphrase,
and the blocks of the result are those of the certificate, of the chain and of the key, one behind
the other. Without a certificate there is no export in any format, whatever the key is. -/
theorem exportAs_keeps_blocks (r : CertificateRecord) :
    (r.IsWritten → ∀ passphrase, ∃ text cs hs ks,
      r.exportAs .pem passphrase = .ok (.text text) ∧ Pem.HasBlocks r.certificate cs ∧
        Pem.HasBlocks r.chain hs ∧ Pem.HasBlocks r.key.text ks ∧
        Pem.decode text = .ok (cs ++ hs ++ ks)) ∧
    (Text.isBlank r.certificate = true → ∀ format passphrase key,
      { r with key }.exportAs format passphrase = .error (.missingCertificate r.id)) := by
  constructor
  · intro h passphrase
    obtain ⟨c, hs, ks, hcertificate, hchain, hkey⟩ := h.exists_blocks
    have hread := hcertificate.hasBlocks.resolve_right fun hnone => nomatch hnone.2
    refine ⟨r.exportText, [c], hs, ks, ?_, .inl hread, hchain.hasBlocks, hkey.hasBlocks,
      decode_exportText hcertificate hchain hkey⟩
    rw [exportAs, hasMaterial, Pem.isBlank_of_decode hread]
    rfl
  · intro hblank format passphrase key
    exact exportAs_of_isBlank (r := { r with key }) hblank

/-- Blanks of several kinds. -/
def sampleBlanks : List Char := ['\n', ' ', '\r', '\t', '\u00a0']

/-- A record with a certificate, two above it and a key, and blanks behind the first and the last
of them. -/
def sampleExported : CertificateRecord where
  id := "cert_1"
  primaryDomain := "example.com"
  certificate := Pem.ofCertificates [[1, 2]] ++ String.ofList sampleBlanks
  chain := Pem.ofCertificates [[3], [4, 5]]
  key := { text := Pem.encode [{ tag := Pem.privateKeyTag, contents := [6] }] ++
    String.ofList sampleBlanks }
  autoRenew := true
  createdAt := { seconds := 0 }
  updatedAt := { seconds := 0 }

theorem isWritten_sampleExported : sampleExported.IsWritten := by
  have hread : Pem.certificates (Pem.ofCertificates [[1, 2], [3], [4, 5]]) =
      .ok ([1, 2] :: [[3], [4, 5]]) := Pem.certificates_ofCertificates (List.cons_ne_nil _ _)
  have hsplit : Pem.splitChain (Pem.ofCertificates [[1, 2], [3], [4, 5]]) =
      .ok (Pem.ofCertificates [[1, 2]], Pem.ofCertificates [[3], [4, 5]]) :=
    Pem.splitChain_eq_ok_iff.mpr ⟨_, _, hread, rfl, rfl⟩
  have hblanks : ∀ c ∈ sampleBlanks, Chars.isBlank c = true :=
    List.all_eq_true.mp (by decide)
  exact ⟨⟨_, _, _, hsplit, sampleBlanks, hblanks, rfl⟩,
    ⟨_, _, _, hsplit, [], nofun, String.append_empty.symm⟩,
    .inr ⟨[[6]], sampleBlanks, hblanks, rfl⟩⟩

/-- The blanks do not matter. -/
theorem exportAs_keeps_blocks_sampleExported : sampleExported.IsWritten ∧
    ∃ text cs hs ks, sampleExported.exportAs .pem (some "secret") = .ok (.text text) ∧
      Pem.HasBlocks sampleExported.certificate cs ∧ Pem.HasBlocks sampleExported.chain hs ∧
      Pem.HasBlocks sampleExported.key.text ks ∧ Pem.decode text = .ok (cs ++ hs ++ ks) :=
  ⟨isWritten_sampleExported,
    (exportAs_keeps_blocks sampleExported).1 isWritten_sampleExported (some "secret")⟩

end CertificateRecord

end CertSteward
