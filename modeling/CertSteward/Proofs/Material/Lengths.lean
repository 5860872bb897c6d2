import CertSteward.Proofs.Bytes.Utf8
import CertSteward.Proofs.Material.Request
import CertSteward.Proofs.Material.Signed

/-!
# Requests and certificates have a form

There is no form for values that are longer than any memory. The values here are far from that: a
value takes at most about twice the bytes of what is inside it, so that nothing which is put
together from a few parts in a few layers comes near the limit.

## Main results

* `Der.length_write_le` — a value is at most about twice as long as its contents
* `CertificateRequest.length_toDer_lt` — a request has a form
* `Certificate.length_toDer_lt` — a certificate has no more bytes than can be written
-/

namespace CertSteward

theorem Utf8.length_encode (s : String) : (encode s).length = s.utf8ByteSize := by
  rw [encode, ByteArray.toList, toList_loop_eq_drop]
  rfl

/-! ### Digests -/

namespace Sha256

theorem size_mixAll {state : Array UInt32} (h : state.size = 8) (n : Nat) (bytes : List UInt8) :
    (mixAll n state bytes).size = 8 := by
  induction n generalizing state bytes with
  | zero => exact h
  | succ n ih => exact ih (by simp [mix]) _

theorem length_output (state : Array UInt32) : (output state).length = 4 * state.size := by
  rw [output, List.length_flatMap]
  simp [Nat.mul_comm]

end Sha256

@[simp]
theorem length_sha256 (message : List UInt8) : (sha256 message).length = 32 := by
  rw [sha256, Sha256.length_output, Sha256.size_mixAll rfl]

/-! ### Values -/

namespace Der

variable {l : List Der} {n : Nat}

theorem length_bytesOfNat_le_self (n : Nat) : (bytesOfNat n).length ≤ n := by
  induction n using bytesOfNat.induct with
  | case1 => simp [bytesOfNat]
  | case2 n hn ih =>
    rw [bytesOfNat, if_neg hn, List.length_append, List.length_singleton]
    omega

/-- A value is at most about twice as long as its contents. -/
theorem length_write_le (v : Der) : v.write.length ≤ 2 * v.contents.length + 2 := by
  have hbytes := length_bytesOfNat_le_self v.contents.length
  rw [write, List.length_append, List.length_cons, lengthBytes]
  split
  · rw [List.length_singleton]
    omega
  · rw [List.length_cons]
    omega

theorem length_writeAll_le (h : ∀ v ∈ l, v.write.length ≤ n) :
    (writeAll l).length ≤ l.length * n := by
  induction l with
  | nil => exact Nat.zero_le _
  | cons v l ih =>
    have hv := h v List.mem_cons_self
    have hl := ih fun u hu => h u (List.mem_cons_of_mem _ hu)
    rw [writeAll_cons, List.length_append, List.length_cons, Nat.add_mul, Nat.one_mul]
    omega

theorem length_sequence_le (h : ∀ v ∈ l, v.write.length ≤ n) :
    (sequence l).write.length ≤ 2 * (l.length * n) + 2 := by
  have hcontents : (sequence l).contents.length ≤ l.length * n := length_writeAll_le h
  have := length_write_le (sequence l)
  omega

theorem length_pair_le {u v : Der} (hu : u.write.length ≤ n) (hv : v.write.length ≤ n) :
    (sequence [u, v]).write.length ≤ 4 * n + 2 := by
  have := length_sequence_le (l := [u, v]) fun w hw =>
    (List.mem_pair.mp hw).elim (fun h => h ▸ hu) fun h => h ▸ hv
  simp only [List.length_cons, List.length_nil] at this
  omega

theorem length_integerOfBytes_le (bs : List UInt8) :
    (integerOfBytes bs).write.length ≤ 2 * bs.length + 4 := by
  have hdrop := (List.dropWhile_sublist (· == 0) (l := bs)).length_le
  have hcontents : (integerOfBytes bs).contents.length ≤ bs.length + 1 := by
    rw [integerOfBytes]
    dsimp only
    split
    · rw [List.length_singleton]
      omega
    · split
      · omega
      · rw [List.length_cons]
        omega
  have := length_write_le (integerOfBytes bs)
  omega

theorem lengthLimit_ge : 2 ^ 100 ≤ lengthLimit := by
  rw [lengthLimit]
  decide

end Der

namespace ObjectId

theorem length_highGroups_le (n : Nat) : (highGroups n).length ≤ n := by
  induction n using highGroups.induct with
  | case1 => simp [highGroups]
  | case2 n hn ih =>
    rw [highGroups, if_neg hn, List.length_append, List.length_singleton]
    omega

theorem length_flatMap_numberBytes_le (ns : List Nat) :
    (ns.flatMap numberBytes).length ≤ ns.sum + ns.length := by
  induction ns with
  | nil => exact Nat.zero_le _
  | cons n ns ih =>
    have := length_highGroups_le (n / 128)
    rw [List.flatMap_cons, List.length_append, numberBytes, List.length_append,
      List.length_singleton, List.sum_cons, List.length_cons]
    omega

theorem length_toDer_le (o : ObjectId) :
    o.toDer.write.length ≤ 2 * (o.path.sum + o.path.length) + 4 := by
  have hbytes : o.toBytes.length ≤ o.path.sum + o.path.length + 1 := by
    rw [toBytes]
    split
    · rename_i a b rest hpath
      have := length_flatMap_numberBytes_le rest
      rw [List.length_cons, hpath]
      simp only [List.sum_cons, List.length_cons]
      omega
    · exact Nat.le_succ_of_le (length_flatMap_numberBytes_le _)
  have := Der.length_write_le o.toDer
  have hcontents : o.toDer.contents.length = o.toBytes.length := rfl
  omega

end ObjectId

/-! ### Names and keys -/

/-- A name of a few short texts is short. -/
theorem DistinguishedName.length_ofTexts_le {attributes : List (ObjectId × String)}
    (h : ∀ a ∈ attributes, a.1.path.sum + a.1.path.length ≤ 100 ∧ a.2.utf8ByteSize ≤ 255) :
    (ofTexts attributes).toDer.write.length ≤ 10000 * attributes.length + 2 := by
  have hpart : ∀ v ∈ (ofTexts attributes).parts.map (fun p => Der.set (p.map NameAttribute.toDer)),
      v.write.length ≤ 5000 := by
    intro v hv
    obtain ⟨p, hp, rfl⟩ := List.mem_map.mp hv
    obtain ⟨⟨kind, s⟩, ha, rfl⟩ := List.mem_map.mp hp
    obtain ⟨hkind, hs⟩ := h _ ha
    have hobject := kind.length_toDer_le
    have htext : (Der.text s).write.length ≤ 2 * s.utf8ByteSize + 2 := by
      have hcontents : (Der.text s).contents.length = s.utf8ByteSize := Utf8.length_encode s
      have := (Der.text s).length_write_le
      omega
    simp only at hkind hs
    have hattribute := Der.length_pair_le (u := kind.toDer) (v := .text s) (n := 512) (by omega)
      (by omega)
    have hset := (Der.set [.sequence [kind.toDer, .text s]]).length_write_le
    have hcontents : (Der.set [.sequence [kind.toDer, .text s]]).contents.length =
        (Der.sequence [kind.toDer, .text s]).write.length :=
      congrArg List.length (Der.writeAll_singleton _)
    change (Der.set [.sequence [kind.toDer, .text s]]).write.length ≤ 5000
    omega
  have := Der.length_sequence_le hpart
  rw [List.length_map, ofTexts, List.length_map] at this
  rw [toDer, ofTexts]
  omega

namespace KeyPair

variable {key : KeyPair}

theorem length_derive_le (label : String) (n : Nat) : (key.derive label n).length ≤ n :=
  List.length_take_le _ _

theorem length_sign_le (message : List UInt8) : (key.sign message).length ≤ 400 := by
  have hdigest (m : List UInt8) : (Der.integerOfBytes (sha256 m)).write.length ≤ 68 :=
    Nat.le_trans (Der.length_integerOfBytes_le _) (by rw [length_sha256])
  exact Nat.le_trans (Der.length_pair_le (hdigest _) (hdigest _)) (by decide)

/-- A key pair that can be made. -/
def IsMade (key : KeyPair) : Prop := ∀ bits, key.spec = .rsa bits → KeySpec.isSize bits = true

theorem isMade_of_make {spec : KeySpec} {fresh : List UInt8} (h : make spec fresh = .ok key) :
    key.IsMade := by
  rintro bits hbits
  cases spec with
  | rsa n =>
    rw [make] at h
    split at h
    · rename_i hsize
      cases h
      cases hbits
      exact hsize
    · cases h
  | ecdsaP256 =>
    cases h
    cases hbits

theorem length_publicBits_le (h : key.IsMade) : key.publicBits.length ≤ 10000 := by
  rw [publicBits]
  cases hspec : key.spec with
  | rsa bits =>
    have hsize : bits ≤ 4096 := by
      have := h bits hspec
      simp only [KeySpec.isSize, Bool.or_eq_true, beq_iff_eq] at this
      omega
    have hmodulus := key.length_derive_le "modulus" (bits / 8 - 1)
    have hexponent : (Der.integer 65537).write.length ≤ 1100 := by
      have hbytes : (Der.bytesOfNat 65537).length ≤ 3 := Der.length_bytesOfNat_le (by decide)
      have := Der.length_integerOfBytes_le (Der.bytesOfNat 65537)
      rw [Der.integer]
      omega
    have hnumber :
        (Der.integerOfBytes (0x80 :: key.derive "modulus" (bits / 8 - 1))).write.length ≤ 1100 := by
      refine Nat.le_trans (Der.length_integerOfBytes_le _) ?_
      rw [List.length_cons]
      omega
    exact Nat.le_trans (Der.length_pair_le hnumber hexponent) (by decide)
  | ecdsaP256 =>
    have := key.length_derive_le "point" 64
    dsimp only
    rw [List.length_cons]
    omega

theorem length_bits_le (bs : List UInt8) : (Der.bits bs).write.length ≤ 2 * bs.length + 4 := by
  have := (Der.bits bs).length_write_le
  have hcontents : (Der.bits bs).contents.length = bs.length + 1 := rfl
  omega

/-- The algorithm of a key: its kind, and what else has to be known of it. -/
theorem exists_algorithm (key : KeyPair) : ∃ (kind : ObjectId) (parameters : List Der),
    kind.IsProper ∧ key.algorithm = .sequence (kind.toDer :: parameters) := by
  rw [algorithm]
  cases key.spec with
  | rsa bits => exact ⟨.rsaKey, _, ⟨1, 2, _, rfl, by decide, by decide, fun _ => by decide⟩, rfl⟩
  | ecdsaP256 => exact ⟨.ellipticKey, _, ⟨1, 2, _, rfl, by decide, by decide, fun _ => by decide⟩, rfl⟩

theorem isPublicKey (key : KeyPair) : key.publicKey.IsPublicKey := by
  obtain ⟨kind, parameters, hkind, halgorithm⟩ := key.exists_algorithm
  exact ⟨kind, parameters, _, hkind, by rw [publicKey, halgorithm]⟩

theorem length_algorithm_le (key : KeyPair) : key.algorithm.write.length ≤ 2000002 := by
  have hnull : ({ tag := 5, contents := [] } : Der).write.length ≤ 500000 := by decide
  have hobject (o : ObjectId) (ho : o.path.sum + o.path.length ≤ 200000) :
      o.toDer.write.length ≤ 500000 := Nat.le_trans o.length_toDer_le (by omega)
  rw [algorithm]
  cases key.spec with
  | rsa bits => exact Der.length_pair_le (hobject _ (by decide)) hnull
  | ecdsaP256 => exact Der.length_pair_le (hobject _ (by decide)) (hobject _ (by decide))

theorem length_publicKey_le (h : key.IsMade) : key.publicKey.write.length ≤ 10000000 := by
  have hbits : (Der.bits key.publicBits).write.length ≤ 2000002 := by
    have := length_bits_le key.publicBits
    have := length_publicBits_le h
    omega
  exact Nat.le_trans (Der.length_pair_le key.length_algorithm_le hbits) (by decide)

theorem isProper_signatureKind (key : KeyPair) : key.signatureKind.IsProper := by
  rw [signatureKind]
  cases key.spec with
  | rsa bits => exact ⟨1, 2, _, rfl, by decide, by decide, fun _ => by decide⟩
  | ecdsaP256 => exact ⟨1, 2, _, rfl, by decide, by decide, fun _ => by decide⟩

theorem length_signatureKind_le (key : KeyPair) :
    (Der.sequence [key.signatureKind.toDer]).write.length ≤ 2000000 := by
  have hobject : key.signatureKind.toDer.write.length ≤ 500000 := by
    have := key.signatureKind.length_toDer_le
    have hsmall : ∀ o : ObjectId, o = .rsaSha256 ∨ o = .ecdsaSha256 →
        o.path.sum + o.path.length ≤ 200000 := by
      rintro _ (rfl | rfl) <;> decide
    have hpath : key.signatureKind.path.sum + key.signatureKind.path.length ≤ 200000 := by
      rw [signatureKind]
      cases key.spec with
      | rsa bits => exact hsmall _ (.inl rfl)
      | ecdsaP256 => exact hsmall _ (.inr rfl)
    omega
  have := Der.length_sequence_le (l := [key.signatureKind.toDer]) fun v hv =>
    List.mem_singleton.mp hv ▸ hobject
  simp only [List.length_singleton] at this
  omega

end KeyPair

/-! ### Requests -/

theorem Address.length_of_v4? {s : List Char} {ns : List Nat} (h : v4? s = some ns) :
    ns.length = 4 := by
  rw [v4?] at h
  split at h
  · simp only [Option.bind_eq_bind, Option.bind_eq_some_iff] at h
    obtain ⟨a, -, b, -, c, -, d, -, hns⟩ := h
    cases hns
    rfl
  · cases h

namespace CertificateRequest

variable {key : KeyPair} {names : List String} {r : CertificateRequest}

theorem length_identifier_le {name : String} (h : name.utf8ByteSize ≤ 255) :
    (identifier name).write.length ≤ 512 := by
  refine Nat.le_trans (identifier name).length_write_le ?_
  have hcontents : (identifier name).contents.length ≤ 255 := by
    rw [identifier]
    cases hv4 : Address.v4? name.toList with
    | some ns =>
      have := Address.length_of_v4? hv4
      simp only [GeneralName.address, List.length_map]
      omega
    | none => exact Nat.le_trans (Nat.le_of_eq (Utf8.length_encode name)) h
  omega

/-- The further names of a certificate take at most about a kilobyte each. -/
theorem length_subjectNames_le (h : ∀ n ∈ names, n.utf8ByteSize ≤ 255) :
    (Extension.subjectNames (names.map identifier)).toDer.write.length ≤
      8192 * names.length + 1000 := by
  have hlist : (GeneralName.listToBytes (names.map identifier)).length ≤
      2 * (names.length * 512) + 2 := by
    rw [← show (names.map identifier).length = names.length from List.length_map _]
    refine Der.length_sequence_le fun v hv => ?_
    obtain ⟨name, hname, rfl⟩ := List.mem_map.mp hv
    exact length_identifier_le (h name hname)
  have hbytes := (Der.bytes (GeneralName.listToBytes (names.map identifier))).length_write_le
  have hcontents : (Der.bytes (GeneralName.listToBytes (names.map identifier))).contents.length =
      (GeneralName.listToBytes (names.map identifier)).length := rfl
  have hkind : ObjectId.subjectNames.toDer.write.length ≤ 118 := ObjectId.length_toDer_le _
  have := Der.length_pair_le (u := ObjectId.subjectNames.toDer)
    (v := .bytes (GeneralName.listToBytes (names.map identifier))) (n := 2048 * names.length + 200)
    (by omega) (by omega)
  refine Nat.le_trans this ?_
  omega

/-- A common name is short. -/
theorem length_commonName_le (h : ∀ n ∈ names, n.utf8ByteSize ≤ 255) :
    (DistinguishedName.ofTexts [(ObjectId.commonName, names.headD "")]).toDer.write.length ≤
      10002 := by
  refine DistinguishedName.length_ofTexts_le fun a ha => ?_
  obtain rfl := List.mem_singleton.mp ha
  refine ⟨(by decide : ObjectId.commonName.path.sum + ObjectId.commonName.path.length ≤ 100), ?_⟩
  cases names with
  | nil => exact Nat.zero_le _
  | cons n names => exact h n List.mem_cons_self

theorem length_singleton_le {v : Der} {n : Nat} (tag : UInt8) (h : v.write.length ≤ n) :
    ({ tag, contents := Der.writeAll [v] } : Der).write.length ≤ 2 * n + 2 := by
  have := Der.length_write_le { tag, contents := Der.writeAll [v] }
  rw [Der.writeAll_singleton] at this ⊢
  simp only at this
  omega

/-- A request for as many names as fit in a memory has a form. -/
theorem length_toDer_lt (hkey : key.IsMade) (hchars : ∀ n ∈ names, Domain.HasNameChars n)
    (hsize : ∀ n ∈ names, n.utf8ByteSize ≤ 255) (hcount : names.length ≤ 2 ^ 60)
    (hr : ofNames names key = .ok r) : (r.toDer key).contents.length < Der.lengthLimit := by
  rw [ofNames_eq hchars] at hr
  cases hr
  refine Nat.lt_of_lt_of_le ?_ Der.lengthLimit_ge
  have hextension := length_subjectNames_le hsize
  have hset := length_singleton_le Der.setTag (length_singleton_le Der.sequenceTag hextension)
  have hkind : ObjectId.extensionRequest.toDer.write.length ≤ 1000000 :=
    Nat.le_trans (ObjectId.length_toDer_le _) (by decide)
  have hasked := length_singleton_le (Der.contextTag 0)
    (Der.length_pair_le (n := 32768 * names.length + 1000000) (Nat.le_trans hkind (by omega))
      (Nat.le_trans hset (by omega)))
  -- the parts that are signed, and the others
  have hversion : (Der.integer 0).write.length ≤ 4 := by
    refine Nat.le_trans (Der.length_integerOfBytes_le _) ?_
    simp [Der.bytesOfNat]
  have hsubject := length_commonName_le hsize
  have hpublic := KeyPair.length_publicKey_le hkey
  let r : CertificateRequest :=
    { subject := .ofTexts [(.commonName, names.headD "")], names := names.map identifier
      publicKey := key.publicKey, signature := key.signatureKind }
  have hbody : r.body.write.length ≤ 2 * (4 * (262144 * names.length + 20000000)) + 2 := by
    refine Der.length_sequence_le (l := [_, _, _, _]) fun v hv => ?_
    simp only [List.mem_cons, List.not_mem_nil, or_false] at hv
    obtain rfl | rfl | rfl | rfl := hv
    · omega
    · exact Nat.le_trans hsubject (by omega)
    · exact Nat.le_trans hpublic (by omega)
    · rw [Der.writeAll_singleton] at hasked
      exact Nat.le_trans hasked (by omega)
  have hsign := KeyPair.length_bits_le (key.sign r.body.write)
  have hsigned := key.length_sign_le r.body.write
  have hkinds := key.length_signatureKind_le
  have hall : (r.toDer key).contents.length ≤ 3 * (2097152 * names.length + 200000000) := by
    refine Der.length_writeAll_le (l := [_, _, _]) fun v hv => ?_
    simp only [List.mem_cons, List.not_mem_nil, or_false] at hv
    obtain rfl | rfl | rfl := hv
    · exact Nat.le_trans hbody (by omega)
    · exact Nat.le_trans hkinds (by omega)
    · exact Nat.le_trans hsign (by omega)
  change (r.toDer key).contents.length < _
  omega

end CertificateRequest

/-! ### Certificates -/

theorem Asn1Time.length_write_le {a : Instant} (h : IsWritable a) :
    (write a).write.length ≤ 32 := by
  have hvalid := Civil.isValid_ofDays (a.seconds / Instant.daySeconds)
  have hday := Instant.day_le a
  have hseconds := a.secondOfDay_bounds
  obtain ⟨hmin, hmax⟩ := h
  have htwo {n : Nat} (hn : n < 100) : (Chars.padNat 2 n).length = 2 :=
    Chars.length_padNat (by decide) hn
  have hfour {n : Nat} (hn : n < 10000) : (Chars.padNat 4 n).length = 4 :=
    Chars.length_padNat (by decide) hn
  have hfields : (fieldsOf a).length = 10 := by
    have hmonth := hvalid.2.1
    rw [fieldsOf]
    simp only [List.flatMap_cons, List.flatMap_nil, List.length_append, List.length_nil]
    rw [htwo (by omega), htwo (by omega), htwo (by omega), htwo (by omega), htwo (by omega)]
  have hcontents : (write a).contents.length ≤ 15 := by
    rw [fieldsOf] at hfields
    rw [write]
    dsimp only at hfields ⊢
    split
    · simp only [List.length_map, List.length_append, List.length_singleton]
      rw [htwo (by omega), hfields]
      omega
    · simp only [List.length_map, List.length_append, List.length_singleton]
      rw [hfour (by omega), hfields]
  have := (write a).length_write_le
  omega

/-- A certificate none of whose parts is too long has a form. -/
theorem Certificate.length_toDer_lt {c : Certificate} {bits : List UInt8} {n : Nat}
    (hn : n ≤ 2 ^ 80) (hdates : Asn1Time.IsWritable c.notBefore ∧ Asn1Time.IsWritable c.notAfter)
    (hserial : c.serial.length ≤ n) (hsignature : (Der.sequence [c.signature.toDer]).write.length ≤ n)
    (hissuer : c.issuer.toDer.write.length ≤ n) (hsubject : c.subject.toDer.write.length ≤ n)
    (hpublic : c.publicKey.write.length ≤ n)
    (hextensions : (Der.sequence (c.extensions.map Extension.toDer)).write.length ≤ n)
    (hbits : bits.length ≤ n) : (c.toDer bits).contents.length < Der.lengthLimit := by
  refine Nat.lt_of_lt_of_le ?_ Der.lengthLimit_ge
  have hwrite (tag : UInt8) (s : List UInt8) :
      ({ tag, contents := s } : Der).write.length ≤ 2 * s.length + 2 := Der.length_write_le _
  have hvalidity := Der.length_pair_le (Asn1Time.length_write_le hdates.1)
    (Asn1Time.length_write_le hdates.2)
  have hversion : (Der.integer 2).write.length ≤ 6 := by
    refine Nat.le_trans (Der.length_integerOfBytes_le _) ?_
    have := Der.length_bytesOfNat_le (n := 2) (k := 1) (by decide)
    omega
  have htail : c.tailOf.length ≤ 1 := by
    rw [tailOf]
    split <;> simp
  have hbody : c.bodyOf.write.length ≤ 2 * (8 * (2 * n + 1000)) + 2 := by
    refine Nat.le_trans (Der.length_sequence_le (n := 2 * n + 1000) fun v hv => ?_) ?_
    · obtain hv | hv := List.mem_append.mp hv
      · simp only [List.mem_cons, List.not_mem_nil, or_false] at hv
        obtain rfl | rfl | rfl | rfl | rfl | rfl | rfl := hv
        · exact Nat.le_trans (hwrite _ _) (by omega)
        · exact Nat.le_trans (hwrite _ _) (by omega)
        all_goals omega
      · rw [tailOf] at hv
        split at hv
        · cases hv
        · obtain rfl := List.mem_singleton.mp hv
          exact Nat.le_trans (hwrite _ _) (by omega)
    · have hcount := Nat.mul_le_mul_right (2 * n + 1000) (show 7 + c.tailOf.length ≤ 8 by omega)
      rw [List.length_append]
      exact Nat.add_le_add_right (Nat.mul_le_mul_left 2 hcount) 2
  have hsigned := KeyPair.length_bits_le bits
  have hall : (c.toDer bits).contents.length ≤ 3 * (32 * n + 17000) := by
    rw [toDer_eq]
    refine Der.length_writeAll_le (l := [_, _, _]) fun v hv => ?_
    simp only [List.mem_cons, List.not_mem_nil, or_false] at hv
    obtain rfl | rfl | rfl := hv
    · exact Nat.le_trans hbody (by omega)
    · exact Nat.le_trans hsignature (by omega)
    · exact Nat.le_trans hsigned (by omega)
  omega

end CertSteward
