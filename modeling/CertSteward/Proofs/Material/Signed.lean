import CertSteward.Asn1.Time
import CertSteward.Proofs.Material.Certificate
import CertSteward.Proofs.Time.Rfc3339

/-!
# Certificates are read as they were written

A certificate is put together from parts that are each read back, so it is read part by part. Its
dates are read to the second: a time is written in fields of two digits, and the year in one or two
of them. Years before year 0 and of more than four digits have no form.

## Main definitions

* `Asn1Time.IsWritable` — instants that have a form
* `Der.IsPublicKey` — values that are read as a public key
* `Certificate.IsProper` — certificates that can be read back

## Main results

* `Asn1Time.read?_write` — a written time is read back to the second
* `Certificate.ofBytes?_toDer` — a certificate is read back, its dates to the second
-/

namespace CertSteward

/-! ### Digits -/

namespace Chars

/-- The last digit of a number stands behind those of its tenth. -/
theorem padNat_succ {width : Nat} (hwidth : 0 < width) (n : Nat) :
    padNat (width + 1) n = padNat width (n / 10) ++ [Nat.digitChar (n % 10)] := by
  rw [padNat, padNat]
  by_cases h : 10 ≤ n
  · rw [Nat.toDigits_of_base_le (by decide) h, List.length_append, List.length_singleton,
      Nat.add_sub_add_right, List.append_assoc]
  · rw [Nat.toDigits_of_lt_base (Nat.not_le.mp h), Nat.div_eq_of_lt (Nat.not_le.mp h),
      Nat.mod_eq_of_lt (Nat.not_le.mp h), Nat.toDigits_of_lt_base (by decide)]
    obtain ⟨width, rfl⟩ := Nat.exists_eq_add_one.mpr hwidth
    rw [List.length_singleton, List.length_singleton, Nat.add_sub_cancel, Nat.add_sub_cancel,
      List.replicate_succ']
    rfl

theorem padNat_two {n : Nat} (h : n < 100) :
    padNat 2 n = [Nat.digitChar (n / 10), Nat.digitChar (n % 10)] := by
  have hall : ∀ n : Fin 100,
      padNat 2 n = [Nat.digitChar (n.val / 10), Nat.digitChar (n.val % 10)] := by decide
  exact hall ⟨n, h⟩

/-- Four digits are two times two. -/
theorem padNat_four (n : Nat) :
    padNat 4 n = padNat 2 (n / 100) ++ padNat 2 (n % 100) := by
  have hhigh : n / 10 / 10 = n / 100 := by omega
  have hlow : n / 10 % 10 = n % 100 / 10 := by omega
  have hlast : n % 100 % 10 = n % 10 := by omega
  rw [padNat_succ (by decide), padNat_succ (by decide), hhigh, hlow,
    padNat_two (n := n % 100) (by omega), hlast, List.append_assoc]
  rfl

theorem digit?_digitChar {n : Nat} (h : n < 10) : digit? (Nat.digitChar n) = some n := by
  have hall : ∀ n : Fin 10, digit? (Nat.digitChar n) = some n.val := by decide
  exact hall ⟨n, h⟩

end Chars

namespace Asn1Time

open Chars

/-! ### Fields -/

/-- A field of two digits is read back. -/
theorem two?_padNat {n : Nat} (h : n < 100) (s : List Char) :
    two? (padNat 2 n ++ s) = some (n, s) := by
  have hvalue : 10 * (n / 10) + n % 10 = n := by omega
  rw [padNat_two h, List.cons_append, List.cons_append, List.nil_append, two?,
    digit?_digitChar (n := n / 10) (by omega), digit?_digitChar (n := n % 10) (by omega)]
  simp only [Option.bind_eq_bind, Option.bind_some, hvalue]
  rfl

/-- Seconds that are there are read as every other field. -/
theorem seconds?_padNat {n : Nat} (h : n < 100) (c : Char) :
    seconds? (padNat 2 n ++ [c]) = some (n, [c]) := by
  rw [← two?_padNat h [c], padNat_two h]
  rfl

/-- Plain characters are read back. -/
theorem chars?_bytes {cs : List Char} (h : ∀ c ∈ cs, c = 'Z' ∨ c.isDigit = true) :
    chars? (cs.map fun c => UInt8.ofNat c.toNat) = some cs := by
  have hcode : ∀ c ∈ cs, 0x20 ≤ c.toNat ∧ c.toNat ≤ 0x7F := by
    intro c hc
    obtain rfl | hdigit := h c hc
    · decide
    · simp only [Char.isDigit, Bool.and_eq_true, decide_eq_true_eq, UInt32.le_iff_toNat_le] at hdigit
      have h48 : 48 ≤ c.toNat := hdigit.1
      have h57 : c.toNat ≤ 57 := hdigit.2
      omega
  have hbyte : ∀ c ∈ cs, (UInt8.ofNat c.toNat).toNat = c.toNat := by
    intro c hc
    have := hcode c hc
    rw [UInt8.toNat_ofNat']
    omega
  rw [chars?, if_pos, List.map_map]
  · refine congrArg some ((List.map_congr_left fun c hc => ?_).trans (List.map_id cs))
    change Char.ofNat (UInt8.ofNat c.toNat).toNat = c
    rw [hbyte c hc, Char.ofNat_toNat]
  · rw [List.all_eq_true]
    intro b hb
    obtain ⟨c, hc, rfl⟩ := List.mem_map.mp hb
    rw [hbyte c hc]
    simpa using hcode c hc

/-! ### Times -/

/-- An instant in a year that four digits can write. -/
def IsWritable (a : Instant) : Prop :=
  0 ≤ (Civil.ofDays (a.seconds / Instant.daySeconds)).year ∧
    (Civil.ofDays (a.seconds / Instant.daySeconds)).year ≤ 9999

/-- The fields behind the year. -/
def fieldsOf (a : Instant) : List Char :=
  let date := Civil.ofDays (a.seconds / Instant.daySeconds)
  let s := a.secondOfDay.toNat
  [date.month, date.day, s / 3600, s / 60 % 60, s % 60].flatMap (padNat 2)

/-- The fields behind the year are read back. -/
theorem rest?_fieldsOf (a : Instant) (hasFraction : Bool) :
    rest? (Civil.ofDays (a.seconds / Instant.daySeconds)).year hasFraction (fieldsOf a ++ ['Z']) =
      some ⟨a.seconds, 0⟩ := by
  have hvalid := Civil.isValid_ofDays (a.seconds / Instant.daySeconds)
  have hday := Instant.day_le a
  have hdays := Civil.toDays_ofDays (a.seconds / Instant.daySeconds)
  have hmonth := hvalid.2.1
  have hseconds := a.secondOfDay_bounds
  have hsum : a.seconds / Instant.daySeconds * Instant.daySeconds +
      ((a.secondOfDay.toNat / 3600 * 3600 + a.secondOfDay.toNat / 60 % 60 * 60 +
        a.secondOfDay.toNat % 60 : Nat) : Int) - 0 = a.seconds := by
    simp only [Instant.secondOfDay, Instant.daySeconds] at hseconds ⊢
    omega
  rw [fieldsOf]
  generalize Civil.ofDays (a.seconds / Instant.daySeconds) = date at hvalid hday hdays hmonth ⊢
  have hlt : a.secondOfDay.toNat < 86400 := by omega
  generalize a.secondOfDay.toNat = s at hsum hlt ⊢
  have hclock : date.IsValid ∧ s / 3600 ≤ 23 ∧ s / 60 % 60 ≤ 59 ∧ s % 60 ≤ 59 :=
    ⟨hvalid, by omega, by omega, by omega⟩
  have hzone : zone? ['Z'] = some 0 := rfl
  have hfraction : skipFraction? ['Z'] = some ['Z'] := rfl
  cases hasFraction <;>
  simp only [List.flatMap_cons, List.flatMap_nil, List.append_nil, List.append_assoc, rest?,
    Option.bind_eq_bind, Option.bind_some,
    two?_padNat (show date.month < 100 by omega), two?_padNat (show date.day < 100 by omega),
    two?_padNat (show s / 3600 < 100 by omega), two?_padNat (show s / 60 % 60 < 100 by omega),
    seconds?_padNat (show s % 60 < 100 by omega), hfraction, hzone, hdays, hclock, hsum, if_true,
    Bool.false_eq_true, if_false, and_self]

theorem isDigit_of_mem_fieldsOf {a : Instant} {c : Char} (h : c ∈ fieldsOf a) : c.isDigit = true := by
  obtain ⟨n, -, hc⟩ := List.mem_flatMap.mp h
  exact isDigit_of_mem_padNat hc

/-- **A time is read as it was written**, to the second. -/
theorem read?_write {a : Instant} (h : IsWritable a) : read? (write a) = some ⟨a.seconds, 0⟩ := by
  obtain ⟨hmin, hmax⟩ := h
  have hrest := rest?_fieldsOf a
  have hchars : ∀ ys : List Char, (∀ c ∈ ys, c.isDigit = true) →
      chars? ((ys ++ fieldsOf a ++ ['Z']).map fun c => UInt8.ofNat c.toNat) =
        some (ys ++ (fieldsOf a ++ ['Z'])) := by
    intro ys hys
    rw [chars?_bytes, List.append_assoc]
    intro c hc
    rw [List.append_assoc, List.mem_append, List.mem_append, List.mem_singleton] at hc
    obtain hc | hc | hc := hc
    · exact .inr (hys c hc)
    · exact .inr (isDigit_of_mem_fieldsOf hc)
    · exact .inl hc
  have hlast : ∀ ys : List Char, (ys ++ (fieldsOf a ++ ['Z'])).getLast? = some 'Z' := fun ys => by
    rw [← List.append_assoc, List.getLast?_concat]
  have hwrite : write a = if 1950 ≤ (Civil.ofDays (a.seconds / Instant.daySeconds)).year ∧
        (Civil.ofDays (a.seconds / Instant.daySeconds)).year ≤ 2049 then
      { tag := Der.shortTimeTag
        contents := (padNat 2 ((Civil.ofDays (a.seconds / Instant.daySeconds)).year % 100).toNat ++
          fieldsOf a ++ ['Z']).map fun c => UInt8.ofNat c.toNat }
    else
      { tag := Der.longTimeTag
        contents := (padNat 4 (Civil.ofDays (a.seconds / Instant.daySeconds)).year.toNat ++
          fieldsOf a ++ ['Z']).map fun c => UInt8.ofNat c.toNat } := rfl
  generalize (Civil.ofDays (a.seconds / Instant.daySeconds)).year = year at *
  rw [hwrite]
  split
  · rename_i hshort
    have htwo := two?_padNat (n := (year % 100).toNat) (by omega) (fieldsOf a ++ ['Z'])
    have hyear : (if (year % 100).toNat ≥ 50 then 1900 + ((year % 100).toNat : Int)
        else 2000 + ((year % 100).toNat : Int)) = year := by
      split <;> omega
    rw [read?, hchars _ fun c hc => isDigit_of_mem_padNat hc]
    simp only [Option.bind_eq_bind, Option.bind_some, htwo, hyear, hrest, if_true]
  · have hfour := padNat_four year.toNat
    have hfirst := two?_padNat (n := year.toNat / 100) (by omega)
      (padNat 2 (year.toNat % 100) ++ (fieldsOf a ++ ['Z']))
    have hsecond := two?_padNat (n := year.toNat % 100) (by omega) (fieldsOf a ++ ['Z'])
    have hyear : ((100 * (year.toNat / 100) + year.toNat % 100 : Nat) : Int) = year := by omega
    have htag : ¬ Der.longTimeTag = Der.shortTimeTag := by decide
    rw [read?, hchars _ fun c hc => isDigit_of_mem_padNat hc, hfour, List.append_assoc]
    have hz := hlast (padNat 2 (year.toNat / 100) ++ padNat 2 (year.toNat % 100))
    rw [List.append_assoc] at hz
    simp only [Option.bind_eq_bind, Option.bind_some, hfirst, htag, if_false, hz, and_self, if_true,
      hsecond, hyear, hrest]

end Asn1Time

/-- A public key: an algorithm and a row of bits. -/
def Der.IsPublicKey (v : Der) : Prop :=
  ∃ (kind : ObjectId) (parameters : List Der) (bs : List UInt8), kind.IsProper ∧
    v = .sequence [.sequence (kind.toDer :: parameters), .bits bs]

namespace Certificate

/-- A certificate whose parts can be read back. -/
structure IsProper (c : Certificate) : Prop where
  signature : c.signature.IsProper
  issuer : c.issuer.IsProper
  notBefore : Asn1Time.IsWritable c.notBefore
  notAfter : Asn1Time.IsWritable c.notAfter
  subject : c.subject.IsProper
  publicKey : c.publicKey.IsPublicKey
  extensions : ∀ e ∈ c.extensions, e.kind.IsProper

/-- The certificate with its dates to the second. -/
def toSeconds (c : Certificate) : Certificate :=
  { c with notBefore := ⟨c.notBefore.seconds, 0⟩, notAfter := ⟨c.notAfter.seconds, 0⟩ }

/-- The extensions of a certificate as they end it. -/
def tailOf (c : Certificate) : List Der :=
  if c.extensions = [] then []
  else [{ tag := Der.contextTag 3
          contents := (Der.sequence (c.extensions.map Extension.toDer)).write }]

/-- The part of a certificate that is signed. -/
def bodyOf (c : Certificate) : Der :=
  .sequence ([{ tag := Der.contextTag 0, contents := (Der.integer 2).write },
    { tag := Der.integerTag, contents := c.serial }, .sequence [c.signature.toDer],
    c.issuer.toDer, .sequence [Asn1Time.write c.notBefore, Asn1Time.write c.notAfter],
    c.subject.toDer, c.publicKey] ++ c.tailOf)

theorem toDer_eq (c : Certificate) (bits : List UInt8) :
    c.toDer bits = .sequence [c.bodyOf, .sequence [c.signature.toDer], .bits bits] := rfl

/-! ### The parts of a certificate -/

/-- Bits that fill their bytes are read back. -/
theorem readBits?_bits {bs : List UInt8} (h : (Der.bits bs).IsProper) (s : List UInt8) :
    Der.readBits? ((Der.bits bs).write ++ s) = some (bs, s) := by
  have hread : Der.readTag? Der.bitsTag ((Der.bits bs).write ++ s) = some (0 :: bs, s) :=
    Der.readTag?_write h rfl s
  have hbits : Der.bitsOf? (0 :: bs) = some bs := by
    rw [Der.bitsOf?]
    exact if_pos ⟨by decide, Nat.mod_one _⟩
  rw [Der.readBits?, hread]
  simp only [Option.bind_eq_bind, Option.bind_some, hbits]
  rfl

/-- The identifier of an algorithm is read back. -/
theorem algorithm?_sequence {kind : ObjectId} {parameters : List Der} (hkind : kind.IsProper)
    (h : (Der.sequence (kind.toDer :: parameters)).IsProper) (s : List UInt8) :
    algorithm? ((Der.sequence (kind.toDer :: parameters)).write ++ s) = some (kind, s) := by
  have hproper : kind.toDer.IsProper :=
    h.of_mem rfl List.mem_cons_self (by decide : Der.objectTag.toNat % 32 ≠ 31)
  have houter : Der.readTag? Der.sequenceTag
      ((Der.sequence (kind.toDer :: parameters)).write ++ s) =
      some (kind.toDer.write ++ Der.writeAll parameters, s) := Der.readTag?_write h rfl s
  have hinner : Der.readTag? Der.objectTag (kind.toDer.write ++ Der.writeAll parameters) =
      some (kind.toBytes, Der.writeAll parameters) := Der.readTag?_write hproper rfl _
  rw [algorithm?, houter]
  simp only [Option.bind_eq_bind, Option.bind_some, hinner, ObjectId.ofBytes?_toBytes hkind]
  rfl

/-- Two times are read back. -/
theorem validity?_write {a b : Instant} (ha : Asn1Time.IsWritable a) (hb : Asn1Time.IsWritable b)
    (h : (Der.sequence [Asn1Time.write a, Asn1Time.write b]).IsProper) :
    validity? (Der.sequence [Asn1Time.write a, Asn1Time.write b]).contents =
      some (⟨a.seconds, 0⟩, ⟨b.seconds, 0⟩) := by
  have htag : ∀ c, (Asn1Time.write c).tag.toNat % 32 ≠ 31 := by
    intro c
    rw [Asn1Time.write]
    dsimp only
    split
    · exact (by decide : Der.shortTimeTag.toNat % 32 ≠ 31)
    · exact (by decide : Der.longTimeTag.toNat % 32 ≠ 31)
  have hfirst : Der.read? (Der.sequence [Asn1Time.write a, Asn1Time.write b]).contents =
      some (Asn1Time.write a, Der.writeAll [Asn1Time.write b]) :=
    Der.read?_write (h.of_mem rfl List.mem_cons_self (htag a)) _
  have hsecond : Der.read? (Der.writeAll [Asn1Time.write b]) = some (Asn1Time.write b, []) :=
    Der.read?_write (h.of_mem rfl (List.mem_cons_of_mem _ List.mem_cons_self) (htag b)) _
  rw [validity?, hfirst]
  simp only [Option.bind_eq_bind, Option.bind_some, hsecond, Asn1Time.read?_write ha,
    Asn1Time.read?_write hb]
  rfl

/-- The version of every certificate that is written. -/
def versionOf : Der := { tag := Der.contextTag 0, contents := (Der.integer 2).write }

theorem skipVersion?_versionOf (h : versionOf.IsProper) (vs : List Der) :
    skipVersion? (Der.writeAll (versionOf :: vs)) = some (Der.writeAll vs) := by
  have hread : Der.readTag? (Der.contextTag 0) (Der.writeAll (versionOf :: vs)) =
      some ((Der.integer 2).write, Der.writeAll vs) := Der.readTag?_write h rfl _
  have hnumber : Der.readTag? Der.integerTag (Der.integer 2).write = some ([2], []) := by
    have hproper : (Der.integer 2).IsProper :=
      ⟨by decide, by simp [Der.integer, Der.integerOfBytes, Der.bytesOfNat, Der.lengthLimit]⟩
    have := Der.readTag?_write hproper (rfl : _ = Der.integerTag) []
    simpa [Der.integer, Der.integerOfBytes, Der.bytesOfNat] using this
  have htwo : Der.nat? [2] = some 2 := rfl
  rw [skipVersion?, hread]
  simp only [Option.bind_eq_bind, Option.bind_some, hnumber, htwo]
  rfl

theorem isProper_tailOf {c : Certificate} {vs : List Der} (h : c.bodyOf.IsProper)
    (hparts : c.bodyOf.contents = Der.writeAll (vs ++ c.tailOf)) : ∀ v ∈ c.tailOf, v.IsProper := by
  intro v hv
  refine h.of_mem hparts (List.mem_append_right _ hv) ?_
  rw [tailOf] at hv
  split at hv
  · cases hv
  · obtain rfl := List.mem_singleton.mp hv
    exact (by decide : (Der.contextTag 3).toNat % 32 ≠ 31)

/-- What is not there is not skipped. -/
theorem skipTag_tailOf {c : Certificate} (h : ∀ v ∈ c.tailOf, v.IsProper) {tag : UInt8}
    (htag : Der.contextTag 3 ≠ tag) : skipTag tag (Der.writeAll c.tailOf) = Der.writeAll c.tailOf := by
  rw [skipTag]
  by_cases hnil : c.extensions = []
  · rw [tailOf, if_pos hnil]
    rfl
  · rw [tailOf, if_neg hnil] at h ⊢
    rw [Der.writeAll_cons, Der.readTag?_of_ne (h _ List.mem_cons_self) htag]

theorem mapM_ofDer?_toDer {es : List Extension} (h : ∀ e ∈ es, Extension.ofDer? e.toDer = some e) :
    (es.map Extension.toDer).mapM Extension.ofDer? = some es := by
  induction es with
  | nil => rfl
  | cons e es ih =>
    rw [List.map_cons, List.mapM_cons, h e List.mem_cons_self,
      ih fun e' he' => h e' (List.mem_cons_of_mem _ he')]
    rfl

/-- The extensions are read back. -/
theorem extensions?_tailOf {c : Certificate} (hkinds : ∀ e ∈ c.extensions, e.kind.IsProper)
    (h : ∀ v ∈ c.tailOf, v.IsProper) : extensions? (Der.writeAll c.tailOf) = some c.extensions := by
  by_cases hnil : c.extensions = []
  · rw [tailOf, if_pos hnil, hnil]
    rfl
  · rw [tailOf, if_neg hnil] at h ⊢
    let row := Der.sequence (c.extensions.map Extension.toDer)
    have houter := h _ List.mem_cons_self
    have hrow : row.IsProper :=
      houter.of_mem (Der.writeAll_singleton _).symm List.mem_cons_self
        (by decide : Der.sequenceTag.toNat % 32 ≠ 31)
    have hproper : ∀ v ∈ c.extensions.map Extension.toDer, v.IsProper := by
      intro v hv
      obtain ⟨e, -, rfl⟩ := List.mem_map.mp hv
      exact hrow.of_mem rfl hv (by decide : Der.sequenceTag.toNat % 32 ≠ 31)
    have hfirst : Der.readTag? (Der.contextTag 3)
        (Der.writeAll [{ tag := Der.contextTag 3, contents := row.write }]) =
        some (Der.writeAll [row], []) := by
      rw [Der.writeAll_singleton row]
      exact Der.readTag?_write houter rfl _
    have hsecond : Der.readTag? Der.sequenceTag (Der.writeAll [row]) =
        some (Der.writeAll (c.extensions.map Extension.toDer), []) :=
      Der.readTag?_write hrow rfl _
    have hne : Der.writeAll [{ tag := Der.contextTag 3, contents := row.write }] ≠ [] := by
      rw [Der.writeAll_singleton]
      exact List.cons_ne_nil _ _
    have hall : (c.extensions.map Extension.toDer).mapM Extension.ofDer? = some c.extensions :=
      mapM_ofDer?_toDer fun e he =>
        Extension.ofDer?_toDer (hkinds e he) (hproper _ (List.mem_map_of_mem he))
    rw [extensions?, if_neg hne, hfirst]
    simp only [Option.bind_eq_bind, Option.bind_some, hsecond, ne_eq, not_true_eq_false, or_self,
      if_false, Der.readAll?_writeAll hproper, hall]

/-- **A certificate is read as it was written**, its dates to the second, as long as there is a
form for its length. -/
theorem ofBytes?_toDer {c : Certificate} {bits : List UInt8} (hc : c.IsProper)
    (h : (c.toDer bits).contents.length < Der.lengthLimit) :
    ofBytes? (c.toDer bits).write = some c.toSeconds := by
  obtain ⟨kind, parameters, keyBits, hkind, hkey⟩ := hc.publicKey
  let algorithm := Der.sequence [c.signature.toDer]
  let signature := Der.bits bits
  let validity := Der.sequence [Asn1Time.write c.notBefore, Asn1Time.write c.notAfter]
  let serial : Der := { tag := Der.integerTag, contents := c.serial }
  -- all parts are proper, as they are shorter than the certificate
  have hseq : Der.sequenceTag.toNat % 32 ≠ 31 := by decide
  have houter : (c.toDer bits).IsProper := ⟨hseq, h⟩
  have hbody : c.bodyOf.IsProper := houter.of_mem rfl List.mem_cons_self hseq
  have halgorithm : algorithm.IsProper :=
    houter.of_mem rfl (List.mem_cons_of_mem _ List.mem_cons_self) hseq
  have hsignature : signature.IsProper :=
    houter.of_mem rfl (List.mem_cons_of_mem _ (List.mem_cons_of_mem _ List.mem_cons_self))
      (by decide : Der.bitsTag.toNat % 32 ≠ 31)
  have hparts : c.bodyOf.contents = Der.writeAll ([versionOf, serial, algorithm, c.issuer.toDer,
    validity, c.subject.toDer, c.publicKey] ++ c.tailOf) := rfl
  have hpart {v : Der} (hv : v ∈ [versionOf, serial, algorithm, c.issuer.toDer, validity,
      c.subject.toDer, c.publicKey]) (htag : v.tag.toNat % 32 ≠ 31) : v.IsProper :=
    hbody.of_mem hparts (List.mem_append_left _ hv) htag
  have hversion := hpart (v := versionOf) (by simp) (by decide : (Der.contextTag 0).toNat % 32 ≠ 31)
  have hserial := hpart (v := serial) (by simp) (by decide : Der.integerTag.toNat % 32 ≠ 31)
  have hissuer := hpart (v := c.issuer.toDer) (by simp) hseq
  have hvalidity := hpart (v := validity) (by simp) hseq
  have hsubject := hpart (v := c.subject.toDer) (by simp) hseq
  have hkeyTag : c.publicKey.tag = Der.sequenceTag := by rw [hkey]; rfl
  have hpublic := hpart (v := c.publicKey) (by simp) (by rw [hkeyTag]; exact hseq)
  have htail := isProper_tailOf hbody hparts
  have hkeyParts : c.publicKey.contents =
      Der.writeAll [.sequence (kind.toDer :: parameters), .bits keyBits] := by rw [hkey]; rfl
  have hkeyKind := hpublic.of_mem hkeyParts List.mem_cons_self hseq
  have hkeyBits := hpublic.of_mem hkeyParts (List.mem_cons_of_mem _ List.mem_cons_self)
    (by decide : Der.bitsTag.toNat % 32 ≠ 31)
  -- and they are read one after the other
  have h₁ : Der.readTag? Der.sequenceTag (c.toDer bits).write =
      some (Der.writeAll [c.bodyOf, algorithm, signature], []) := by
    rw [← Der.writeAll_singleton]
    exact Der.readTag?_write houter rfl _
  have h₂ : Der.readTag? Der.sequenceTag (Der.writeAll [c.bodyOf, algorithm, signature]) =
      some (c.bodyOf.contents, Der.writeAll [algorithm, signature]) :=
    Der.readTag?_write hbody rfl _
  have h₃ : skipVersion? c.bodyOf.contents = some (Der.writeAll ([serial, algorithm,
      c.issuer.toDer, validity, c.subject.toDer, c.publicKey] ++ c.tailOf)) :=
    skipVersion?_versionOf hversion _
  have h₄ : Der.readTag? Der.integerTag (Der.writeAll ([serial, algorithm, c.issuer.toDer,
      validity, c.subject.toDer, c.publicKey] ++ c.tailOf)) = some (c.serial,
      Der.writeAll ([algorithm, c.issuer.toDer, validity, c.subject.toDer, c.publicKey] ++
        c.tailOf)) := Der.readTag?_write hserial rfl _
  have h₅ : algorithm? (Der.writeAll ([algorithm, c.issuer.toDer, validity, c.subject.toDer,
      c.publicKey] ++ c.tailOf)) = some (c.signature, Der.writeAll ([c.issuer.toDer, validity,
        c.subject.toDer, c.publicKey] ++ c.tailOf)) := algorithm?_sequence hc.signature halgorithm _
  have h₆ : Der.readTag? Der.sequenceTag (Der.writeAll ([c.issuer.toDer, validity,
      c.subject.toDer, c.publicKey] ++ c.tailOf)) = some (c.issuer.toDer.contents,
        Der.writeAll ([validity, c.subject.toDer, c.publicKey] ++ c.tailOf)) :=
    Der.readTag?_write hissuer rfl _
  have h₇ : Der.readTag? Der.sequenceTag (Der.writeAll ([validity, c.subject.toDer,
      c.publicKey] ++ c.tailOf)) = some (validity.contents,
        Der.writeAll ([c.subject.toDer, c.publicKey] ++ c.tailOf)) :=
    Der.readTag?_write hvalidity rfl _
  have h₈ : Der.readTag? Der.sequenceTag (Der.writeAll ([c.subject.toDer, c.publicKey] ++
      c.tailOf)) = some (c.subject.toDer.contents, Der.writeAll ([c.publicKey] ++ c.tailOf)) :=
    Der.readTag?_write hsubject rfl _
  have h₉ : Der.readTag? Der.sequenceTag (Der.writeAll ([c.publicKey] ++ c.tailOf)) =
      some (c.publicKey.contents, Der.writeAll c.tailOf) := Der.readTag?_write hpublic hkeyTag _
  have h₁₀ : algorithm? c.publicKey.contents = some (kind, Der.writeAll [.bits keyBits]) := by
    rw [hkeyParts]
    exact algorithm?_sequence hkind hkeyKind _
  have h₁₁ : Der.readBits? (Der.writeAll [.bits keyBits]) = some (keyBits, []) :=
    readBits?_bits hkeyBits _
  have h₁₂ : skipTag (Der.plainContextTag 2) (skipTag (Der.plainContextTag 1)
      (Der.writeAll c.tailOf)) = Der.writeAll c.tailOf := by
    rw [skipTag_tailOf htail (by decide), skipTag_tailOf htail (by decide)]
  have h₁₃ : algorithm? (Der.writeAll [algorithm, signature]) =
      some (c.signature, Der.writeAll [signature]) := algorithm?_sequence hc.signature halgorithm _
  have h₁₄ : Der.readBits? (Der.writeAll [signature]) = some (bits, []) :=
    readBits?_bits hsignature _
  have hdates : validity? validity.contents = some (⟨c.notBefore.seconds, 0⟩,
      ⟨c.notAfter.seconds, 0⟩) := validity?_write hc.notBefore hc.notAfter hvalidity
  have hpublicKey : { tag := Der.sequenceTag, contents := c.publicKey.contents } = c.publicKey := by
    rw [← hkeyTag]
  rw [ofBytes?, h₁]
  simp only [Option.bind_eq_bind, Option.bind_some, Option.pure_def, h₂, h₃, h₄, h₅, h₆, h₇,
    hdates, h₈, h₉, h₁₀, h₁₁, h₁₂,
    extensions?_tailOf hc.extensions htail, h₁₃, h₁₄, hpublicKey,
    DistinguishedName.ofBytes_toDer hc.issuer hissuer,
    DistinguishedName.ofBytes_toDer hc.subject hsubject]
  rfl

end Certificate

end CertSteward
