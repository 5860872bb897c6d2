import CertSteward.Material.Request
import CertSteward.Proofs.Domain.NameList
import CertSteward.Proofs.Material.Certificate

/-!
# What a certificate request asks for

A request for accepted domain names can always be made: it has at least one name, and all its names
are ASCII. A name that reads as four numbers with dots between them is a domain name by its grammar,
but it is asked for as an address. All other names are asked for as DNS names, in their order.

## Main definitions

* `Domain.HasNameChars` — texts with no other characters than those of domain names
* `CertificateRequest.identifier` — a domain name as it is asked for
* `CertificateRequest.IsProper` — requests that can be read back

## Main results

* `Domain.chars_of_normalize` — the characters of an accepted name
* `CertificateRequest.ofNames_eq` — the request for a list of domain names
* `CertificateRequest.ofBytes?_toDer` — a request is read as it was written
* `CertificateRequest.build_names` — the request for accepted domain names
* `CertificateRequest.names_not_dns` — it does not ask for all of them as DNS names
-/

namespace CertSteward

/-! ### The characters of domain names -/

namespace Domain

variable {d n : String} {allowWildcard : Bool}

/-- A text with no other characters than those of domain names. -/
def HasNameChars (s : String) : Prop := ∀ c ∈ s.toList, isLabelChar c = true ∨ c = '.' ∨ c = '*'

theorem isLabelChar_toLower (c : Char) : isLabelChar c.toLower = isLabelChar c := by
  by_cases hupper : c.isUpper = true
  · have halpha : c.isAlpha = true := by simp [Char.isAlpha, hupper]
    simp [isLabelChar, Chars.isAlnum, halpha]
  · rw [Char.toLower_eq_of_not_isUpper hupper]

/-- The characters of an accepted name, blanks around it apart. -/
theorem chars_of_normalize (h : normalize d allowWildcard = .ok n) :
    HasNameChars (Text.trim d) := by
  obtain ⟨⟨before, core, dots, after, hd, hbefore, hafter, htrimmed, hdots, -, hlower⟩, -, hname⟩ :=
    normalize_eq_ok_iff.mp h
  have htrim : Chars.trim d.toList = core ++ dots :=
    Chars.trim_eq_iff.mpr ⟨before, after, hd, hbefore, hafter, htrimmed⟩
  intro c hc
  rw [Text.trim, String.toList_ofList, htrim] at hc
  obtain hc | hc := List.mem_append.mp hc
  · have hmem : c.toLower ∈ n.toList := hlower ▸ List.mem_map_of_mem hc
    rw [← isLabelChar_toLower, ← Chars.toLower_eq_iff (d := c) (c := '.') rfl,
      ← Chars.toLower_eq_iff (d := c) (c := '*') rfl]
    exact hname.chars hmem
  · exact .inr (.inl (hdots c hc))

theorem HasNameChars.isAscii (h : HasNameChars n) :
    n.toList.all (fun c => c.toNat < 128) = true := by
  rw [List.all_eq_true]
  intro c hc
  obtain hlabel | rfl | rfl := h c hc
  · exact decide_eq_true (toNat_of_isLabelChar hlabel).2
  · rfl
  · rfl

theorem HasNameChars.not_mem_colon (h : HasNameChars n) : ':' ∉ n.toList := by
  intro hc
  obtain hlabel | hdot | hstar := h ':' hc
  · cases hlabel
  · cases hdot
  · cases hstar

theorem HasNameChars.wildcardOf (h : HasNameChars n) : HasNameChars (wildcardOf n) := by
  intro c hc
  rw [toList_wildcardOf] at hc
  obtain rfl | hc := List.mem_cons.mp hc
  · exact .inr (.inr rfl)
  · obtain rfl | hc := List.mem_cons.mp hc
    · exact .inr (.inl rfl)
    · exact h c hc

end Domain

/-! ### Addresses -/

/-- There is no address with colons in a text without colons. -/
theorem Address.v6?_eq_none {s : List Char} (h : ':' ∉ s) : v6? s = none := by
  have hnone : Chars.splitAtText [':', ':'] s = none := by
    rw [Option.eq_none_iff_forall_ne_some]
    rintro ⟨a, b⟩ hsplit
    exact h (Chars.eq_of_splitAtText hsplit ▸ by simp)
  -- one group, which may be a dotted address, is at most two numbers
  have hfew : ∀ ns, groups? (pieces s) true = some ns → ns.length ≠ 8 := by
    intro ns hns
    have hpieces : pieces s = [] ∨ pieces s = [s] := by
      rw [pieces]
      split
      · exact .inl rfl
      · exact .inr (Chars.splitOn_eq_iff.mpr ⟨by simp, by simp, by simpa using h⟩)
    obtain hpieces | hpieces := hpieces
    · rw [hpieces, groups?] at hns
      cases hns
      simp
    · rw [hpieces, groups?] at hns
      split at hns
      · cases hns
        simp
      · rw [if_pos rfl] at hns
        split at hns
        · cases hns
          simp
        · cases hns
  rw [v6?, hnone]
  cases hns : groups? (pieces s) true with
  | none => rfl
  | some ns => exact if_neg (hfew ns hns)

namespace CertificateRequest

variable {primary : String} {others : List String} {wildcard : Bool} {key : KeyPair}

/-- A domain name as it is asked for: as an address if it reads as one, else as a DNS name. -/
def identifier (name : String) : GeneralName :=
  match Address.v4? name.toList with
  | some ns => .address (ns.map UInt8.ofNat)
  | none => .dns name

theorem generalName?_eq {name : String} (h : Domain.HasNameChars name) :
    generalName? name = some (identifier name) := by
  rw [generalName?, Address.bytes?, identifier, Address.v6?_eq_none h.not_mem_colon]
  cases Address.v4? name.toList with
  | some ns => rfl
  | none => simp only [Option.map_none, h.isAscii, if_true]

/-- The request for a list of domain names. -/
theorem ofNames_eq {names : List String} (h : ∀ n ∈ names, Domain.HasNameChars n) :
    ofNames names key = .ok { subject := .ofTexts [(.commonName, names.headD "")]
                              names := names.map identifier
                              publicKey := key.publicKey, signature := key.signatureKind } := by
  have hall : names.mapM generalName? = some (names.map identifier) := by
    induction names with
    | nil => rfl
    | cons n names ih =>
      rw [List.mapM_cons, generalName?_eq (h n List.mem_cons_self),
        ih fun m hm => h m (List.mem_cons_of_mem _ hm)]
      rfl
  rw [ofNames, hall]

/-- The names of a list are made of the characters of domain names if all that were given are
accepted. -/
theorem hasNameChars_of_nameList? {names : List String}
    (hprimary : ∃ n, Domain.normalize primary false = .ok n)
    (hothers : ∀ d ∈ others, ∃ n, Domain.normalize d true = .ok n)
    (h : nameList? primary others wildcard = some names) : ∀ n ∈ names, Domain.HasNameChars n := by
  intro n hn
  obtain ⟨p, hp⟩ := hprimary
  have hprimary := Domain.chars_of_normalize hp
  have hn := mem_nameList? h hn
  rw [nameCandidates] at hn
  obtain hn | hn := List.mem_append.mp hn
  · obtain rfl | hn := List.mem_cons.mp hn
    · exact hprimary
    · obtain ⟨d, hd, rfl⟩ := List.mem_map.mp hn
      obtain ⟨m, hm⟩ := hothers d hd
      exact Domain.chars_of_normalize hm
  · split at hn
    · obtain rfl := List.mem_singleton.mp hn
      exact hprimary.wildcardOf
    · cases hn

/-! ### The written request -/

/-- A request whose parts can be read back. -/
structure IsProper (r : CertificateRequest) : Prop where
  subject : r.subject.IsProper
  names : ∀ n ∈ r.names, n.tag.toNat % 32 ≠ 31
  publicKey : r.publicKey.tag = Der.sequenceTag
  signature : r.signature.IsProper

theorem isProper_extensionRequest : ObjectId.extensionRequest.IsProper :=
  ⟨1, 2, _, rfl, by decide, by decide, nofun⟩

theorem isProper_subjectNames : ObjectId.subjectNames.IsProper :=
  ⟨2, 5, _, rfl, by decide, by decide, nofun⟩

/-- The attribute with which a request asks for further names. -/
def namesAttribute (names : List GeneralName) : Der :=
  .sequence [ObjectId.extensionRequest.toDer,
    .set [.sequence [(Extension.subjectNames names).toDer]]]

/-- The list of names in the attribute can be read back if the attribute can. -/
theorem isProper_sequence_of_namesAttribute {names : List GeneralName}
    (h : (namesAttribute names).IsProper) : (Der.sequence names).IsProper := by
  let e := Extension.subjectNames names
  have hset : (Der.set [.sequence [e.toDer]]).IsProper :=
    h.of_mem rfl (List.mem_cons_of_mem _ List.mem_cons_self)
      (by decide : Der.setTag.toNat % 32 ≠ 31)
  have hrow : (Der.sequence [e.toDer]).IsProper :=
    hset.of_mem rfl List.mem_cons_self (by decide : Der.sequenceTag.toNat % 32 ≠ 31)
  have he : e.toDer.IsProper :=
    hrow.of_mem rfl List.mem_cons_self (by decide : Der.sequenceTag.toNat % 32 ≠ 31)
  have hvalue : (Der.bytes e.value).IsProper :=
    he.of_mem rfl (List.mem_cons_of_mem _ List.mem_cons_self)
      (by decide : Der.bytesTag.toNat % 32 ≠ 31)
  exact hvalue.of_mem (Der.writeAll_singleton _).symm List.mem_cons_self
    (by decide : Der.sequenceTag.toNat % 32 ≠ 31)

/-- The extensions that are asked for are read as they were written. -/
theorem requested?_namesAttribute {names : List GeneralName} (h : (namesAttribute names).IsProper) :
    requested? (namesAttribute names) = some [.subjectNames names] := by
  let e := Extension.subjectNames names
  have hkind : ObjectId.extensionRequest.toDer.IsProper :=
    h.of_mem rfl List.mem_cons_self (by decide : Der.objectTag.toNat % 32 ≠ 31)
  have hset : (Der.set [.sequence [e.toDer]]).IsProper :=
    h.of_mem rfl (List.mem_cons_of_mem _ List.mem_cons_self)
      (by decide : Der.setTag.toNat % 32 ≠ 31)
  have hrow : (Der.sequence [e.toDer]).IsProper :=
    hset.of_mem rfl List.mem_cons_self (by decide : Der.sequenceTag.toNat % 32 ≠ 31)
  have he : e.toDer.IsProper :=
    hrow.of_mem rfl List.mem_cons_self (by decide : Der.sequenceTag.toNat % 32 ≠ 31)
  have hfirst : Der.readTag? Der.objectTag (namesAttribute names).contents =
      some (ObjectId.extensionRequest.toBytes, Der.writeAll [.set [.sequence [e.toDer]]]) :=
    Der.readTag?_write hkind rfl _
  have hsecond : Der.readTag? Der.setTag (Der.writeAll [.set [.sequence [e.toDer]]]) =
      some (Der.writeAll [.sequence [e.toDer]], []) := Der.readTag?_write hset rfl _
  have hthird : Der.readTag? Der.sequenceTag (Der.writeAll [.sequence [e.toDer]]) =
      some (Der.writeAll [e.toDer], []) := Der.readTag?_write hrow rfl _
  have hall : Der.readAll? (Der.writeAll [e.toDer]) = some [e.toDer] :=
    Der.readAll?_writeAll fun v hv => List.mem_singleton.mp hv ▸ he
  rw [requested?, hfirst]
  simp only [Option.bind_eq_bind, Option.bind_some,
    ObjectId.ofBytes?_toBytes isProper_extensionRequest, Option.map_some, beq_self_eq_true, if_true,
    hsecond, hthird, hall, List.mapM_cons, List.mapM_nil,
    Extension.ofDer?_toDer isProper_subjectNames he]
  rfl

/-- **A request is read as it was written**, as long as there is a form for its length. -/
theorem ofBytes?_toDer {r : CertificateRequest} (hr : r.IsProper)
    (h : (r.toDer key).contents.length < Der.lengthLimit) :
    ofBytes? (r.toDer key).write = some r := by
  let asked : Der := { tag := Der.contextTag 0, contents := (namesAttribute r.names).write }
  let algorithm : Der := .sequence [r.signature.toDer]
  let signature : Der := .bits (key.sign r.body.write)
  -- all parts are proper, as they are shorter than the request
  have houter : (r.toDer key).IsProper := ⟨(by decide : Der.sequenceTag.toNat % 32 ≠ 31), h⟩
  have hbody : r.body.IsProper :=
    houter.of_mem rfl List.mem_cons_self (by decide : Der.sequenceTag.toNat % 32 ≠ 31)
  have halgorithm : algorithm.IsProper :=
    houter.of_mem rfl (List.mem_cons_of_mem _ List.mem_cons_self)
      (by decide : Der.sequenceTag.toNat % 32 ≠ 31)
  have hsignature : signature.IsProper :=
    houter.of_mem rfl (List.mem_cons_of_mem _ (List.mem_cons_of_mem _ List.mem_cons_self))
      (by decide : Der.bitsTag.toNat % 32 ≠ 31)
  have hparts : r.body.contents = Der.writeAll [.integer 0, r.subject.toDer, r.publicKey, asked] :=
    rfl
  have hversion : (Der.integer 0).IsProper :=
    hbody.of_mem hparts (by simp) (by decide : Der.integerTag.toNat % 32 ≠ 31)
  have hsubject : r.subject.toDer.IsProper :=
    hbody.of_mem hparts (by simp) (by decide : Der.sequenceTag.toNat % 32 ≠ 31)
  have hkey : r.publicKey.IsProper :=
    hbody.of_mem hparts (by simp) (by rw [hr.publicKey]; decide)
  have hasked : asked.IsProper :=
    hbody.of_mem hparts (by simp) (by decide : (Der.contextTag 0).toNat % 32 ≠ 31)
  have hnames : (namesAttribute r.names).IsProper :=
    hasked.of_mem (Der.writeAll_singleton _).symm List.mem_cons_self
      (by decide : Der.sequenceTag.toNat % 32 ≠ 31)
  have hkind : r.signature.toDer.IsProper :=
    halgorithm.of_mem rfl List.mem_cons_self (by decide : Der.objectTag.toNat % 32 ≠ 31)
  -- and they are read one after the other
  have h₁ : Der.readTag? Der.sequenceTag (r.toDer key).write =
      some (Der.writeAll [r.body, algorithm, signature], []) := by
    rw [← Der.writeAll_singleton]
    exact Der.readTag?_write houter rfl _
  have h₂ : Der.readTag? Der.sequenceTag (Der.writeAll [r.body, algorithm, signature]) =
      some (r.body.contents, Der.writeAll [algorithm, signature]) :=
    Der.readTag?_write hbody rfl _
  have h₃ : Der.readTag? Der.integerTag r.body.contents =
      some ((Der.integer 0).contents, Der.writeAll [r.subject.toDer, r.publicKey, asked]) :=
    Der.readTag?_write hversion rfl _
  have h₄ : Der.readTag? Der.sequenceTag (Der.writeAll [r.subject.toDer, r.publicKey, asked]) =
      some (r.subject.toDer.contents, Der.writeAll [r.publicKey, asked]) :=
    Der.readTag?_write hsubject rfl _
  have h₅ : Der.readTag? Der.sequenceTag (Der.writeAll [r.publicKey, asked]) =
      some (r.publicKey.contents, Der.writeAll [asked]) := Der.readTag?_write hkey hr.publicKey _
  have h₆ : Der.readTag? (Der.contextTag 0) (Der.writeAll [asked]) =
      some (Der.writeAll [namesAttribute r.names], []) := by
    rw [Der.writeAll_singleton (namesAttribute r.names)]
    exact Der.readTag?_write hasked rfl _
  have h₇ : Der.readAll? (Der.writeAll [namesAttribute r.names]) = some [namesAttribute r.names] :=
    Der.readAll?_writeAll fun v hv => List.mem_singleton.mp hv ▸ hnames
  have h₈ : Certificate.algorithm? (Der.writeAll [algorithm, signature]) =
      some (r.signature, Der.writeAll [signature]) := by
    have hfirst : Der.readTag? Der.sequenceTag (Der.writeAll [algorithm, signature]) =
        some (Der.writeAll [r.signature.toDer], Der.writeAll [signature]) :=
      Der.readTag?_write halgorithm rfl _
    have hsecond : Der.readTag? Der.objectTag (Der.writeAll [r.signature.toDer]) =
        some (r.signature.toBytes, []) := Der.readTag?_write hkind rfl _
    rw [Certificate.algorithm?, hfirst]
    simp only [Option.bind_eq_bind, Option.bind_some, hsecond,
      ObjectId.ofBytes?_toBytes hr.signature]
    rfl
  have h₉ : Der.readTag? Der.bitsTag (Der.writeAll [signature]) = some (signature.contents, []) :=
    Der.readTag?_write hsignature rfl _
  have hlist : GeneralName.listOfBytes? (Extension.subjectNames r.names).value = some r.names :=
    GeneralName.listOfBytes?_listToBytes hr.names (isProper_sequence_of_namesAttribute hnames)
  have hfind : [Extension.subjectNames r.names].find? (fun e => e.kind == .subjectNames) =
      some (.subjectNames r.names) := rfl
  have hpublic : { tag := Der.sequenceTag, contents := r.publicKey.contents } = r.publicKey := by
    rw [← hr.publicKey]
  rw [ofBytes?, h₁]
  simp only [Option.bind_eq_bind, Option.bind_some, Option.pure_def, h₂, h₃, h₄, h₅, h₆, h₇, h₈, h₉,
    List.mapM_cons, List.mapM_nil, requested?_namesAttribute hnames, List.flatten_cons,
    List.flatten_nil, List.append_nil, hfind, hlist, hpublic,
    DistinguishedName.ofBytes_toDer hr.subject hsubject]

/-! ### The request for domain names -/

/-- All parts of a request for names can be read back. -/
theorem isProper_ofNames {names : List String} {r : CertificateRequest}
    (h : ∀ n ∈ names, Domain.HasNameChars n) (hr : ofNames names key = .ok r) : r.IsProper := by
  rw [ofNames_eq h] at hr
  cases hr
  refine ⟨DistinguishedName.isProper_ofTexts fun a ha => ?_, fun n hn => ?_, rfl, ?_⟩
  · obtain rfl := List.mem_singleton.mp ha
    exact ⟨2, 5, _, rfl, by decide, by decide, nofun⟩
  · obtain ⟨name, -, rfl⟩ := List.mem_map.mp hn
    rw [identifier]
    cases Address.v4? name.toList with
    | none => exact (by decide : (Der.plainContextTag 2).toNat % 32 ≠ 31)
    | some ns => exact (by decide : (Der.plainContextTag 7).toNat % 32 ≠ 31)
  · rw [KeyPair.signatureKind]
    cases key.spec with
    | rsa bits => exact ⟨1, 2, _, rfl, by decide, by decide, nofun⟩
    | ecdsaP256 => exact ⟨1, 2, _, rfl, by decide, by decide, nofun⟩

/-- **The request for accepted domain names** can be made with every key, and the bytes that are
sent are read back as that request, as long as there is a form for their length. It asks for the
names of their list in their order, for those that read as addresses as addresses and for all others
as DNS names. So it asks for all of them as DNS names if and only if none of them reads as an
address. -/
theorem build_names (hprimary : ∃ n, Domain.normalize primary false = .ok n)
    (hothers : ∀ d ∈ others, ∃ n, Domain.normalize d true = .ok n) (wildcard : Bool)
    (key : KeyPair) :
    ∃ names request, nameList? primary others wildcard = some names ∧
      build primary others wildcard key = .ok (names, request) ∧
      ((request.toDer key).contents.length < Der.lengthLimit →
        ofBytes? (request.toDer key).write = some request) ∧
      request.names = names.map identifier ∧
      (request.names = names.map GeneralName.dns ↔
        ∀ n ∈ names, Address.v4? n.toList = none) := by
  obtain ⟨p, hp⟩ := hprimary
  obtain ⟨names, hnames⟩ := exists_nameList? others wildcard
    (Domain.trim_ne_empty_of_normalize hp)
  have hchars := hasNameChars_of_nameList? ⟨p, hp⟩ hothers hnames
  obtain ⟨request, hrequest, hall⟩ : ∃ request, ofNames names key = .ok request ∧
      request.names = names.map identifier := ⟨_, ofNames_eq hchars, rfl⟩
  refine ⟨names, request, hnames, ?_, ofBytes?_toDer (isProper_ofNames hchars hrequest), hall, ?_⟩
  · simp only [build, hnames, hrequest]
    rfl
  · rw [hall, List.map_inj_left]
    refine forall₂_congr fun n _ => ?_
    rw [identifier]
    cases Address.v4? n.toList with
    | none => simp
    | some ns => simp [GeneralName.address, GeneralName.dns, Der.plainContextTag]

/-- A key for examples. -/
def sampleKey : KeyPair where
  spec := .ecdsaP256
  secret := []

/-- A request for a name, its wildcard and a name that reads as an address. -/
theorem build_names_example_com : (∃ n, Domain.normalize " Example.COM." false = .ok n) ∧
    (∀ d ∈ ["10.0.0.1"], ∃ n, Domain.normalize d true = .ok n) ∧
    ∃ request, build " Example.COM." ["10.0.0.1"] true sampleKey =
        .ok (["Example.COM.", "10.0.0.1", "*.Example.COM."], request) ∧
      request.names = [.dns "Example.COM.", .address [10, 0, 0, 1], .dns "*.Example.COM."] := by
  have hprimary : ∃ n, Domain.normalize " Example.COM." false = .ok n := ⟨_, rfl⟩
  have hothers : ∀ d ∈ ["10.0.0.1"], ∃ n, Domain.normalize d true = .ok n := fun d hd =>
    List.mem_singleton.mp hd ▸ ⟨_, rfl⟩
  obtain ⟨names, request, hnames, hbuild, -, hall, -⟩ :=
    build_names hprimary hothers true sampleKey
  obtain rfl : ["Example.COM.", "10.0.0.1", "*.Example.COM."] = names := Option.some.inj hnames
  exact ⟨hprimary, hothers, request, hbuild, hall⟩

/-- A domain name that reads as an address is not asked for as a DNS name. -/
theorem names_not_dns : ¬ ∀ primary others wildcard key names request,
    (∃ n, Domain.normalize primary false = .ok n) →
    (∀ d ∈ others, ∃ n, Domain.normalize d true = .ok n) →
    build primary others wildcard key = .ok (names, request) →
    request.names = names.map GeneralName.dns := by
  intro hdns
  have hbuild : (build "1.2.3.4" [] false sampleKey).map (fun x => (x.1, x.2.names)) =
      .ok (["1.2.3.4"], [GeneralName.address [1, 2, 3, 4]]) := rfl
  cases h : build "1.2.3.4" [] false sampleKey with
  | error e =>
    rw [h] at hbuild
    cases hbuild
  | ok x =>
    rw [h] at hbuild
    obtain ⟨hnames, hgeneral⟩ := Prod.mk.inj (Except.ok.inj hbuild)
    have hall := hdns _ _ _ _ _ _ ⟨_, rfl⟩ (fun d hd => absurd hd List.not_mem_nil) h
    rw [hnames, hgeneral] at hall
    exact absurd hall (by decide)

end CertificateRequest

end CertSteward
