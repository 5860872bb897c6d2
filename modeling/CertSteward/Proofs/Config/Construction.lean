import CertSteward.Config.Validation
import CertSteward.Service.Service
import Mathlib.Logic.Basic

/-!
# What a valid configuration can be run with

A configuration is checked before anything is made of it, and what is made of it checks the same
things once more: that a zone is named, that a service at a location has one, and that name servers
are addresses. The two agree on the locations and the addresses. They differ in the zone: to be
valid it must not be empty, while the service refuses it if it is blank. So a zone of nothing but
blanks is valid, and no service comes of it.

## Main definitions

* `DnsSettings.HasBlankZone` — the zone is made of blanks

## Main results

* `Address.isAddress_eq` — what is an address can be written again
* `Config.mismatch?_eq_none_iff` — when the settings fit together
* `Config.construct_of_isValid` — what comes of a valid configuration
-/

namespace CertSteward

variable {c : Config} {d : DnsSettings} {file : String → Except FileFault String}
  {environment : String → Option String} {credentials : Option Credentials}

/-! ### Addresses -/

/-- What is an address can be written again, and nothing else can. -/
theorem Address.isAddress_eq (s : String) : isAddress s = (normal? s).isSome := by
  rw [isAddress, bytes?, normal?]
  cases v4? s.toList with
  | some ns => rfl
  | none =>
    cases v6? s.toList with
    | none => rfl
    | some ns =>
      -- the two forms of an address with eight groups are both texts
      rw [Option.map_some, Option.isSome_some]
      symm
      split
      · rfl
      · rfl
      · rfl
      · contradiction

/-- What can be done for each element of a list can be done for all of it. -/
theorem exists_mapM_ok {ε α β : Type} {f : α → Except ε β} {l : List α}
    (h : ∀ a ∈ l, ∃ b, f a = .ok b) : ∃ bs, l.mapM f = .ok bs := by
  induction l with
  | nil => exact ⟨[], rfl⟩
  | cons a l ih =>
    obtain ⟨⟨b, hb⟩, hl⟩ := List.forall_mem_cons.mp h
    obtain ⟨bs, hbs⟩ := ih hl
    refine ⟨b :: bs, ?_⟩
    rw [List.mapM_cons, hb, hbs]
    rfl

theorem exists_bind_ok {ε α β : Type} {x : Except ε α} {f : α → Except ε β}
    (hx : ∃ a, x = .ok a) (hf : ∀ a, ∃ b, f a = .ok b) : ∃ b, (x >>= f) = .ok b := by
  obtain ⟨a, rfl⟩ := hx
  exact hf a

/-- Name servers that are addresses can be asked. -/
theorem PropagationPlan.exists_ofSettings {p : PropagationSettings}
    (h : ∀ ns ∈ p.nameservers, Address.isAddress ns = true) : ∃ plan, ofSettings p = .ok plan := by
  rw [ofSettings]
  refine exists_bind_ok (exists_mapM_ok fun ns hns => ?_) fun _ => ⟨_, rfl⟩
  obtain ⟨a, ha⟩ := Option.isSome_iff_exists.mp ((Address.isAddress_eq ns).symm.trans (h ns hns))
  exact ⟨a, by rw [ha]⟩

theorem DnsPractice.exists_ofSettings
    (h : ∀ ns ∈ d.propagation.nameservers, Address.isAddress ns = true) :
    ∃ p, ofSettings d = .ok p := by
  rw [ofSettings]
  split
  · obtain ⟨plan, hplan⟩ := PropagationPlan.exists_ofSettings h
    rw [hplan]
    exact ⟨_, rfl⟩
  · exact ⟨_, rfl⟩

/-! ### Validity -/

namespace Config

theorem isValid_iff : c.isValid = true ↔ c.fieldViolations = [] ∧ c.mismatch? = none := by
  rw [isValid, violations, List.isEmpty_iff]
  cases c.fieldViolations with
  | nil => cases c.mismatch? <;> simp
  | cons v vs => simp

/-- What a service needs is there. -/
structure Equipped (d : DnsSettings) : Prop where
  zone : d.kind = .cloudflare → ∃ zone, d.zoneId = some zone ∧ zone ≠ ""
  credentials : d.kind = .cloudflare → d.hasCredentials = true
  url : d.kind = .webhook → ∃ url, d.url = some url ∧ url ≠ ""

theorem getD_empty_ne_iff {o : Option String} : o.getD "" ≠ "" ↔ ∃ s, o = some s ∧ s ≠ "" := by
  cases o <;> simp

theorem serviceViolation?_eq_none_iff : serviceViolation? d = none ↔ Equipped d := by
  rw [serviceViolation?]
  cases hkind : d.kind with
  | cloudflare =>
    dsimp only
    constructor
    · intro h
      split at h
      · cases h
      rename_i hzone
      split at h
      · cases h
      rename_i hcredentials
      exact ⟨fun _ => getD_empty_ne_iff.mp hzone, fun _ => not_not.mp hcredentials, by simp [hkind]⟩
    · rintro ⟨hzone, hcredentials, -⟩
      rw [if_neg (getD_empty_ne_iff.mpr (hzone hkind)), if_neg (not_not.mpr (hcredentials hkind))]
  | webhook =>
    dsimp only
    constructor
    · intro h
      split at h
      · cases h
      rename_i hurl
      exact ⟨by simp [hkind], by simp [hkind], fun _ => getD_empty_ne_iff.mp hurl⟩
    · rintro ⟨-, -, hurl⟩
      rw [if_neg (getD_empty_ne_iff.mpr (hurl hkind))]
  | memory => exact iff_of_true rfl ⟨by simp [hkind], by simp [hkind], by simp [hkind]⟩

/-- The settings fit together. -/
structure Fits (c : Config) : Prop where
  polls : c.acme.pollInitial ≤ c.acme.pollMax
  equipped : Equipped c.dns
  url : ∀ url ∈ c.dns.url, ∃ u, Url.parse url = .ok u
  nameservers : ∀ ns ∈ c.dns.propagation.nameservers, Address.isAddress ns = true
  format : ∃ f, LogFormat.parse c.logging.format = .ok f

theorem urlViolation?_eq_none_iff :
    urlViolation? d = none ↔ ∀ url ∈ d.url, ∃ u, Url.parse url = .ok u := by
  rw [urlViolation?]
  cases d.url with
  | none => simp
  | some url => cases h : Url.parse url <;> simp [h]

/-- No mismatch is found exactly if the settings fit together. -/
theorem mismatch?_eq_none_iff : c.mismatch? = none ↔ c.Fits := by
  rw [mismatch?]
  split
  · rename_i hlt
    exact iff_of_false nofun fun h => Nat.not_le.mpr hlt h.polls
  · rename_i hle
    rw [Option.or_eq_none_iff, Option.or_eq_none_iff, Option.or_eq_none_iff, Option.map_eq_none_iff,
      List.find?_eq_none, serviceViolation?_eq_none_iff, urlViolation?_eq_none_iff]
    simp only [Bool.not_eq_true', Bool.not_eq_false]
    constructor
    · rintro ⟨hequipped, hurl, hservers, hformat⟩
      refine ⟨Nat.not_lt.mp hle, hequipped, hurl, hservers, ?_⟩
      split at hformat
      · rename_i f hf
        exact ⟨f, hf⟩
      · cases hformat
    · intro h
      obtain ⟨f, hf⟩ := h.format
      exact ⟨h.equipped, h.url, h.nameservers, by rw [hf]⟩

theorem fits_of_isValid (h : c.isValid = true) : c.Fits :=
  mismatch?_eq_none_iff.mp (isValid_iff.mp h).2

end Config

/-! ### Construction -/

/-- The zone that is to be used has a name of nothing but blanks. -/
def DnsSettings.HasBlankZone (d : DnsSettings) : Prop :=
  d.kind = .cloudflare ∧ ∃ zone, d.zoneId = some zone ∧ Text.isBlank zone = true

/-- What is said of a zone that has no name. -/
def DnsError.zoneless : DnsError := .configuration "cloudflare provider requires a zone-id"

theorem DnsSettings.hasBlankZone_iff {zone : String} (hkind : d.kind = .cloudflare)
    (hzone : d.zoneId = some zone) : d.HasBlankZone ↔ Text.isBlank zone = true := by
  simp [HasBlankZone, hkind, hzone]

theorem DnsSettings.not_hasBlankZone (hkind : d.kind ≠ .cloudflare) : ¬ d.HasBlankZone :=
  fun h => hkind h.1

/-- Where a place for credentials is named, there are credentials or an error. -/
theorem DnsSettings.exists_of_credentials (h : d.hasCredentials = true)
    (hcredentials : d.credentials file environment = .ok credentials) :
    ∃ found, credentials = some found := by
  have hmap : ∀ {r : Except DnsError Credentials}, r.map some = .ok credentials →
      ∃ found, credentials = some found := fun {r} hr => by
    cases r with
    | error e => cases hr
    | ok found => exact ⟨found, (Except.ok.inj hr).symm⟩
  rw [DnsSettings.credentials] at hcredentials
  split at hcredentials
  · exact hmap hcredentials
  · exact hmap hcredentials
  · rename_i hfile hvariable
    simp [hasCredentials, hfile, hvariable] at h

/-- There is a service for settings that have what it needs, unless the zone is blank. -/
theorem DnsService.ofSettings_of_equipped (h : Config.Equipped d)
    (hcredentials : d.credentials file environment = .ok credentials) :
    (d.HasBlankZone → ofSettings d file environment = .error .zoneless) ∧
      (¬ d.HasBlankZone → ∃ s, ofSettings d file environment = .ok s) := by
  cases hkind : d.kind with
  | cloudflare =>
    obtain ⟨zone, hzone, -⟩ := h.zone hkind
    obtain ⟨found, rfl⟩ := DnsSettings.exists_of_credentials (h.credentials hkind) hcredentials
    have hmake : ofSettings d file environment =
        (Cloudflare.make zone found d.url (.ofSeconds d.apiTimeout)).map .cloudflare := by
      rw [ofSettings, hkind, hzone]
      dsimp only
      rw [hcredentials]
      rfl
    rw [DnsSettings.hasBlankZone_iff hkind hzone, hmake, Cloudflare.make]
    exact ⟨fun hblank => by rw [if_pos hblank]; rfl, fun hnamed => by
      rw [if_neg hnamed]
      exact ⟨_, rfl⟩⟩
  | webhook =>
    obtain ⟨url, hurl, -⟩ := h.url hkind
    have hblank : ¬ d.HasBlankZone := DnsSettings.not_hasBlankZone (by simp [hkind])
    refine ⟨fun h => absurd h hblank, fun _ => ?_⟩
    rw [ofSettings, hkind, hurl]
    dsimp only
    rw [hcredentials]
    exact ⟨_, rfl⟩
  | memory =>
    have hblank : ¬ d.HasBlankZone := DnsSettings.not_hasBlankZone (by simp [hkind])
    refine ⟨fun h => absurd h hblank, fun _ => ?_⟩
    rw [ofSettings, hkind]
    exact ⟨_, rfl⟩

/-- A service is started over any store from a valid configuration whose credentials are there,
unless its zone is blank. -/
theorem Service.startOver_of_isValid {host : Host} (h : c.isValid = true)
    (hcredentials : c.dns.credentials host.readText host.environment = .ok credentials)
    (store : RecordStore) :
    (c.dns.HasBlankZone → startOver host c store = .error (.dnsService .zoneless)) ∧
      (¬ c.dns.HasBlankZone → ∃ started, startOver host c store = .ok started) := by
  have hfits := Config.fits_of_isValid h
  obtain ⟨practice, hpractice⟩ := DnsPractice.exists_ofSettings hfits.nameservers
  obtain ⟨hrefused, hmade⟩ := DnsService.ofSettings_of_equipped hfits.equipped hcredentials
  refine ⟨fun hblank => ?_, fun hnamed => ?_⟩
  · rw [startOver, hrefused hblank]
    rfl
  · obtain ⟨service, hservice⟩ := hmade hnamed
    rw [startOver, hservice, hpractice]
    exact ⟨_, rfl⟩

/-- **What comes of a valid configuration.** If its credentials are there, it is known how to make
challenge records, and there is a service to make them, but for one case: a zone whose name is
nothing but blanks is valid, and the service says that there is none. -/
theorem Config.construct_of_isValid (h : c.isValid = true)
    (hcredentials : c.dns.credentials file environment = .ok credentials) :
    (∃ practice, DnsPractice.ofSettings c.dns = .ok practice) ∧
      (c.dns.HasBlankZone → DnsService.ofSettings c.dns file environment = .error .zoneless) ∧
      (¬ c.dns.HasBlankZone →
        ∃ service, DnsService.ofSettings c.dns file environment = .ok service) :=
  ⟨DnsPractice.exists_ofSettings (fits_of_isValid h).nameservers,
    DnsService.ofSettings_of_equipped (fits_of_isValid h).equipped hcredentials⟩

/-- A configuration for a zone, with its token in a variable. -/
def sampleZoned (zone : String) : Config :=
  { Config.embedded with
    dns := { kind := .cloudflare, zoneId := some zone, credentialsVariable := some "TOKEN"
             propagation := { enabled := true } } }

/-- A variable that holds a token. -/
def sampleToken (name : String) : Option String := if name = "TOKEN" then some "t" else none

/-- There is a service for a zone with a name. -/
theorem Config.construct_of_isValid_sampleZoned :
    (sampleZoned "zone-1").isValid = true ∧
      (sampleZoned "zone-1").dns.credentials (fun _ => .error .missing) sampleToken =
        .ok (some (.token "t")) ∧
      (∃ practice, DnsPractice.ofSettings (sampleZoned "zone-1").dns = .ok practice) ∧
      ∃ service, DnsService.ofSettings (sampleZoned "zone-1").dns (fun _ => .error .missing)
        sampleToken = .ok service := by
  have hvalid : (sampleZoned "zone-1").isValid = true := by decide +kernel
  have hcredentials : (sampleZoned "zone-1").dns.credentials (fun _ => .error .missing) sampleToken =
      .ok (some (.token "t")) := by
    rfl
  obtain ⟨hpractice, -, hmade⟩ := Config.construct_of_isValid hvalid hcredentials
  refine ⟨hvalid, hcredentials, hpractice, hmade ?_⟩
  rw [DnsSettings.hasBlankZone_iff rfl rfl]
  decide

/-- A zone with a blank for a name is valid, and no service comes of it. -/
theorem Config.valid_not_constructible :
    ¬ ∀ (c : Config) (file : String → Except FileFault String)
      (environment : String → Option String) (credentials : Credentials), c.isValid = true →
      c.dns.credentials file environment = .ok (some credentials) →
      ∀ detail, DnsService.ofSettings c.dns file environment ≠ .error (.configuration detail) := by
  intro h
  exact h (sampleZoned " ") (fun _ => .error .missing) sampleToken (.token "t") (by decide +kernel)
    rfl "cloudflare provider requires a zone-id" rfl

end CertSteward
