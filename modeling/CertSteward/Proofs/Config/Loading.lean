import CertSteward.Proofs.Config.Agreement
import Mathlib.Data.List.Basic

/-!
# What becomes of a setting

A setting of a KDL document stands in a block that is known to have it. Of the values that it is
given there, those of its kind count, and the others are passed over in silence. So what is loaded
is exactly what is given if all of it is of the right kind; but a setting that is given a value of
another kind keeps its default, and a list loses such values.

## Main definitions

* `Setting` — a setting: where it stands, and what its values mean
* `Setting.all` — the settings there are
* `Setting.StandsIn` — a document has a setting just once
* `Setting.IsLoaded`, `Setting.IsKept` — what was given is loaded; what was of its kind is

## Main results

* `Config.eq_of_settings` — there is nothing else in a configuration
* `Config.isKept_of_standsIn` — what is of its kind is loaded
-/

namespace CertSteward

/-! ### Settings -/

/-- A setting. -/
structure Setting where
  /-- The names of the blocks in which it stands, from the outside to the inside. -/
  block : List String
  /-- Its name. -/
  name : String
  /-- The values of a node that are for the setting. -/
  given : Kdl.Node → List Kdl.Value
  {Raw : Type}
  /-- A value of its kind. -/
  kind : Kdl.Value → Option Raw
  {Content : Type}
  /-- What values of its kind mean, if they mean something. -/
  read : List Raw → Option Content
  /-- Where it is in a configuration. -/
  part : Config → Content

namespace Setting

/-- What was given is what is in the configuration. -/
def IsLoaded (s : Setting) (n : Kdl.Node) (c : Config) : Prop :=
  ∃ vs, (s.given n).map s.kind = vs.map some ∧ s.read vs = some (s.part c)

/-- What is of its kind of that which was given is what is in the configuration. -/
def IsKept (s : Setting) (n : Kdl.Node) (c : Config) : Prop :=
  s.read ((s.given n).filterMap s.kind) = some (s.part c)

/-- If all is of its kind, all is loaded. -/
theorem IsKept.isLoaded {s : Setting} {n : Kdl.Node} {c : Config} (h : s.IsKept n c)
    (hkind : ∀ v ∈ s.given n, (s.kind v).isSome) : s.IsLoaded n c := by
  refine ⟨(s.given n).filterMap s.kind, ?_, h⟩
  rw [List.map_filterMap_some_eq_filter_map_isSome, List.filter_eq_self.mpr]
  exact List.forall_mem_map.mpr hkind

/-- If nothing is of its kind, a setting that need not be given values keeps its default. -/
theorem IsKept.usual {s : Setting} {n : Kdl.Node} {c : Config} (h : s.IsKept n c)
    (hnone : ∀ v ∈ s.given n, s.kind v = none) (husual : s.read [] = some (s.part {})) :
    s.part c = s.part {} := by
  rw [IsKept, List.filterMap_eq_nil_iff.mpr hnone, husual] at h
  exact (Option.some.inj h).symm

section Kinds

variable {Raw Content : Type} (block : List String) (name : String)

/-- A setting of one value, with its default. -/
def single (kind : Kdl.Value → Option Raw) (parse : Raw → Option Content)
    (part : Config → Content) : Setting where
  block := block
  name := name
  given n := (n.entries.head?.map (·.value)).toList
  kind := kind
  read vs := orUsual? vs.head? parse (part {})
  part := part

/-- A text. -/
def text (part : Config → String) : Setting := single block name Kdl.Value.text? some part

/-- A text that there is or is not. -/
def optionalText (part : Config → Option String) : Setting :=
  single block name Kdl.Value.text? (fun s => some (some s)) part

/-- A text that names a choice. -/
def choice (parse : String → Except String Content) (part : Config → Content) : Setting :=
  single block name Kdl.Value.text? (fun s => (parse s).toOption) part

/-- A whole number of so many bits. -/
def number (bits : Nat) (part : Config → Nat) : Setting :=
  single block name Kdl.Value.whole? (natOf? bits) part

/-- A truth value. -/
def truth (part : Config → Bool) : Setting := single block name Kdl.Value.truth? some part

/-- Any number of texts. -/
def texts (part : Config → List String) : Setting where
  block := block
  name := name
  given := Kdl.Node.arguments
  kind := Kdl.Value.text?
  read := some
  part := part

end Kinds

def ofAcme : List Setting :=
  [optionalText ["acme"] "email" (·.acme.email),
    choice ["acme"] "directory" Directory.parse (·.acme.directory),
    choice ["acme"] "key-type" KeyType.parse (·.acme.keyType),
    number ["acme"] "request-timeout-secs" 64 (·.acme.requestTimeout),
    number ["acme"] "request-retries" 32 (·.acme.requestRetries),
    number ["acme"] "validation-timeout-secs" 64 (·.acme.validationTimeout),
    number ["acme"] "poll-initial-interval-ms" 64 (·.acme.pollInitial),
    number ["acme"] "poll-max-interval-ms" 64 (·.acme.pollMax),
    number ["acme"] "finalize-timeout-secs" 64 (·.acme.finalizeTimeout)]

def ofRenewal : List Setting :=
  [number ["renewal"] "interval-hours" 64 (·.renewal.intervalHours),
    number ["renewal"] "window-days" 32 (·.renewal.windowDays),
    number ["renewal"] "workers" 64 (·.renewal.workers),
    truth ["renewal"] "run-on-start" (·.renewal.runOnStart)]

def ofPropagation : List Setting :=
  [truth ["dns-provider", "propagation"] "enabled" (·.dns.propagation.enabled),
    number ["dns-provider", "propagation"] "initial-delay-secs" 64
      (·.dns.propagation.initialDelay),
    number ["dns-provider", "propagation"] "check-interval-secs" 64
      (·.dns.propagation.checkInterval),
    number ["dns-provider", "propagation"] "timeout-secs" 64 (·.dns.propagation.timeout),
    texts ["dns-provider", "propagation"] "nameservers" (·.dns.propagation.nameservers)]

def ofDns : List Setting :=
  [choice ["dns-provider"] "type" DnsKind.parse (·.dns.kind),
    optionalText ["dns-provider"] "zone-id" (·.dns.zoneId),
    optionalText ["dns-provider"] "url" (·.dns.url),
    optionalText ["dns-provider"] "auth-header" (·.dns.authHeader),
    optionalText ["dns-provider"] "credentials-file" (·.dns.credentialsFile),
    optionalText ["dns-provider"] "credentials-env" (·.dns.credentialsVariable),
    number ["dns-provider"] "api-timeout-secs" 64 (·.dns.apiTimeout),
    number ["dns-provider"] "provision-retries" 32 (·.dns.retries)]

def ofStorage : List Setting := [text ["storage"] "path" (·.storage.path)]

def ofLogging : List Setting :=
  [text ["logging"] "level" (·.logging.level), text ["logging"] "format" (·.logging.format)]

/-- The settings there are. -/
def all : List Setting := ofAcme ++ ofRenewal ++ ofPropagation ++ ofDns ++ ofStorage ++ ofLogging

end Setting

/-- **The settings are all there is** to a configuration. -/
theorem Config.eq_of_settings {c d : Config} (h : ∀ s ∈ Setting.all, s.part c = s.part d) :
    c = d := by
  simp only [Setting.all, Setting.ofAcme, Setting.ofRenewal, Setting.ofPropagation, Setting.ofDns,
    Setting.ofStorage, Setting.ofLogging, Setting.single, Setting.text, Setting.optionalText,
    Setting.choice, Setting.number, Setting.truth, Setting.texts, List.forall_mem_append,
    List.forall_mem_cons] at h
  obtain ⟨⟨⟩, ⟨⟩, ⟨_, _, _, _, _, _, _, _, ⟨⟩⟩, ⟨⟩, ⟨⟩⟩ := c
  obtain ⟨⟨⟩, ⟨⟩, ⟨_, _, _, _, _, _, _, _, ⟨⟩⟩, ⟨⟩, ⟨⟩⟩ := d
  simp_all

/-! ### Where settings stand -/

namespace Kdl

/-- The only node of a name. -/
def IsOnly (name : String) (nodes : List Node) (n : Node) : Prop :=
  nodes.filter (·.name == name) = [n]

/-- The nodes inside blocks each of which is the only one of its name. -/
def Within : List String → List Node → List Node → Prop
  | [], nodes, inner => nodes = inner
  | name :: path, nodes, inner => ∃ b, IsOnly name nodes b ∧ Within path b.children inner

variable {name : String} {nodes : List Node} {b n : Node}

theorem IsOnly.child? (h : IsOnly name b.children n) : b.child? name = some n := by
  rw [Node.child?, ← List.head?_filter, h]
  rfl

theorem IsOnly.firstValue? (h : IsOnly name b.children n) :
    b.firstValue? name = n.entries.head?.map (·.value) := by
  cases hhead : n.entries.head? <;> simp [Node.firstValue?, h.child?, hhead]

/-- What is there besides the only node has other names. -/
theorem IsOnly.split (h : IsOnly name nodes n) : n.name = name ∧ ∃ before after,
    nodes = before ++ n :: after ∧ (∀ b ∈ before, b.name ≠ name) ∧ ∀ b ∈ after, b.name ≠ name := by
  obtain ⟨before, after, rfl, hbefore, hn, hafter⟩ := List.filter_eq_cons_iff.mp h
  refine ⟨by simpa using hn, before, after, rfl, ?_, ?_⟩
  · simpa using hbefore
  · simpa using List.filter_eq_nil_iff.mp hafter

end Kdl

/-- A node is the only one of the setting, and its blocks are the only ones of their names. -/
def Setting.StandsIn (s : Setting) (nodes : List Kdl.Node) (n : Kdl.Node) : Prop :=
  ∃ inner, Kdl.Within s.block nodes inner ∧ Kdl.IsOnly s.name inner n

/-! ### Blocks -/

namespace Config

variable {c d : Config} {b n : Kdl.Node} {nodes : List Kdl.Node}

/-- A block of the right name is read into its part of a configuration, and no other one is. -/
def Takes {α : Type} (name : String) (ofBlock : Kdl.Node → Except ConfigFault α)
    (part : Config → α) (c : Config) (b : Kdl.Node) (d : Config) : Prop :=
  if b.name = name then ofBlock b = .ok (part d) else part d = part c

theorem takes_of_addBlock (h : addBlock c b = .ok d) :
    Takes "acme" acmeOfBlock acme c b d ∧ Takes "renewal" renewalOfBlock renewal c b d ∧
      Takes "dns-provider" dnsOfBlock dns c b d ∧
      Takes "storage" (.ok ∘ storageOfBlock) storage c b d ∧
      Takes "logging" (.ok ∘ loggingOfBlock) logging c b d := by
  unfold addBlock at h
  split at h
  · rename_i hname
    cases hread : acmeOfBlock b <;> rw [hread] at h <;> cases h
    simp [Takes, hname, hread]
  · rename_i hname
    cases hread : renewalOfBlock b <;> rw [hread] at h <;> cases h
    simp [Takes, hname, hread]
  · rename_i hname
    cases hread : dnsOfBlock b <;> rw [hread] at h <;> cases h
    simp [Takes, hname, hread]
  · rename_i hname
    cases h
    simp [Takes, hname]
  · rename_i hname
    cases h
    simp [Takes, hname]
  · cases h

section Parts

variable {α : Type} {name : String} {ofBlock : Kdl.Node → Except ConfigFault α}
variable {part : Config → α}

theorem part_of_ne (htakes : ∀ c b d, addBlock c b = .ok d → Takes name ofBlock part c b d)
    (hne : ∀ b ∈ nodes, b.name ≠ name) (h : nodes.foldlM addBlock c = .ok d) :
    part d = part c := by
  induction nodes generalizing c with
  | nil =>
    cases h
    rfl
  | cons b nodes ih =>
    obtain ⟨hb, hnodes⟩ := List.forall_mem_cons.mp hne
    rw [List.foldlM_cons] at h
    cases hadd : addBlock c b with
    | error e =>
      rw [hadd] at h
      cases h
    | ok c' =>
      rw [hadd] at h
      have hpart := htakes c b c' hadd
      rw [Takes, if_neg hb] at hpart
      rw [ih hnodes h, hpart]

/-- The only block for a part is what that part is read from. -/
theorem ofBlock_of_isOnly (htakes : ∀ c b d, addBlock c b = .ok d → Takes name ofBlock part c b d)
    (hb : Kdl.IsOnly name nodes b) (h : ofNodes nodes = .ok c) : ofBlock b = .ok (part c) := by
  obtain ⟨hname, before, after, rfl, -, hafter⟩ := hb.split
  rw [ofNodes, List.foldlM_append] at h
  cases hbefore : before.foldlM addBlock ({} : Config) with
  | error e =>
    rw [hbefore] at h
    cases h
  | ok c₁ =>
    rw [hbefore] at h
    change (b :: after).foldlM addBlock c₁ = .ok c at h
    rw [List.foldlM_cons] at h
    cases hadd : addBlock c₁ b with
    | error e =>
      rw [hadd] at h
      cases h
    | ok c₂ =>
      rw [hadd] at h
      have hread := htakes c₁ b c₂ hadd
      rwa [Takes, if_pos hname, ← part_of_ne htakes hafter h] at hread

end Parts

end Config

/-! ### What is loaded -/

namespace Setting

open Config

variable {c : Config} {b n : Kdl.Node} {nodes : List Kdl.Node}

theorem isKept_single {Raw Content : Type} {block : List String} {name : String}
    {kind : Kdl.Value → Option Raw} {parse : Raw → Option Content} {part : Config → Content}
    (h : orUsual? ((b.firstValue? name).bind kind) parse (part {}) = some (part c))
    (hn : Kdl.IsOnly (single block name kind parse part).name b.children n) :
    (single block name kind parse part).IsKept n c := by
  change Kdl.IsOnly name b.children n at hn
  rw [hn.firstValue?] at h
  refine Eq.trans ?_ h
  cases hhead : n.entries.head? with
  | none => simp [single, hhead]
  | some e => cases hkind : kind e.value <;> simp [single, hhead, hkind]

theorem isKept_optionalText {block : List String} {name : String}
    {part : Config → Option String} (husual : part {} = none)
    (h : part c = (b.firstValue? name).bind Kdl.Value.text?)
    (hn : Kdl.IsOnly (optionalText block name part).name b.children n) :
    (optionalText block name part).IsKept n c :=
  isKept_single (by rw [husual, h, orUsual?_some_comp, getD_map_some]) hn

theorem isKept_ofAcme (h : acmeOfBlock b = .ok c.acme) :
    ∀ s ∈ ofAcme, Kdl.IsOnly s.name b.children n → s.IsKept n c := by
  replace h := congrArg Except.toOption h
  simp only [acmeOfBlock, blockText?, Except.toOption_bind, toOption_blockChoice,
    toOption_blockSmall, toOption_blockNat, Except.toOption_pure, Except.toOption_ok,
    Option.bind_eq_some_iff, Option.some.injEq] at h
  obtain ⟨directory, hdirectory, keyType, hkeyType, requestRetries, hrequestRetries, requestTimeout,
    hrequestTimeout, validationTimeout, hvalidationTimeout, pollInitial, hpollInitial, pollMax,
    hpollMax, finalizeTimeout, hfinalizeTimeout, hacme⟩ := h
  replace hacme := hacme.symm
  simp only [ofAcme, List.forall_mem_cons]
  refine ⟨isKept_optionalText rfl ?_, isKept_single ?_, isKept_single ?_, isKept_single ?_,
    isKept_single ?_, isKept_single ?_, isKept_single ?_, isKept_single ?_, isKept_single ?_,
    List.forall_mem_nil _⟩
  all_goals simp [*]

theorem isKept_ofRenewal (h : renewalOfBlock b = .ok c.renewal) :
    ∀ s ∈ ofRenewal, Kdl.IsOnly s.name b.children n → s.IsKept n c := by
  replace h := congrArg Except.toOption h
  simp only [renewalOfBlock, blockTruth?, Except.toOption_bind, toOption_blockSmall,
    toOption_blockNat, Except.toOption_pure, Except.toOption_ok, Option.bind_eq_some_iff,
    Option.some.injEq] at h
  obtain ⟨windowDays, hwindowDays, intervalHours, hintervalHours, workers, hworkers, hrenewal⟩ := h
  replace hrenewal := hrenewal.symm
  simp only [ofRenewal, List.forall_mem_cons]
  refine ⟨isKept_single ?_, isKept_single ?_, isKept_single ?_, isKept_single ?_,
    List.forall_mem_nil _⟩
  all_goals simp [*]

theorem isKept_ofPropagation (h : propagationOfBlock b = .ok c.dns.propagation) :
    ∀ s ∈ ofPropagation, Kdl.IsOnly s.name b.children n → s.IsKept n c := by
  replace h := congrArg Except.toOption h
  simp only [propagationOfBlock, blockTruth?, Except.toOption_bind, toOption_blockNat,
    Except.toOption_pure, Except.toOption_ok, Option.bind_eq_some_iff, Option.some.injEq] at h
  obtain ⟨initialDelay, hinitialDelay, checkInterval, hcheckInterval, timeout, htimeout,
    hpropagation⟩ := h
  replace hpropagation := hpropagation.symm
  simp only [ofPropagation, List.forall_mem_cons]
  refine ⟨isKept_single ?_, isKept_single ?_, isKept_single ?_, isKept_single ?_, fun hn => ?_,
    List.forall_mem_nil _⟩
  case refine_5 =>
    have hchild : b.child? "nameservers" = some n := hn.child?
    simp [IsKept, texts, hpropagation, hchild]
  all_goals simp [*]

/-- The wait for the name servers is read from its own block, if there is one. -/
theorem toOption_dnsOfBlock : (dnsOfBlock b).toOption = do
    let kind ← (blockChoice b "type" DnsKind.parse DnsKind.memory).toOption
    let retries ← (blockSmall b "provision-retries" 3).toOption
    let propagation ←
      orUsual? (b.child? "propagation") (fun n => (propagationOfBlock n).toOption) {}
    let apiTimeout ← (blockNat b "api-timeout-secs" 30).toOption
    return { kind, zoneId := blockText? b "zone-id", url := blockText? b "url"
             authHeader := blockText? b "auth-header"
             credentialsFile := blockText? b "credentials-file"
             credentialsVariable := blockText? b "credentials-env"
             apiTimeout, retries, propagation } := by
  rw [dnsOfBlock]
  cases b.child? "propagation" <;> simp [-bind_pure_comp]

theorem isKept_ofDns (h : dnsOfBlock b = .ok c.dns) :
    ∀ s ∈ ofDns, Kdl.IsOnly s.name b.children n → s.IsKept n c := by
  replace h := congrArg Except.toOption h
  simp only [toOption_dnsOfBlock, toOption_blockChoice, blockText?, toOption_blockSmall,
    toOption_blockNat, Option.pure_def, Option.bind_eq_bind, Except.toOption_ok,
    Option.bind_eq_some_iff, Option.some.injEq] at h
  obtain ⟨kind, hkind, retries, hretries, propagation, -, apiTimeout, hapiTimeout, hdns⟩ := h
  replace hdns := hdns.symm
  simp only [ofDns, List.forall_mem_cons]
  refine ⟨isKept_single ?_, isKept_optionalText rfl ?_, isKept_optionalText rfl ?_,
    isKept_optionalText rfl ?_, isKept_optionalText rfl ?_, isKept_optionalText rfl ?_,
    isKept_single ?_, isKept_single ?_, List.forall_mem_nil _⟩
  all_goals simp [*]

theorem propagationOfBlock_of_isOnly (h : dnsOfBlock b = .ok c.dns)
    (hn : Kdl.IsOnly "propagation" b.children n) :
    propagationOfBlock n = .ok c.dns.propagation := by
  replace h := congrArg Except.toOption h
  simp only [toOption_dnsOfBlock, toOption_blockChoice, toOption_blockSmall, hn.child?,
    orUsual?_of_some, toOption_blockNat, Option.pure_def, Option.bind_eq_bind, Except.toOption_ok,
    Option.bind_eq_some_iff, Option.some.injEq] at h
  obtain ⟨_, -, _, -, propagation, hpropagation, _, -, hdns⟩ := h
  rw [← hdns]
  cases hread : propagationOfBlock n <;> rw [hread] at hpropagation <;> cases hpropagation
  rfl

theorem isKept_ofStorage (h : (.ok (storageOfBlock b) : Except ConfigFault _) = .ok c.storage) :
    ∀ s ∈ ofStorage, Kdl.IsOnly s.name b.children n → s.IsKept n c := by
  have hstorage := (Except.ok.inj h).symm
  simp only [ofStorage, List.forall_mem_cons]
  refine ⟨isKept_single ?_, List.forall_mem_nil _⟩
  simp [hstorage, storageOfBlock, blockText?]

theorem isKept_ofLogging (h : (.ok (loggingOfBlock b) : Except ConfigFault _) = .ok c.logging) :
    ∀ s ∈ ofLogging, Kdl.IsOnly s.name b.children n → s.IsKept n c := by
  have hlogging := (Except.ok.inj h).symm
  simp only [ofLogging, List.forall_mem_cons]
  refine ⟨isKept_single ?_, isKept_single ?_, List.forall_mem_nil _⟩
  all_goals simp [hlogging, loggingOfBlock, blockText?]

/-- Where the settings of a section stand. -/
theorem block_of_mem : (∀ s ∈ ofAcme, s.block = ["acme"]) ∧
    (∀ s ∈ ofRenewal, s.block = ["renewal"]) ∧
    (∀ s ∈ ofPropagation, s.block = ["dns-provider", "propagation"]) ∧
    (∀ s ∈ ofDns, s.block = ["dns-provider"]) ∧ (∀ s ∈ ofStorage, s.block = ["storage"]) ∧
    ∀ s ∈ ofLogging, s.block = ["logging"] := by
  simp [ofAcme, ofRenewal, ofPropagation, ofDns, ofStorage, ofLogging, optionalText, text, choice,
    number, truth, texts, single]

end Setting

/-- **What is of its kind is loaded**, whatever else a setting is given. -/
theorem Config.isKept_of_standsIn {text : String} {nodes : List Kdl.Node} {n : Kdl.Node}
    {c : Config} {s : Setting} (hs : s ∈ Setting.all) (hparse : Kdl.parse? text = some nodes)
    (hn : s.StandsIn nodes n) (h : ofKdl text = .ok c) : s.IsKept n c := by
  rw [ofKdl, hparse] at h
  obtain ⟨inner, hinner, hn⟩ := hn
  obtain ⟨acme, renewal, propagation, dns, storage, logging⟩ := Setting.block_of_mem
  simp only [Setting.all, List.mem_append] at hs
  obtain ((((hs | hs) | hs) | hs) | hs) | hs := hs
  · rw [acme s hs] at hinner
    obtain ⟨b, hb, rfl⟩ := hinner
    have hread := ofBlock_of_isOnly (fun _ _ _ hadd => (takes_of_addBlock hadd).1) hb h
    exact Setting.isKept_ofAcme hread s hs hn
  · rw [renewal s hs] at hinner
    obtain ⟨b, hb, rfl⟩ := hinner
    have hread := ofBlock_of_isOnly (fun _ _ _ hadd => (takes_of_addBlock hadd).2.1) hb h
    exact Setting.isKept_ofRenewal hread s hs hn
  · rw [propagation s hs] at hinner
    obtain ⟨b, hb, b', hb', rfl⟩ := hinner
    have hread := ofBlock_of_isOnly (fun _ _ _ hadd => (takes_of_addBlock hadd).2.2.1) hb h
    exact Setting.isKept_ofPropagation (Setting.propagationOfBlock_of_isOnly hread hb') s hs hn
  · rw [dns s hs] at hinner
    obtain ⟨b, hb, rfl⟩ := hinner
    have hread := ofBlock_of_isOnly (fun _ _ _ hadd => (takes_of_addBlock hadd).2.2.1) hb h
    exact Setting.isKept_ofDns hread s hs hn
  · rw [storage s hs] at hinner
    obtain ⟨b, hb, rfl⟩ := hinner
    have hread := ofBlock_of_isOnly (fun _ _ _ hadd => (takes_of_addBlock hadd).2.2.2.1) hb h
    exact Setting.isKept_ofStorage hread s hs hn
  · rw [logging s hs] at hinner
    obtain ⟨b, hb, rfl⟩ := hinner
    have hread := ofBlock_of_isOnly (fun _ _ _ hadd => (takes_of_addBlock hadd).2.2.2.2) hb h
    exact Setting.isKept_ofLogging hread s hs hn

/-! ### A number in words -/

/-- A document that states a number in words. -/
def sampleText : String := "renewal \x7b\n    workers \"eight\"\n\x7d\n"

/-- The node in which `sampleText` states a number in words. -/
def sampleNode : Kdl.Node := .mk "workers" [{ value := .text "eight" }] []

/-- The setting that `sampleNode` is for. -/
def sampleSetting : Setting := .number ["renewal"] "workers" 64 (·.renewal.workers)

theorem parse?_sampleText : Kdl.parse? sampleText = some [.mk "renewal" [] [sampleNode]] := by
  rfl

theorem sampleSetting_standsIn :
    sampleSetting.StandsIn [.mk "renewal" [] [sampleNode]] sampleNode :=
  ⟨_, ⟨_, rfl, rfl⟩, rfl⟩

theorem sampleSetting_mem : sampleSetting ∈ Setting.all := by
  simp [Setting.all, Setting.ofRenewal, sampleSetting]

theorem ofKdl_sampleText : Config.ofKdl sampleText = .ok {} := by
  rfl

/-- Of what the setting is given nothing is of its kind, so that it keeps its default. -/
theorem Config.isKept_sampleText : Kdl.parse? sampleText = some [.mk "renewal" [] [sampleNode]] ∧
    Config.ofKdl sampleText = .ok {} ∧ sampleSetting.IsKept sampleNode {} :=
  ⟨parse?_sampleText, ofKdl_sampleText, isKept_of_standsIn sampleSetting_mem parse?_sampleText
    sampleSetting_standsIn ofKdl_sampleText⟩

/-- A document may be loaded although a setting in it is not. -/
theorem Config.loaded_without_setting : ¬ ∀ text nodes n c, ∀ s ∈ Setting.all,
    Kdl.parse? text = some nodes → s.StandsIn nodes n → Config.ofKdl text = .ok c →
    s.IsLoaded n c := by
  intro h
  obtain ⟨vs, hvs, -⟩ := h _ _ _ _ _ sampleSetting_mem parse?_sampleText sampleSetting_standsIn
    ofKdl_sampleText
  cases vs <;> cases hvs

end CertSteward
