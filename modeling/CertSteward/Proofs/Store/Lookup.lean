import CertSteward.Proofs.Record.Lifecycle
import CertSteward.Proofs.Record.Names
import CertSteward.Proofs.Store.Refinement

/-!
# Looking a record up by its domain

A store folds the domain that it is asked for in a way of its own, without a look at what is wrong
with it. For every text that is accepted as a domain name this is the name that it is normalized to,
so that a record is found under every spelling of its domain. Of several records for a domain the
newest is found.

## Main definitions

* `RecordStore.Holds` — the records of a store

## Main results

* `RecordStore.asked_of_normalize` — what is asked for is the normalized name
* `RecordStore.find_of_holds` — looking up a record for a domain
* `RecordStore.normalize_and_find` — names, their normal forms and the records for them
-/

namespace CertSteward

namespace RecordStore

variable {s : RecordStore} {r : CertificateRecord} {d n : String} {allowWildcard : Bool}

/-- The records of a store can be listed, and this is one of them. -/
def Holds (s : RecordStore) (r : CertificateRecord) : Prop := ∃ rs, s.list = .ok rs ∧ r ∈ rs

/-- What was saved in memory is held. -/
theorem holds_save_memory (m : MemoryStore) (r : CertificateRecord) :
    ((memory m).save r).2.Holds r := by
  refine ⟨_, rfl, CertificateRecord.mem_byAge.mpr ?_⟩
  change r ∈ MemoryStore.put r m.records
  induction m.records with
  | nil => exact List.mem_cons_self
  | cons x rs ih =>
    rw [MemoryStore.put]
    split
    · exact List.mem_cons_self
    · exact List.mem_cons_of_mem _ ih

/-- What was saved in files is held. -/
theorem holds_save_files {f : FileStore} {m : MemoryStore} (hf : f.Mirrors m)
    (hr : FileStore.Admissible r) : ((files f).save r).2.Holds r := by
  obtain ⟨f', hsave, hf'⟩ := hf.save hr
  have hmem : r ∈ (m.save r).records := (MemoryStore.mem_put hf.ids).mpr (.inl rfl)
  have hlist : (files f').list =
      .ok (CertificateRecord.byAge ((f'.tree.below f'.recordsPath).filterMap f'.readable?)) := by
    simp only [list, FileStore.list, hf'.holds_records, if_true, hf'.children, Except.map]
  have hsaved : ((files f).save r).2 = files f' := by
    rw [save, hsave]
    rfl
  rw [hsaved]
  exact ⟨_, hlist, CertificateRecord.mem_byAge.mpr (hf'.perm.mem_iff.mpr hmem)⟩

/-- The name that is asked for is the normalized one. -/
theorem asked_of_normalize (h : Domain.normalize d allowWildcard = .ok n) : asked d = n := by
  obtain ⟨hfolds, -, -⟩ := Domain.normalize_eq_ok_iff.mp h
  have hfold := Domain.fold_eq_iff.mpr hfolds
  rw [asked, Text.lower, String.toList_ofList]
  exact (congrArg String.ofList hfold).trans (String.ofList_toList)

/-- **Looking up a domain.** If there is a record for it, the newest one is found. -/
theorem find_of_holds (h : s.Holds r) (hasked : asked d = r.primaryDomain) :
    ∃ n, s.find d = .ok (some n) ∧ s.Holds n ∧ n.primaryDomain = r.primaryDomain ∧
      ∀ r', s.Holds r' → r'.primaryDomain = r.primaryDomain → r'.createdAt ≤ n.createdAt := by
  obtain ⟨rs, hlist, hr⟩ := h
  obtain ⟨n, hn, hnewest, hage⟩ := CertificateRecord.newest?_of_mem
    (List.mem_filter.mpr ⟨hr, decide_eq_true hasked.symm⟩ :
      r ∈ rs.filter fun r => r.primaryDomain = asked d)
  obtain ⟨hmem, hdomain⟩ := List.mem_filter.mp hn
  refine ⟨n, ?_, ⟨rs, hlist, hmem⟩, (of_decide_eq_true hdomain).trans hasked, ?_⟩
  · rw [find, hlist, ← hnewest]
    rfl
  · rintro r' ⟨rs', hlist', hr'⟩ hdomain'
    obtain rfl : rs' = rs := Except.ok.inj (hlist'.symm.trans hlist)
    exact hage r' (List.mem_filter.mpr ⟨hr', decide_eq_true (hdomain'.trans hasked.symm)⟩)

/-- **Domain names, their normal forms and the records for them.** A text is accepted as a domain
name, and normalized to `n`, if and only if `n` is the text without the blanks around it and then
without the dots at its end, in lower case, has at most 253 bytes and belongs to the grammar of
names. Normalizing `n` again gives `n`. And however a record that was made for the text has been
changed since, as long as a store holds it, every spelling that is normalized to the same name finds
a record for that name, and none that is held for it is newer. -/
theorem normalize_and_find (d : String) (allowWildcard : Bool) :
    (∀ n, Domain.normalize d allowWildcard = .ok n ↔ Domain.Folds d.toList n.toList ∧
      n.utf8ByteSize ≤ 253 ∧ Domain.IsName allowWildcard n.toList) ∧
    (∀ n, Domain.normalize d allowWildcard = .ok n → Domain.normalize n allowWildcard = .ok n) ∧
    ∀ id domainId others wildcard autoRenew now made,
      CertificateRecord.make id domainId d others wildcard autoRenew now = .ok made →
      ∀ history (s : RecordStore), s.Holds (made.takeAll history) →
      ∀ spelling allowWildcard, Domain.normalize spelling allowWildcard = Domain.normalize d false →
        ∃ found, s.find spelling = .ok (some found) ∧ s.Holds found ∧
          .ok found.primaryDomain = Domain.normalize d false ∧
          ∀ r, s.Holds r → r.primaryDomain = found.primaryDomain →
            r.createdAt ≤ found.createdAt := by
  refine ⟨fun n => Domain.normalize_eq_ok_iff, fun n => Domain.normalize_idem, ?_⟩
  intro id domainId others wildcard autoRenew now made hmake history s hholds spelling allowWildcard
    hspelling
  obtain ⟨p, ns, hp, -, hmade⟩ := CertificateRecord.make_eq_ok hmake
  have hdomain : (made.takeAll history).primaryDomain = p :=
    (made.sameOwner_takeAll history).primaryDomain.trans (by rw [hmade])
  obtain ⟨found, hfind, hheld, hfor, hnewest⟩ := find_of_holds hholds
    ((asked_of_normalize (hspelling.trans hp)).trans hdomain.symm)
  have hfound := hfor.trans hdomain
  refine ⟨found, hfind, hheld, (congrArg _ hfound).trans hp.symm, fun r hr hsame => ?_⟩
  exact hnewest r hr (hsame.trans hfor)

/-- A record for a domain that is written with blanks, capitals and a dot at its end. -/
def sampleSpelled : CertificateRecord where
  id := "cert_1"
  primaryDomain := "example.com"
  autoRenew := true
  createdAt := { seconds := 9 }
  updatedAt := { seconds := 9 }

/-- A record that was changed since is found under another spelling. -/
theorem normalize_and_find_example_com :
    Domain.Folds " Example.COM. ".toList "example.com".toList ∧
      Domain.normalize "example.com" false = .ok "example.com" ∧
      ∃ found, (memory { records := [sampleSpelled.takeAll [(.setAutoRenew false, ⟨10, 0⟩)]] }).find
        "EXAMPLE.com.." = .ok (some found) ∧ found.primaryDomain = "example.com" := by
  obtain ⟨hiff, hidem, hfind⟩ := normalize_and_find " Example.COM. " false
  have hnormal : Domain.normalize " Example.COM. " false = .ok "example.com" := rfl
  have hmake : CertificateRecord.make "cert_1" "" " Example.COM. " [] false true { seconds := 9 } =
      .ok sampleSpelled := rfl
  let changes : List (RecordChange × Instant) := [(.setAutoRenew false, ⟨10, 0⟩)]
  obtain ⟨found, hfound, -, hdomain, -⟩ := hfind _ _ _ _ _ _ _ hmake changes
    (memory { records := [sampleSpelled.takeAll changes] })
    ⟨_, rfl, CertificateRecord.mem_byAge.mpr List.mem_cons_self⟩ "EXAMPLE.com.." true rfl
  exact ⟨((hiff _).mp hnormal).1, hidem _ hnormal, found, hfound,
    Except.ok.inj (hdomain.trans hnormal)⟩

end RecordStore

end CertSteward
