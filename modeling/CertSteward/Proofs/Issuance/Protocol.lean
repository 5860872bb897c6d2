import CertSteward.Proofs.Challenge.Set
import CertSteward.Proofs.Issuance.Driving

/-!
# Runs keep to the protocol
-/

namespace CertSteward

/-- A run that has placed no order or one, has given up nothing and removed nothing yet, and knows of
a challenge for each slot that it sent a job to. -/
structure Standing.Open (k : Standing) (t : RunState) : Prop where
  hasDomain : k.hasDomain = true
  order : t.order.toList = k.orders
  releases : k.releases = []
  debts : k.debts = []
  ended : ∀ x ∈ k.ended, x.1.isRemoval = false
  asked : ∀ key ∈ k.asked, key ∈ t.challenges.keys
  looked : k.looked = []

/-- What jobs add that make the records of challenges. -/
def Standing.provision (k : Standing) (entries : List ChallengeEntry) (outcomes : List Outcome) :
    Standing :=
  (k.send (entries.map ChallengeEntry.provision)).gather (entries.map ChallengeEntry.provision)
    outcomes

namespace Standing.Open

variable {k : Standing} {t t' : RunState}

theorem congr (h : k.Open t) (horder : t'.order = t.order)
    (hkeys : t'.challenges.keys = t.challenges.keys) : k.Open t' :=
  ⟨h.hasDomain, horder ▸ h.order, h.releases, h.debts, h.ended, hkeys ▸ h.asked, h.looked⟩

theorem setChallenges (h : k.Open t) (hasked : k.asked = []) (challenges : ChallengeSet) :
    k.Open { t with challenges } where
  hasDomain := h.hasDomain
  order := h.order
  releases := h.releases
  debts := h.debts
  ended := h.ended
  asked := fun key hkey => by
    rw [hasked] at hkey
    cases hkey
  looked := h.looked

theorem serve (h : k.Open t) (served : List String) : Standing.Open { k with served } t :=
  ⟨h.hasDomain, h.order, h.releases, h.debts, h.ended, h.asked, h.looked⟩

theorem finalize (h : k.Open t) (order : OrderHandle) (request : List UInt8) :
    (k.ask (.finalize order request)).Open t :=
  ⟨h.hasDomain, h.order, h.releases, h.debts, h.ended, h.asked, h.looked⟩

/-- Jobs are sent for challenges that are known. -/
theorem send (h : k.Open t) {jobs : List Job}
    (hjobs : ∀ key ∈ jobs.filterMap Job.provisionKey?, key ∈ t.challenges.keys) :
    (k.send jobs).Open t where
  hasDomain := h.hasDomain
  order := h.order
  releases := h.releases
  debts := h.debts
  ended := h.ended
  asked := fun key hkey => (List.mem_append.mp hkey).elim (h.asked key) (hjobs key)
  looked := h.looked

/-- Parts that remove no records have ended. -/
theorem gather (h : k.Open t) {jobs : List Job} (hjobs : ∀ j ∈ jobs, j.isRemoval = false)
    (outcomes : List Outcome) :
    (k.gather jobs outcomes).Open t where
  hasDomain := h.hasDomain
  order := h.order
  releases := h.releases
  debts := h.debts
  asked := h.asked
  looked := h.looked
  ended := by
    intro x hx
    obtain hx | hx := List.mem_append.mp hx
    · exact h.ended x hx
    · exact hjobs x.1 (List.of_mem_zip hx).1

/-- Jobs are sent that make the records of all challenges. -/
theorem sendProvisions {entries : List ChallengeEntry} (h : k.Open t)
    (hkeys : entries.map (·.key) = t.challenges.keys) :
    (k.send (entries.map ChallengeEntry.provision)).Open t := by
  refine h.send fun key hkey => ?_
  rw [List.filterMap_map] at hkey
  obtain ⟨e, he, hsome⟩ := List.mem_filterMap.mp hkey
  cases hsome
  exact hkeys ▸ List.mem_map_of_mem he

end Standing.Open

namespace Driving

open Standing

variable {settings : IssuanceSettings} {r : IssuanceRequest} {k : Standing} {t : RunState}

/-! ### Challenges -/

/-- The authorizations that were looked at can be met, and their challenges were taken. -/
structure Taken (k₀ : Standing) (t₀ : RunState) (done : List Authorization) (k : Standing)
    (t : RunState) : Prop where
  standing : k = k₀
  state : t = { t₀ with challenges := .ofAuthorizations done }
  pending : ∀ a ∈ done, a.status.isFailed = false ∧ (a.status ≠ .valid → a.challenge.isSome)

theorem ofAuthorizations_append (done : List Authorization) (a : Authorization) :
    ChallengeSet.ofAuthorizations (done ++ [a]) =
      a.entry?.elim (.ofAuthorizations done) (ChallengeSet.ofAuthorizations done).insert := by
  rw [ChallengeSet.ofAuthorizations, List.foldl_append]
  rfl

/-- There is an entry for each authorization that is to be answered. -/
theorem mem_identifiers_ofAuthorizations {as : List Authorization} {a : Authorization}
    (ha : a ∈ as) (hvalid : a.status ≠ .valid) (hc : a.challenge.isSome) :
    a.identifier ∈ (ChallengeSet.ofAuthorizations as).identifiers := by
  have hstep : ∀ (set : ChallengeSet) (b : Authorization) (id : String),
      id ∈ set.identifiers ∨ (b = a ∧ id = a.identifier) →
      id ∈ (b.entry?.elim set set.insert).identifiers := by
    rintro set b id (h | ⟨rfl, rfl⟩)
    · cases b.entry? with
      | none => exact h
      | some e => exact ChallengeSet.mem_identifiers_insert.mpr (.inl h)
    · obtain ⟨c, hc⟩ := Option.isSome_iff_exists.mp hc
      rw [Authorization.entry?, if_neg hvalid, hc]
      exact ChallengeSet.mem_identifiers_insert.mpr (.inr rfl)
  suffices h : ∀ (l : List Authorization) (set : ChallengeSet),
      a ∈ l ∨ a.identifier ∈ set.identifiers → a.identifier ∈
        (l.foldl (fun set a => a.entry?.elim set set.insert) set).identifiers from h as {} (.inl ha)
  intro l
  induction l with
  | nil => exact fun set h => h.elim (fun h => nomatch h) id
  | cons b l ih =>
    intro set h
    refine ih _ ?_
    obtain h | h := h
    · obtain rfl | h := List.mem_cons.mp h
      · exact .inr (hstep set a _ (.inr ⟨rfl, rfl⟩))
      · exact .inl h
    · exact .inr (hstep set b _ (.inl h))

theorem drives_takeChallenge {k₀ : Standing} {t₀ : RunState} {done : List Authorization}
    (hopen : k₀.Open t₀) (hasked : k₀.asked = []) (h : Taken k₀ t₀ done k t)
    (a : Authorization) :
    Drives settings r Open (fun k t _ => Taken k₀ t₀ (done ++ [a]) k t) k t (takeChallenge a) := by
  obtain ⟨rfl, rfl, hdone⟩ := h
  have hfail : k.Open { t₀ with challenges := .ofAuthorizations done } :=
    hopen.setChallenges hasked _
  have hmem : ∀ (x : a.status.isFailed = false ∧ (a.status ≠ .valid → a.challenge.isSome)),
      ∀ b ∈ done ++ [a], b.status.isFailed = false ∧ (b.status ≠ .valid → b.challenge.isSome) := by
    intro x b hb
    obtain hb | hb := List.mem_append.mp hb
    · exact hdone b hb
    · rw [List.mem_singleton.mp hb]
      exact x
  unfold takeChallenge
  by_cases hvalid : a.status = .valid
  · rw [if_pos hvalid]
    refine .pure ⟨rfl, ?_, hmem ⟨by rw [hvalid]; rfl, absurd hvalid⟩⟩
    rw [ofAuthorizations_append, Authorization.entry?, if_pos hvalid]
    rfl
  rw [if_neg hvalid]
  cases hfailed : a.status.isFailed with
  | true => exact .bind (.throw hfail nofun)
  | false =>
    cases hc : a.challenge with
    | none => exact .throw hfail nofun
    | some c =>
      refine .modify ⟨rfl, ?_, hmem ⟨hfailed, fun _ => by rw [hc]; rfl⟩⟩
      rw [ofAuthorizations_append, Authorization.entry?, if_neg hvalid, hc]
      rfl

theorem drives_takeChallenges (hopen : k.Open t) (hasked : k.asked = [])
    (hnew : t.challenges = {}) (as : List Authorization) :
    Drives settings r Open (fun k' t' _ => Taken k t as k' t') k t (as.forM takeChallenge) := by
  refine .forM (I := Taken k t) (fun done a _ _ _ _ h => drives_takeChallenge hopen hasked h a) ?_
  exact ⟨rfl, by rw [ChallengeSet.ofAuthorizations, List.foldl_nil, ← hnew], nofun⟩

theorem drives_checkServed (hopen : k.Open t) (domain : String) :
    Drives settings r Open (fun k' t' _ => k' = { k with served := domain :: k.served } ∧ t' = t)
      k t (checkServed domain) := by
  unfold checkServed
  refine .bind ?_
  rintro ⟨_, _, es, _⟩ ⟨rfl, rfl, rfl⟩
  refine keeps_lift.mpr (Conduct.keeps_perform.mpr ⟨⟨hopen.hasDomain, rfl⟩, ?_⟩)
  rintro (e | isServed) -
  · exact ⟨rfl, _, ⟨rfl, rfl, rfl⟩, .bind (.throw hopen nofun)⟩
  · cases isServed with
    | false => exact ⟨rfl, _, ⟨rfl, rfl, rfl⟩, .bind (.pure (.throw hopen nofun))⟩
    | true => exact ⟨rfl, _, ⟨rfl, rfl, rfl⟩, .bind (.pure (.pure ⟨rfl, rfl⟩))⟩

/-- Of parts that all came to something of a kind, each came to something of that kind. -/
theorem exists_mem_zip {α β γ : Type} {f : α → β} {p : γ → Prop} :
    ∀ {l : List α} {ys : List γ}, ys.length = (l.map f).length → (∀ y ∈ ys, p y) →
      ∀ a ∈ l, ∃ y, p y ∧ (f a, y) ∈ (l.map f).zip ys
  | [], _, _, _, a, ha => nomatch ha
  | _ :: _, [], hlen, _, _, _ => nomatch hlen
  | b :: l, y :: ys, hlen, hp, a, ha => by
    obtain rfl | ha := List.mem_cons.mp ha
    · exact ⟨y, hp y List.mem_cons_self, List.mem_cons_self⟩
    · obtain ⟨z, hz, hmem⟩ := exists_mem_zip (Nat.succ.inj hlen)
        (fun z hz => hp z (List.mem_cons_of_mem y hz)) a ha
      exact ⟨z, hz, List.mem_cons_of_mem _ hmem⟩

theorem eq_map_of_mapM_id {ε α : Type} : ∀ {l : List (Except ε α)} {as : List α},
    l.mapM id = .ok as → l = as.map .ok
  | [], _, h => by
    cases h
    rfl
  | x :: l, as, h => by
    rw [List.mapM_cons] at h
    cases x with
    | error e => cases h
    | ok a =>
      cases hl : l.mapM (m := Except ε) id with
      | error e => rw [hl] at h; cases h
      | ok rest =>
        rw [hl] at h
        cases h
        rw [eq_map_of_mapM_id hl]
        rfl

/-- What a wait for the making of a record comes to. -/
def provisioned : Outcome → Except DnsError DnsHandle
  | .provisioned result => result
  | _ => .error DnsPractice.givenUp

theorem map_provision (entries : List ChallengeEntry) :
    (entries.map fun e => (e.recordName, e.recordValue)).map
      (fun (name, value) => Job.provision name value) = entries.map ChallengeEntry.provision := by
  rw [List.map_map]
  rfl

theorem drives_provisionAll {entries : List ChallengeEntry}
    {Q : Standing → RunState → List (Except DnsError DnsHandle) → Prop} (hopen : k.Open t)
    (hkeys : entries.map (·.key) = t.challenges.keys) (hcleared : k.Cleared)
    (hQ : ∀ outcomes : List Outcome, outcomes.length = entries.length →
      Q (k.provision entries outcomes) t (outcomes.map provisioned)) :
    Drives settings r Open Q k t
      (orCancelled (DnsPractice.provisionAll (entries.map fun e => (e.recordName, e.recordValue)))) := by
  unfold DnsPractice.provisionAll
  rw [map_provision]
  have hsend : ∀ j ∈ entries.map ChallengeEntry.provision, k.MaySend true j := by
    intro j hj
    obtain ⟨e, -, rfl⟩ := List.mem_map.mp hj
    exact ⟨hcleared, hopen.looked⟩
  refine .orCancelled_bind (.awaitAll hopen.hasDomain hsend (hopen.sendProvisions hkeys) ?_)
  intro outcomes hlen
  rw [List.length_map] at hlen
  exact .pure (hQ outcomes hlen)

/-- A run with an order whose challenge records were made. -/
structure Ready (o : OrderHandle) (m : IssuanceMachine) (k : Standing) (t : RunState) : Prop where
  isOpen : k.Open t
  order : t.order = some o
  machine : t.machine = m
  provisioned : k.Provisioned
  finalizes : k.finalizes = 0

/-- Jobs are sent that make no records. -/
theorem Ready.send {o : OrderHandle} {m : IssuanceMachine} (h : Ready o m k t) {jobs : List Job}
    (hjobs : ∀ j ∈ jobs, j.provisionKey? = none) : Ready o m (k.send jobs) t := by
  refine ⟨h.isOpen.send fun key hkey => ?_, h.order, h.machine, h.provisioned, h.finalizes⟩
  obtain ⟨j, hj, hsome⟩ := List.mem_filterMap.mp hkey
  rw [hjobs j hj] at hsome
  cases hsome

theorem Ready.gather {o : OrderHandle} {m : IssuanceMachine} (h : Ready o m k t) {jobs : List Job}
    (hjobs : ∀ j ∈ jobs, j.isRemoval = false) (outcomes : List Outcome) :
    Ready o m (k.gather jobs outcomes) t where
  isOpen := h.isOpen.gather hjobs outcomes
  order := h.order
  machine := h.machine
  provisioned := by
    obtain ⟨as, has, hall⟩ := h.provisioned
    refine ⟨as, has, fun e he => ?_⟩
    obtain ⟨x, hx⟩ := hall e he
    exact ⟨x, List.mem_append_left _ hx⟩
  finalizes := h.finalizes

theorem drives_awaitAll {p : DnsPractice} {o : OrderHandle} {m : IssuanceMachine}
    {handles : List DnsHandle} (h : Ready o m k t) :
    Drives settings r Open (fun k t _ => Ready o m k t) k t
      (do ofDns (← orCancelled (p.awaitAll handles))) := by
  unfold DnsPractice.awaitAll
  cases p.propagation with
  | none => exact .bind (.pure (.ofDns h.isOpen fun _ _ => h))
  | some plan =>
    have hjobs : ∀ j ∈ handles.map fun h => Job.propagate h.name h.value,
        j.isRemoval = false ∧ j.provisionKey? = none ∧ ∀ k : Standing, k.MaySend true j := by
      intro j hj
      obtain ⟨_, -, rfl⟩ := List.mem_map.mp hj
      exact ⟨rfl, rfl, fun _ => trivial⟩
    have hsend := h.send fun j hj => (hjobs j hj).2.1
    refine .bind (.orCancelled_bind (.awaitAll h.isOpen.hasDomain (fun j hj => (hjobs j hj).2.2 k)
      hsend.isOpen fun outcomes _ => ?_))
    have h := hsend.gather (fun j hj => (hjobs j hj).1) outcomes
    exact .pure (.ofDns h.isOpen fun _ _ => h)

theorem drives_makeAll {p : DnsPractice} {o : OrderHandle} {m : IssuanceMachine}
    {as : List Authorization} {entries : List ChallengeEntry} (hopen : k.Open t)
    (horder : t.order = some o) (hmachine : t.machine = m) (hfin : k.finalizes = 0)
    (has : k.authorizations.head? = some as)
    (hentries : entries = (ChallengeSet.ofAuthorizations as).entries)
    (hkeys : entries.map (·.key) = t.challenges.keys) (hcleared : k.Cleared) :
    Drives settings r Open (fun k t _ => Ready o m k t) k t (makeAll p entries) := by
  unfold makeAll
  refine .bind (drives_provisionAll hopen hkeys hcleared fun outcomes hlen => ?_)
  have hopen : (k.provision entries outcomes).Open t := by
    refine (hopen.sendProvisions hkeys).gather (fun j hj => ?_) outcomes
    obtain ⟨x, -, rfl⟩ := List.mem_map.mp hj
    rfl
  have hmade : ∀ handles, (outcomes.map provisioned).mapM id = .ok handles → ∀ e ∈ entries,
      ∃ h, (e.provision, .provisioned (.ok h)) ∈ (k.provision entries outcomes).ended := by
    intro handles hhandles e he
    have hall : ∀ o ∈ outcomes, ∃ h, o = Outcome.provisioned (.ok h) := by
      intro o ho
      have hmem := List.mem_map_of_mem (f := provisioned) ho
      rw [eq_map_of_mapM_id hhandles] at hmem
      obtain ⟨h, -, hh⟩ := List.mem_map.mp hmem
      cases o <;> cases hh
      exact ⟨h, rfl⟩
    obtain ⟨_, ⟨h, rfl⟩, hmem⟩ := exists_mem_zip (f := ChallengeEntry.provision)
      (by rw [hlen, List.length_map]) hall e he
    exact ⟨h, List.mem_append_right _ hmem⟩
  refine .bind ((Drives.forIn (I := fun k' t' => k' = k.provision entries outcomes ∧
    t'.order = t.order ∧ t'.machine = m ∧ t'.challenges.keys = t.challenges.keys) ?_ _ _ _
    ⟨rfl, rfl, hmachine, rfl⟩).mono ?_)
  · rintro ⟨e, result⟩ _ t' ⟨rfl, horder', hmachine', hkeys'⟩
    change Drives _ _ _ _ _ _ (if result.isOk then _ else _)
    split
    · refine .bind (.modify (.pure ⟨rfl, rfl, horder', hmachine', ?_⟩))
      rw [← hkeys']
      exact ChallengeSet.keys_setStatus _ _
    · exact .pure ⟨rfl, rfl, horder', hmachine', hkeys'⟩
  · rintro _ t' _ ⟨rfl, horder', hmachine', hkeys'⟩
    refine .bind (.modify (.bind (.ofDns (hopen.congr horder' hkeys') fun handles hhandles => ?_)))
    have hopen : (k.provision entries outcomes).Open { t' with
      recordsMade := (outcomes.map provisioned).countP (·.isOk) } := hopen.congr horder' hkeys'
    have hprovisioned : (k.provision entries outcomes).Provisioned :=
      ⟨as, has, hentries ▸ hmade handles hhandles⟩
    exact drives_awaitAll ⟨hopen, horder'.trans horder, hmachine', hprovisioned, hfin⟩

theorem drives_makeRecords {p : DnsPractice} {o : OrderHandle} {m : IssuanceMachine}
    {as : List Authorization} (hopen : k.Open t) (horder : t.order = some o)
    (hmachine : t.machine = m) (hfin : k.finalizes = 0) (has : k.authorizations.head? = some as)
    (hentries : t.challenges = .ofAuthorizations as)
    (hpending : ∀ a ∈ as, a.status.isFailed = false ∧ (a.status ≠ .valid → a.challenge.isSome)) :
    Drives settings r Open (fun k t _ => Ready o m k t) k t (makeRecords p) := by
  unfold makeRecords
  refine .bind (.get (.bind ((Drives.forM (I := fun done k' t' =>
    (∃ served, k' = { k with served } ∧ ∀ d ∈ done, d ∈ served) ∧ t' = t) ?_ ?_).mono ?_)))
  · rintro done a rest _ _ - ⟨⟨served, rfl, hserved⟩, rfl⟩
    refine (drives_checkServed (hopen.serve served) a).mono ?_
    rintro _ _ _ ⟨rfl, rfl⟩
    refine ⟨⟨a :: served, rfl, fun d hd => ?_⟩, rfl⟩
    obtain hd | hd := List.mem_append.mp hd
    · exact List.mem_cons_of_mem a (hserved d hd)
    · rw [List.mem_singleton.mp hd]
      exact List.mem_cons_self
  · exact ⟨⟨k.served, rfl, nofun⟩, rfl⟩
  · rintro _ t _ ⟨⟨served, rfl, hserved⟩, rfl⟩
    refine drives_makeAll (hopen.serve served) horder hmachine hfin has (by rw [hentries]) rfl ?_
    refine ⟨as, has, fun a ha => ⟨(hpending a ha).1, fun hvalid => ?_⟩⟩
    have hsome := (hpending a ha).2 hvalid
    refine ⟨hsome, hserved _ (List.mem_eraseDups.mpr ?_)⟩
    have hid := mem_identifiers_ofAuthorizations ha hvalid hsome
    rw [← hentries] at hid
    obtain ⟨e, he, heq⟩ := List.mem_map.mp hid
    exact List.mem_map.mpr ⟨e, he, by rw [heq]⟩

/-! ### Polling -/

theorem Ready.setChallenges {o : OrderHandle} {m : IssuanceMachine} (h : Ready o m k t)
    {challenges : ChallengeSet} (hkeys : challenges.keys = t.challenges.keys) :
    Ready o m k { t with challenges } :=
  ⟨h.isOpen.congr rfl hkeys, h.order, h.machine, h.provisioned, h.finalizes⟩

/-- An event that belongs to the state. -/
theorem Ready.advance {o : OrderHandle} {m m' : IssuanceMachine} {e : IssuanceEvent}
    {E : Standing → RunState → Prop} {Q : Standing → RunState → Unit → Prop} (h : Ready o m k t)
    (he : m.apply e = .ok m')
    (hQ : Ready o m' k { t with machine := m' } → Q k { t with machine := m' } ()) :
    Drives settings r E Q k t (advance e) :=
  .advance (h.machine ▸ he)
    (hQ ⟨h.isOpen.congr rfl rfl, h.order, rfl, h.provisioned, h.finalizes⟩)

theorem Ready.hear {o : OrderHandle} {m : IssuanceMachine} (h : Ready o m k t) (order : OrderHandle)
    (as : List Authorization) : Ready o m (k.hear (.authorizations order) as) t where
  isOpen := ⟨h.isOpen.hasDomain, h.isOpen.order, h.isOpen.releases, h.isOpen.debts, h.isOpen.ended,
    h.isOpen.asked, h.isOpen.looked⟩
  order := h.order
  machine := h.machine
  provisioned := by
    obtain ⟨first, hfirst, hall⟩ := h.provisioned
    refine ⟨first, ?_, hall⟩
    rw [Standing.hear, List.head?_append, hfirst]
    rfl
  finalizes := h.finalizes

/-- What authorizations say of challenges is no part of their keys. -/
theorem keys_settle (as : List Authorization) (set : ChallengeSet) :
    (as.foldl (fun set a => settle a set) set).keys = set.keys := by
  induction as generalizing set with
  | nil => rfl
  | cons a as ih =>
    rw [List.foldl_cons, ih, settle]
    split
    · exact ChallengeSet.keys_setStatus _ _
    split
    · exact ChallengeSet.keys_markInvalid _ _
    · rfl

theorem drives_pauseOrTimeOut {E : Standing → RunState → Prop} (hE : E k t) (operation : String)
    (start : Duration) (b : Backoff) :
    Drives settings r E (fun k' t' _ => k' = k ∧ t' = t) k t (pauseOrTimeOut operation start b) := by
  unfold pauseOrTimeOut
  refine .bind (.now fun now => ?_)
  dsimp only
  cases b.next? (now - start) with
  | none => exact .throw hE nofun
  | some next => exact .bind (.pause hE (.pure ⟨rfl, rfl⟩))

theorem drives_awaitAuthorizations {o : OrderHandle} {m : IssuanceMachine} (h : Ready o m k t) :
    Drives settings r Open (fun k t _ => Ready o m k t ∧ k.Validated) k t
      (awaitAuthorizations settings o) := by
  unfold awaitAuthorizations
  refine .bind (.now fun start => ?_)
  refine .loop (I := Ready o m) ?_ (fun _ _ h => .throw h.isOpen fun _ h => by cases h) _ k t _ h
  intro k t b h
  unfold pollAuthorizations
  refine .bind (.call h.isOpen.hasDomain trivial (.inr fun _ => rfl) h.isOpen fun as => ?_)
  have h := (h.hear o as).setChallenges (keys_settle as t.challenges)
  refine .bind (.modify ?_)
  cases hfind : as.find? fun a => a.status.isFailed with
  | some a => exact .throw h.isOpen nofun
  | none =>
    change Drives _ _ _ _ _ _ (if _ then _ else _)
    split
    · rename_i hvalid
      refine .pure ⟨h, as, List.mem_append_right _ List.mem_cons_self, ?_⟩
      simpa using hvalid
    · refine .bind ((drives_pauseOrTimeOut h.isOpen _ _ _).mono ?_)
      rintro _ _ _ ⟨rfl, rfl⟩
      exact .pure h

theorem drives_awaitCertificate {o : OrderHandle} (h : k.Open t) :
    Drives settings r Open (fun k' t' _ => k' = k ∧ t' = t) k t (awaitCertificate settings o) := by
  unfold awaitCertificate
  refine .bind (.now fun start => ?_)
  refine .loop (I := fun k' t' => k' = k ∧ t' = t) ?_ ?_ _ k t _ ⟨rfl, rfl⟩
  · rintro k t b ⟨rfl, rfl⟩
    unfold pollCertificate
    refine .bind (.call h.hasDomain trivial (.inr fun _ => rfl) h fun state => ?_)
    have hpause : Drives settings r Open (fun k' t' _ => k' = k ∧ t' = t) k t
        (pauseOrTimeOut "order finalization" start b) := drives_pauseOrTimeOut h _ start b
    by_cases hinvalid : state.status = .invalid
    · exact (if_pos hinvalid).symm ▸ .bind (.throw h nofun)
    rw [if_neg hinvalid]
    by_cases hvalid : state.status = .valid
    · rw [if_pos hvalid]
      refine .bind (.call h.hasDomain trivial (.inr fun _ => rfl) h fun pem => ?_)
      cases pem with
      | some pem => exact .pure ⟨rfl, rfl⟩
      | none => exact .bind (hpause.mono fun _ _ _ hsame => .pure hsame)
    · rw [if_neg hvalid]
      exact .bind (.pure (.bind (hpause.mono fun _ _ _ hsame => .pure hsame)))
  · rintro _ _ ⟨rfl, rfl⟩
    exact .throw h nofun

/-! ### From the account to the certificate -/

/-- A run with an order whose authorizations the authority told of once. -/
structure Ordered (o : OrderHandle) (as : List Authorization) (k : Standing) (t : RunState) :
    Prop where
  isOpen : k.Open t
  order : t.order = some o
  machine : t.machine = ⟨.authorizationsPending, IssuanceState.wholeCourse.take 3⟩
  challenges : t.challenges = {}
  authorizations : k.authorizations.head? = some as
  asked : k.asked = []
  finalizes : k.finalizes = 0

/-- Nothing but what is known of the standing and the state counts. -/
theorem Drives.of {α : Type} {E : Standing → RunState → Prop} {P : Standing → RunState → α → Prop}
    {I : Standing → RunState → Prop} {m : Driving α} (hI : I k t)
    (h : ∀ k t, I k t → Drives settings r E P k t m) : Drives settings r E P k t m :=
  h k t hI

/-- A run keeps to the protocol on its way to the certificate, and has passed through all states
when it gets there. -/
theorem drives_drive {p : IssuancePractice} {names : List String} {request : List UInt8}
    (hopen : k.Open {}) (hasked : k.asked = []) (hauthorizations : k.authorizations = [])
    (hfin : k.finalizes = 0) :
    Drives p.settings r Open (fun k t _ => k.Open t ∧ t.machine.visited = IssuanceState.wholeCourse) k {}
      (drive p names request) := by
  have hd : k.hasDomain = true := hopen.hasDomain
  have horders : k.orders = [] := hopen.order.symm
  unfold drive
  refine .bind (.call (q := .ensureAccount) hd trivial (.inr fun _ => rfl) hopen fun _ => ?_)
  refine .bind (.advance rfl ?_)
  refine .bind (.call (q := .newOrder names) hd horders (.inr fun _ => rfl) (hopen.congr rfl rfl)
    fun o => ?_)
  refine .bind (.modify (.bind (.advance rfl ?_)))
  have hopen : (k.hear (.newOrder names) o).Open { order := some o } :=
    ⟨hd, by rw [Standing.hear, horders]; rfl, hopen.releases, hopen.debts, hopen.ended,
      hopen.asked, hopen.looked⟩
  refine .bind (.call (q := .authorizations o) hd trivial (.inr fun _ => rfl) (hopen.congr rfl rfl)
    fun as => ?_)
  refine .bind (.advance rfl (.of (I := Ordered o as) ?_ ?_))
  · refine ⟨⟨hd, hopen.order, hopen.releases, hopen.debts, hopen.ended,
      hopen.asked, hopen.looked⟩, rfl, rfl, rfl, ?_,
      hasked, hfin⟩
    change (k.authorizations ++ [as]).head? = some as
    rw [hauthorizations]
    rfl
  intro k t ⟨hopen, horder, hmachine, hnew, has, hasked, hfin⟩
  -- the challenges are taken, and their records are made
  refine .bind ((drives_takeChallenges hopen hasked hnew as).mono ?_)
  rintro k _ _ ⟨rfl, rfl, hpending⟩
  have hopen : k.Open { t with challenges := .ofAuthorizations as } :=
    hopen.setChallenges hasked _
  refine .bind ((drives_makeRecords hopen horder hmachine hfin has rfl hpending).mono ?_)
  intro k t _ h
  refine .bind (h.advance rfl fun h => .bind (.get (.bind ?_)))
  refine (Drives.forM (I := fun _ k t => Ready o _ k t) ?_ h).mono ?_
  · intro done e rest k t _ h
    have hmay : k.MayAsk (.challengeReady o e.url) := h.provisioned
    unfold submit
    refine .bind (.call h.isOpen.hasDomain hmay (.inr fun _ => rfl) h.isOpen fun _ => ?_)
    exact .modify (h.setChallenges (ChallengeSet.keys_setStatus _ _))
  intro k t _ h
  refine .bind (h.advance rfl fun h => .bind ((drives_awaitAuthorizations h).mono ?_))
  rintro k t _ ⟨h, hvalidated⟩
  refine .bind (h.advance rfl fun h => ?_)
  -- the order is finalized without another try
  have hmay : k.MayAsk (.finalize o request) := ⟨h.finalizes, hvalidated⟩
  refine .bind (.call h.isOpen.hasDomain hmay (.inl rfl) (h.isOpen.finalize o request) fun _ => ?_)
  refine .bind ((drives_awaitCertificate (h.isOpen.finalize o request)).mono ?_)
  rintro _ _ chain ⟨rfl, rfl⟩
  exact .bind (.advance rfl (.pure ⟨(h.isOpen.finalize o request).congr rfl rfl, rfl⟩))

end Driving

end CertSteward
