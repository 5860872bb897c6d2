import CertSteward.Proofs.Dns.Values

/-!
# What a run and its jobs know of each other

A run never knows less than before. So what it had to know when it sent a job is still so whenever
the job asks for something, and what it was told by a job is still so when it ends.

## Main definitions

* `Standing.Grows` — to know more
* `Weave.standing` — how far a run is

## Main results

* `Standing.grows_note` — answers only add
* `Contending.accepted` — a run that has its domain was accepted
* `Contending.licensed` — what a run knows whose job is under way
* `Contending.ended` — a job whose outcome is known has ended with it
-/

namespace CertSteward

namespace Standing

/-- To know everything and perhaps more. -/
structure Grows (k k' : Standing) : Prop where
  hasDomain : k.hasDomain = true → k'.hasDomain = true
  authorizations : k.authorizations <+: k'.authorizations
  served : k.served ⊆ k'.served
  asked : k.asked ⊆ k'.asked
  looked : k.looked ⊆ k'.looked
  ended : k.ended ⊆ k'.ended

variable {k k' k'' : Standing}

theorem Grows.rfl : Grows k k :=
  ⟨id, List.prefix_rfl, List.Subset.refl _, List.Subset.refl _, List.Subset.refl _,
    List.Subset.refl _⟩

/-- What is not said of here may change. -/
theorem Grows.of_same (hasDomain : k'.hasDomain = k.hasDomain)
    (authorizations : k'.authorizations = k.authorizations) (served : k'.served = k.served)
    (asked : k'.asked = k.asked) (looked : k'.looked = k.looked) (ended : k'.ended = k.ended) :
    Grows k k' := by
  exact ⟨fun h => hasDomain.trans h, authorizations ▸ List.prefix_rfl, served ▸ List.Subset.refl _,
    asked ▸ List.Subset.refl _, looked ▸ List.Subset.refl _, ended ▸ List.Subset.refl _⟩

theorem Grows.trans (h : Grows k k') (h' : Grows k' k'') : Grows k k'' where
  hasDomain hk := h'.hasDomain (h.hasDomain hk)
  authorizations := h.authorizations.trans h'.authorizations
  served := List.Subset.trans h.served h'.served
  asked := List.Subset.trans h.asked h'.asked
  looked := List.Subset.trans h.looked h'.looked
  ended := List.Subset.trans h.ended h'.ended

/-- The first answer stays the first. -/
theorem Grows.head (h : Grows k k') {as : List Authorization}
    (hk : k.authorizations.head? = some as) : k'.authorizations.head? = some as := by
  obtain ⟨rest, hrest⟩ := h.authorizations
  rw [← hrest, List.head?_append, hk]
  rfl

theorem Grows.cleared (h : Grows k k') (hk : k.Cleared) : k'.Cleared := by
  obtain ⟨as, hhead, hall⟩ := hk
  refine ⟨as, h.head hhead, fun a ha => ⟨(hall a ha).1, fun hvalid => ?_⟩⟩
  exact ⟨((hall a ha).2 hvalid).1, h.served ((hall a ha).2 hvalid).2⟩

theorem grows_ask (k : Standing) (q : AuthorityRequest) : Grows k (k.ask q) := by
  cases q <;> exact .of_same rfl rfl rfl rfl rfl rfl

theorem grows_hear (k : Standing) (q : AuthorityRequest) (v : q.Value) : Grows k (k.hear q v) := by
  cases q with
  | authorizations => exact { Grows.rfl with authorizations := List.prefix_append _ _ }
  | _ => exact .of_same rfl rfl rfl rfl rfl rfl

theorem grows_look (k : Standing) (key : SlotKey) (id : Option String) : Grows k (k.look key id) :=
  { Grows.rfl with looked := List.subset_append_left _ _ }

theorem grows_send (k : Standing) (jobs : List Job) : Grows k (k.send jobs) :=
  { Grows.rfl with asked := List.subset_append_left _ _ }

theorem grows_gather (k : Standing) (jobs : List Job) (outcomes : List Outcome) :
    Grows k (k.gather jobs outcomes) :=
  { Grows.rfl with ended := List.subset_append_left _ _ }

/-- **Answers only add to what a run knows.** -/
theorem grows_note (limit : Duration) (j : Journal) (a : Act) (answer : a.Answer) :
    Grows j.standing (j.note limit a answer).standing := by
  change Grows j.standing (j.learn limit a answer).standing
  unfold Journal.learn
  split
  · exact .of_same rfl rfl rfl rfl rfl rfl
  · exact { Grows.rfl with hasDomain := fun _ => rfl }
  · exact { Grows.rfl with hasDomain := fun _ => rfl }
  · exact grows_ask _ _
  · exact grows_ask _ _
  · split
    · exact grows_hear _ _ _
    · exact .rfl
  · exact .rfl
  · exact { Grows.rfl with served := List.subset_cons_self _ _ }
  · exact grows_look _ _ _
  · split
    · exact grows_look _ _ _
    · exact .rfl
  · exact (grows_send _ _).trans (grows_gather _ _ _)
  · exact grows_send _ _
  · exact .of_same rfl rfl rfl rfl rfl rfl
  · exact .rfl

/-- What is known of jobs that have ended was told as the outcome of a wait. -/
theorem ended_note {limit : Duration} {j : Journal} {a : Act} {answer : a.Answer}
    {x : Job × Outcome} (h : x ∈ (j.note limit a answer).standing.ended) :
    x ∈ j.standing.ended ∨ ∃ (jobs : List Job) (outcomes : List Outcome),
      (⟨a, answer⟩ : Happening) = ⟨.wait (.all jobs), some outcomes⟩ ∧ x ∈ jobs.zip outcomes := by
  change x ∈ (j.learn limit a answer).standing.ended at h
  have hask : ∀ q, (j.standing.ask q).ended = j.standing.ended := by
    intro q
    cases q <;> rfl
  have hhear : ∀ q v, (j.standing.hear q v).ended = j.standing.ended := by
    intro q v
    cases q <;> rfl
  unfold Journal.learn at h
  split at h
  · exact .inl h
  · exact .inl h
  · exact .inl h
  · exact .inl (hask _ ▸ h)
  · exact .inl (hask _ ▸ h)
  · split at h
    · exact .inl (hhear _ _ ▸ h)
    · exact .inl h
  · exact .inl h
  · exact .inl h
  · exact .inl h
  · split at h <;> exact .inl h
  · obtain h | h := List.mem_append.mp h
    · exact .inl h
    · exact .inr ⟨_, _, rfl, h⟩
  · exact .inl h
  · exact .inl h
  · exact .inl h

/-- What is known of slots was seen: there was no slot, or this was in it. -/
theorem looked_note {limit : Duration} {j : Journal} {a : Act} {answer : a.Answer}
    {x : SlotKey × Option String} (h : x ∈ (j.note limit a answer).standing.looked) :
    x ∈ j.standing.looked ∨
      (∃ k, (⟨a, answer⟩ : Happening) = ⟨.slots (.find k), none⟩ ∧ x = (k, none)) ∨
      ∃ k c d v, (⟨a, answer⟩ : Happening) = ⟨.slots (.value d), v⟩ ∧ j.errand = .held k c ∧
        x = (k, v.join) := by
  change x ∈ (j.learn limit a answer).standing.looked at h
  have hask : ∀ q, (j.standing.ask q).looked = j.standing.looked := by
    intro q
    cases q <;> rfl
  have hhear : ∀ q v, (j.standing.hear q v).looked = j.standing.looked := by
    intro q v
    cases q <;> rfl
  unfold Journal.learn at h
  split at h
  case h_4 | h_5 => exact .inl (hask _ ▸ h)
  case h_6 =>
    split at h
    · exact .inl (hhear _ _ ▸ h)
    · exact .inl h
  case h_9 =>
    obtain h | h := List.mem_append.mp h
    · exact .inl h
    · exact .inr (.inl ⟨_, rfl, List.mem_singleton.mp h⟩)
  case h_10 =>
    split at h
    · rename_i hheld
      obtain h | h := List.mem_append.mp h
      · exact .inl h
      · exact .inr (.inr ⟨_, _, _, _, rfl, hheld, List.mem_singleton.mp h⟩)
    · exact .inl h
  all_goals exact .inl h

/-- A run gets its domain only if it was accepted, and keeps its key. -/
theorem accepted_note {r : IssuanceRequest} {b : Bool} {limit : Duration} {j : Journal} {a : Act}
    {answer : a.Answer} (may : j.standing.May r b a)
    (hj : j.standing.hasDomain = true → j.standing.Accepted r) :
    (j.note limit a answer).standing.hasDomain = true →
      (j.note limit a answer).standing.Accepted r := by
  change (j.learn limit a answer).standing.hasDomain = true →
    (j.learn limit a answer).standing.Accepted r
  have hask : ∀ q, (j.standing.ask q).hasDomain = true → (j.standing.ask q).Accepted r := by
    intro q
    cases q <;> exact hj
  have hhear : ∀ q v, (j.standing.hear q v).hasDomain = true →
      (j.standing.hear q v).Accepted r := by
    intro q v
    cases q <;> exact hj
  unfold Journal.learn
  split
  · intro hdomain
    obtain ⟨_, _, _, hkey, -⟩ := hj hdomain
    cases hkey.symm.trans may
  · exact fun _ => may
  · exact fun _ => may
  · exact hask _
  · exact hask _
  · split
    · exact hhear _ _
    · exact hj
  · exact hj
  · exact hj
  · exact hj
  · split <;> exact hj
  · exact hj
  · exact hj
  · exact hj
  · exact hj

end Standing

namespace Weave

/-- How far a run is. -/
def standing {β : Type} (limit : Duration) (w : Weave β) (i : Nat) : Standing :=
  (w.journal limit i).standing

end Weave

namespace Contending

open Weave

variable {p : RenewalPractice} {requests : List (IssuanceRequest × LockMode)}
variable {w u : Weave Issued} {i : Nat} {s : Strand Issued} {r : IssuanceRequest} {mode : LockMode}

/-- A run is in its place. -/
theorem main_here (h : Contending p requests w) (hr : requests[i]? = some (r, mode)) :
    ∃ s, w.strands[i]? = some s ∧ s.job = none ∧ s.run = i :=
  Weave.Leads.main_here h (fun _ _ => Weave.Stride.turn)
    (q := issueCertificate p.issuance r mode) (by rw [List.getElem?_map, hr]; rfl)

/-- A run never knows less than before. -/
theorem grows (h : Contending p requests w) (step : Weave.Stride p.program w u)
    (here : w.strands[i]? = some s) (limit : Duration) :
    (w.standing limit i).Grows (u.standing limit i) := by
  obtain hsame | ⟨a, answer, -, hnote⟩ := h.journal_cases step here limit
  · rw [standing, standing, hsame]
    exact .rfl
  · rw [standing, standing, hnote]
    exact Standing.grows_note limit _ a answer

/-- What a run asks for belongs to the protocol. -/
theorem asks (h : Contending p requests w) (here : w.strands[i]? = some s) (hmain : s.job = none)
    (hr : requests[i]? = some (r, mode)) {a : Act} {next : a.Answer → Steward (Outcome ⊕ Issued)}
    (hasks : s.program = .ask a next) :
    (w.standing p.issuance.settings.callTimeout i).May r s.isWatching a := by
  obtain ⟨r', mode', hr', hmay⟩ := h.mayAsk here hmain hasks
  rw [(h.kinds.main i s here hmain).1] at hr'
  cases hr.symm.trans hr'
  exact hmay

/-- **A run that has its domain was accepted.** -/
theorem accepted (h : Contending p requests w) (hr : requests[i]? = some (r, mode)) :
    (w.standing p.issuance.settings.callTimeout i).hasDomain = true →
      (w.standing p.issuance.settings.callTimeout i).Accepted r := by
  unfold Contending at h
  induction h with
  | refl =>
    intro hdomain
    cases hdomain
  | @step v u reach step ih =>
    obtain ⟨s, here, hmain, -⟩ := main_here reach hr
    obtain hsame | ⟨a, answer, change, hnote⟩ :=
      journal_cases reach step here p.issuance.settings.callTimeout
    · rw [standing, hsame]
      exact ih
    · obtain ⟨next, hasks⟩ := change.asks
      rw [standing, hnote]
      exact Standing.accepted_note (asks reach here hmain hr hasks) ih

/-- The run to which a strand belongs. -/
theorem run_here (h : Contending p requests w) (here : w.strands[i]? = some s) :
    ∃ r mode, requests[s.run]? = some (r, mode) := by
  unfold Contending at h
  induction h generalizing i s with
  | refl =>
    obtain ⟨q, hq, rfl⟩ := Weave.start_here here
    rw [List.getElem?_map, Option.map_eq_some_iff] at hq
    obtain ⟨⟨r, mode⟩, hr, -⟩ := hq
    exact ⟨r, mode, hr⟩
  | step _ step ih =>
    cases step.turn.origin here with
    | old here _ _ run => exact run ▸ ih here
    | part here _ _ _ _ _ _ run => exact run ▸ ih here
    | started here _ _ _ _ _ run => exact run ▸ ih here

/-- What a run knows whose job is under way. -/
structure Licence (k : Standing) (job : Job) : Prop where
  hasDomain : k.hasDomain = true
  cleared : job.recordKey?.isSome → k.Cleared

theorem Licence.mono {k k' : Standing} {job : Job} (h : Licence k job) (hk : k.Grows k') :
    Licence k' job :=
  ⟨hk.hasDomain h.hasDomain, fun hjob => hk.cleared (h.cleared hjob)⟩

/-- **A run whose job is under way has its domain**, and was cleared if the job makes a record. -/
theorem licensed {job : Job} (h : Contending p requests w) (here : w.strands[i]? = some s)
    (hjob : s.job = some job) :
    Licence (w.standing p.issuance.settings.callTimeout s.run) job := by
  unfold Contending at h
  induction h generalizing i s job with
  | refl =>
    obtain ⟨q, -, rfl⟩ := Weave.start_here here
    cases hjob
  | @step v u reach step ih =>
    have hgrows : ∀ {k : Nat} {t : Strand Issued}, v.strands[k]? = some t →
        (v.standing p.issuance.settings.callTimeout t.run).Grows
          (u.standing p.issuance.settings.callTimeout t.run) := by
      intro k t ht
      obtain ⟨m, hm, -⟩ := (kinds reach).run k t ht
      exact grows reach step hm _
    cases step.turn.origin here with
    | old ht hsame _ run =>
      rw [run]
      exact (ih ht (hsame.symm.trans hjob)).mono (hgrows ht)
    | @part k t jobs next job' ht hasks mem _ _ hnew _ run =>
      rw [hjob] at hnew
      cases hnew
      rw [run]
      refine Licence.mono ?_ (hgrows ht)
      -- a run that waits for a job may do so
      have hmain : t.job = none := (may reach ht hasks).2
      obtain ⟨r, mode, hr⟩ := run_here reach ht
      have hk := ((kinds reach).main k t ht hmain).1
      rw [hk] at hr ⊢
      obtain ⟨hdomain, hsend⟩ := asks reach ht hmain hr hasks
      refine ⟨hdomain, fun hkey => ?_⟩
      have hsend := hsend job mem
      cases job with
      | provision => exact hsend.1
      | createRecord => exact hsend.elim
      | _ => cases hkey
    | @started k t next job' ht hasks _ _ hnew _ run =>
      rw [hjob] at hnew
      cases hnew
      rw [run]
      refine Licence.mono ?_ (hgrows ht)
      -- the job that starts another one makes a record too
      obtain ⟨c, name, value, hat, rfl⟩ := may reach ht hasks
      have hsuits := suits reach ht
      rw [hat] at hsuits
      obtain ⟨name', value', hjob', -⟩ := hsuits
      exact ⟨(ih ht hjob').hasDomain, fun _ => (ih ht hjob').cleared rfl⟩

/-- **A job whose outcome is known to a run has ended with it.** -/
theorem ended {job : Job} {o : Outcome} (h : Contending p requests w)
    (hr : requests[i]? = some (r, mode))
    (hmem : (job, o) ∈ (w.standing p.issuance.settings.callTimeout i).ended) :
    ∃ j t, w.strands[j]? = some t ∧ t.job = some job ∧ t.run = i ∧ w.outcome? j = some o := by
  unfold Contending at h
  induction h with
  | refl => cases hmem
  | @step v u reach step ih =>
    have hkeep : (∃ j t, v.strands[j]? = some t ∧ t.job = some job ∧ t.run = i ∧
        v.outcome? j = some o) →
        ∃ j t, u.strands[j]? = some t ∧ t.job = some job ∧ t.run = i ∧ u.outcome? j = some o := by
      rintro ⟨j, t, ht, hjob, hrun, ho⟩
      have hsettled := settled_of_strides reach
      have hended := over_of_outcome? (by rw [ho]; rfl) ht
      exact ⟨j, t, step.turn.ended hsettled ht hended, hjob, hrun, step.turn.outcome? hsettled ho⟩
    obtain ⟨s, here, hmain, -⟩ := main_here reach hr
    obtain hsame | ⟨a, answer, change, hnote⟩ :=
      journal_cases reach step here p.issuance.settings.callTimeout
    · rw [standing, hsame] at hmem
      exact hkeep (ih hmem)
    · rw [standing, hnote] at hmem
      refine hkeep ?_
      have htells := change.tells
      obtain hold | ⟨jobs, outcomes, heq, hnew⟩ := Standing.ended_note hmem
      · exact ih hold
      · cases heq
        obtain ⟨j, t, ht, hjob, howner, ho⟩ := htells _ hnew
        exact ⟨j, t, ht, hjob, (kinds reach).run_of_owner ht howner, ho⟩

end Contending

end CertSteward
