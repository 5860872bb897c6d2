import CertSteward.Proofs.Issuance.Protocol

/-!
# What a run has done when it ends

However a run ends, it has looked at each slot that it sent a job to, has sent a job to remove each
record that it found there, and has given its order up if it had one. The failures that it reports
are those of these jobs.

This is the contract between a run and whoever wants to know what is left of it: it speaks of the
requests of the run alone. That the jobs do what they are sent for is said elsewhere.

## Main definitions

* `Journal.Concluded` — what a run has done when it ends

## Main results

* `keeps_cleanUp` — challenge records and order are given up
* `keeps_issueCertificate` — a run keeps to the protocol from its beginning to its end
-/

namespace CertSteward

/-- A run that has removed what it found and given up its order, with a number of failures. -/
structure Standing.Closed (countsDebt : Bool) (k : Standing) (left : Nat) : Prop where
  orders : k.orders.length ≤ 1
  releases : k.releases = k.orders
  failures : k.failures = left
  debts : k.debts = if countsDebt then [left] else []
  looked : ∀ key ∈ k.asked, ∃ id, (key, id) ∈ k.looked
  removed : ∀ key id, (key, some id) ∈ k.looked →
    ∃ h o, (.deprovision h, o) ∈ k.ended ∧ h.key = key

/-- What a run has done when it ends with a result. -/
structure Journal.Concluded (countsDebt : Bool) (j : Journal)
    (x : Except IssuanceError IssuedCertificate) : Prop where
  closed : j.standing.Closed (j.standing.hasDomain && countsDebt) j.standing.failures
  /-- A run that succeeds has passed through all states. -/
  visited : ∀ c, x = .ok c → c.report.visited = IssuanceState.wholeCourse
  /-- A run that succeeds reports its failures. -/
  cleanupFailures : ∀ c, x = .ok c → c.report.cleanupFailures = j.standing.failures
  explains : ∀ e, x = .error e → j.Explains e

section CleanUp

variable {limit : Duration} {r : IssuanceRequest} {k : Standing} {s : RunState}

/-! ### Looking at slots -/

/-- A program for each element of a list, where `I` holds of those that are done. -/
theorem Conduct.keeps_mapM {σ α β : Type} {C : Conduct σ} {f : α → Steward β}
    {I : List α → List β → Bool → σ → Prop} {l : List α} {b : Bool} {t : σ}
    (hf : ∀ done bs a b t, I done bs b t →
      C.Keeps (fun b t x => I (done ++ [a]) (bs ++ [x]) b t) b t (f a)) (hI : I [] [] b t) :
    C.Keeps (fun b t bs => I l bs b t) b t (l.mapM f) := by
  suffices h : ∀ (rest done : List α) (bs : List β) (b : Bool) (t : σ), l = done ++ rest →
      I done bs.reverse b t → C.Keeps (fun b t bs => I l bs b t) b t (List.mapM.loop f rest bs) from
    h l [] [] b t rfl hI
  intro rest
  induction rest with
  | nil =>
    intro done bs b t hl hI
    rw [List.append_nil] at hl
    exact hl ▸ hI
  | cons a rest ih =>
    intro done bs b t hl hI
    refine keeps_bind.mpr ((hf done bs.reverse a b t hI).mono fun b t x hx => ?_)
    refine ih (done ++ [a]) (x :: bs) b t (by rw [hl, List.append_assoc]; rfl) ?_
    rw [List.reverse_cons]
    exact hx

/-- A look at a slot leads to a handle if there is a record. -/
theorem keeps_tracked {name value : String} {j : Journal} (hj : j.errand.IsIdle) :
    (protocol limit r).Keeps (fun b j' h => b = false ∧ ∃ e id, e.IsIdle ∧
      j' = { j with standing := j.standing.look (slotKey name value) id, errand := e } ∧
      h = id.map fun id => { name, value, id }) false j (DnsPractice.tracked name value) := by
  unfold DnsPractice.tracked
  refine Conduct.keeps_bind.mpr (Conduct.keeps_perform.mpr ⟨⟨trivial, hj, .inl rfl⟩, ?_⟩)
  rintro (_ | c) -
  · exact ⟨rfl, .lost _, none, rfl, rfl, rfl⟩
  · refine Conduct.keeps_bind.mpr (Conduct.Keeps.mono (Q := fun b j' id => b = false ∧ j' =
      { j with standing := j.standing.look (slotKey name value) id.join, errand := .out c true })
      ?_ ?_)
    · refine Conduct.keeps_run_bind.mpr (Conduct.keeps_run_await.mpr
        ⟨⟨trivial, ⟨_, rfl⟩, nofun⟩, ?_⟩)
      rintro (_ | _) hpossible
      · cases hpossible
      refine Conduct.keeps_run_bind.mpr (Conduct.keeps_run_perform.mpr
        ⟨⟨trivial, _, rfl⟩, fun v _ => ?_⟩)
      refine Conduct.keeps_run_bind.mpr (Conduct.keeps_run_perform.mpr
        ⟨⟨trivial, rfl, trivial⟩, fun _ _ => ?_⟩)
      exact ⟨rfl, rfl⟩
    · rintro _ _ id ⟨rfl, rfl⟩
      refine Conduct.keeps_bind.mpr (Conduct.keeps_perform.mpr
        ⟨⟨trivial, _, rfl⟩, fun _ _ => ?_⟩)
      exact ⟨rfl, .free true, id.join, rfl, rfl, rfl⟩

/-- What looks at slots have led to: something is known of each, and of each record that is there,
there is a handle. -/
structure Looked (j : Journal) (done : List ChallengeEntry) (handles : List (Option DnsHandle))
    (b : Bool) (j' : Journal) : Prop where
  uninterrupted : b = false
  isIdle : j'.errand.IsIdle
  standing : ∃ looked, j'.standing = { j.standing with looked }
  errors : j'.errors = j.errors
  looked : ∀ x ∈ done, ∃ id, (x.key, id) ∈ j'.standing.looked
  found : ∀ key id, (key, some id) ∈ j'.standing.looked → ∃ h, some h ∈ handles ∧ h.key = key
  known : ∀ h, some h ∈ handles → (h.key, some h.id) ∈ j'.standing.looked

theorem keeps_lookAll {j : Journal} (hj : j.errand.IsIdle) (hnone : j.standing.looked = [])
    (entries : List ChallengeEntry) :
    (protocol limit r).Keeps (fun b j' found => Looked j entries found b j') false j
      (entries.mapM fun e => DnsPractice.tracked e.recordName e.recordValue) := by
  refine Conduct.keeps_mapM (I := fun done found b j' => Looked j done found b j') ?_ ?_
  · rintro done found x b j' ⟨rfl, hidle, ⟨looked, hstanding⟩, herrors, hlooked, hfound, hknown⟩
    refine (keeps_tracked hidle).mono ?_
    rintro _ _ _ ⟨rfl, e, id, he, rfl, rfl⟩
    refine ⟨rfl, he, ⟨looked ++ [(x.key, id)], ?_⟩, herrors, ?_, ?_, ?_⟩
    · change j'.standing.look x.key id = _
      rw [hstanding]
      rfl
    · intro y hy
      obtain hy | hy := List.mem_append.mp hy
      · obtain ⟨id', hmem⟩ := hlooked y hy
        exact ⟨id', List.mem_append_left _ hmem⟩
      · rw [List.mem_singleton.mp hy]
        exact ⟨id, List.mem_append_right _ List.mem_cons_self⟩
    · intro key id' hmem
      obtain hmem | hmem := List.mem_append.mp hmem
      · obtain ⟨h, hh, hkey⟩ := hfound key id' hmem
        exact ⟨h, List.mem_append_left _ hh, hkey⟩
      · obtain ⟨rfl, rfl⟩ := Prod.mk.inj (List.mem_singleton.mp hmem)
        exact ⟨_, List.mem_append_right _ List.mem_cons_self, rfl⟩
    · intro h hh
      obtain hh | hh := List.mem_append.mp hh
      · exact List.mem_append_left _ (hknown h hh)
      · obtain ⟨id', rfl, rfl⟩ := Option.map_eq_some_iff.mp (List.mem_singleton.mp hh).symm
        exact List.mem_append_right _ List.mem_cons_self
  · refine ⟨rfl, hj, ⟨_, rfl⟩, rfl, nofun, fun key id hmem => ?_, nofun⟩
    rw [hnone] at hmem
    cases hmem

/-! ### Removing records -/

theorem send_deprovisions (k : Standing) (handles : List DnsHandle) :
    k.send (handles.map .deprovision) = k := by
  have hnone : (handles.map Job.deprovision).filterMap Job.provisionKey? = [] := by
    rw [List.filterMap_map]
    exact List.filterMap_eq_nil_iff.mpr fun _ _ => rfl
  rw [Standing.send, hnone, List.append_nil]

/-- Of jobs that remove something those failed that were answered with an error. -/
theorem countP_deprovisions : ∀ {handles : List DnsHandle} {outcomes : List Outcome},
    outcomes.length = handles.length →
    (((handles.map Job.deprovision).zip outcomes).countP
      fun (j, o) => j.isRemoval && !(DnsPractice.resultOf o).isOk) =
    outcomes.countP fun o => !(DnsPractice.resultOf o).isOk := by
  intro handles
  induction handles with
  | nil =>
    intro outcomes hlen
    rw [List.length_eq_zero_iff.mp hlen]
    rfl
  | cons h handles ih =>
    intro outcomes hlen
    cases outcomes with
    | nil => cases hlen
    | cons o outcomes =>
      rw [List.map_cons, List.zip_cons_cons, List.countP_cons, List.countP_cons,
        ih (Nat.succ.inj hlen)]
      rfl

theorem failures_gather {handles : List DnsHandle} {outcomes : List Outcome}
    (hlen : outcomes.length = handles.length) (hk : ∀ x ∈ k.ended, x.1.isRemoval = false) :
    (k.gather (handles.map .deprovision) outcomes).failures =
      outcomes.countP fun o => !(DnsPractice.resultOf o).isOk := by
  have hnone : k.failures = 0 := by
    refine List.countP_eq_zero.mpr fun x hx => ?_
    change ¬(x.1.isRemoval && _) = true
    rw [hk x hx]
    exact Bool.false_ne_true
  rw [Standing.failures, Standing.gather, List.countP_append, countP_deprovisions hlen]
  exact (congrArg (· + _) hnone).trans (Nat.zero_add _)

/-- Who removed every record that it found, if it was found. -/
theorem removed_of_zip {handles : List DnsHandle} {outcomes : List Outcome}
    (hlen : outcomes.length = handles.length) {h : DnsHandle} (hh : h ∈ handles) :
    ∃ o, (.deprovision h, o) ∈ (handles.map Job.deprovision).zip outcomes := by
  obtain ⟨o, -, hmem⟩ := Driving.exists_mem_zip (f := Job.deprovision) (p := fun _ => True)
    (by rw [hlen, List.length_map]) (fun _ _ => trivial) h hh
  exact ⟨o, hmem⟩

/-- A run that has removed what it found. -/
structure Swept (s : RunState) (k : Standing) (left : Nat) : Prop where
  hasDomain : k.hasDomain = true
  order : s.order.toList = k.orders
  releases : k.releases = []
  debts : k.debts = []
  failures : k.failures = left
  looked : ∀ key ∈ k.asked, ∃ id, (key, id) ∈ k.looked
  removed : ∀ key id, (key, some id) ∈ k.looked →
    ∃ h o, (.deprovision h, o) ∈ k.ended ∧ h.key = key

/-- The debt is noted and the order given up. -/
theorem keeps_giveUp {countsDebt : Bool} {j : Journal} {left : Nat} {errors : List IssuanceError}
    (h : Swept s j.standing left) (hidle : j.errand.IsIdle) (herrors : j.errors = errors) :
    (protocol limit r).Keeps (fun b j' n => b = false ∧ j'.standing.Closed countsDebt n ∧
      j'.standing.hasDomain = true ∧ j'.errors ⊇ errors ∧ j'.errand.IsIdle) false j (do
        if countsDebt then perform (.note (.debt left))
        if let some order := s.order then
          let _ ← perform (.authority (.release order))
        return left) := by
  subst herrors
  have hrelease : ∀ (debts : List Nat), debts = (if countsDebt then [left] else []) →
      (protocol limit r).Keeps (fun b j' n => b = false ∧ j'.standing.Closed countsDebt n ∧
        j'.standing.hasDomain = true ∧ j'.errors ⊇ j.errors ∧ j'.errand.IsIdle) false
        { j with standing := { j.standing with debts } } (do
          if let some order := s.order then
            let _ ← perform (.authority (.release order))
          return left) := by
    intro debts hdebts
    cases horder : s.order with
    | none =>
      have horders : j.standing.orders = [] := by rw [← h.order, horder]; rfl
      refine ⟨rfl, ⟨?_, ?_, h.failures, hdebts, h.looked, h.removed⟩, h.hasDomain, fun _ => id, hidle⟩
      · exact horders ▸ Nat.zero_le 1
      · exact h.releases.trans horders.symm
    | some order =>
      have horders : j.standing.orders = [order] := by rw [← h.order, horder]; rfl
      refine Conduct.keeps_bind.mpr (Conduct.keeps_perform.mpr
        ⟨⟨⟨h.hasDomain, horders, h.releases⟩, rfl⟩, ?_⟩)
      have hclosed : ((Standing.ask { j.standing with debts } (.release order))).Closed
          countsDebt left := by
        refine ⟨?_, ?_, h.failures, hdebts, h.looked, h.removed⟩
        · exact horders ▸ Nat.le_refl 1
        · exact (congrArg (· ++ [order]) h.releases).trans horders.symm
      rintro ⟨_ | _, _⟩ -
      · exact ⟨rfl, hclosed, h.hasDomain, fun _ => List.mem_cons_of_mem _, hidle⟩
      · exact ⟨rfl, hclosed, h.hasDomain, fun _ => id, hidle⟩
  cases hcounts : countsDebt with
  | true =>
    refine Conduct.keeps_bind.mpr (Conduct.keeps_perform.mpr
      ⟨⟨h.failures.symm, trivial⟩, fun _ _ => ?_⟩)
    have hnext := hrelease [left] (by rw [hcounts]; rfl)
    rw [hcounts] at hnext
    change (protocol limit r).Keeps _ false
      { j with standing := { j.standing with debts := j.standing.debts ++ [left] } } _
    rw [h.debts]
    exact hnext
  | false =>
    have hnext := hrelease [] (by rw [hcounts]; rfl)
    rw [hcounts] at hnext
    have hsame : { j.standing with debts := [] } = j.standing := by rw [← h.debts]
    rw [hsame] at hnext
    exact hnext

/-- After the removal of all that was found, a run has removed what it found. -/
theorem Looked.swept {j j' : Journal} {found : List (Option DnsHandle)} {outcomes : List Outcome}
    {b : Bool} (h : Looked j s.challenges.entries found b j') (hopen : j.standing.Open s)
    (hlen : outcomes.length = (found.filterMap id).length) :
    Swept s ((j'.standing.send ((found.filterMap id).map .deprovision)).gather
        ((found.filterMap id).map .deprovision) outcomes)
      (outcomes.countP fun o => !(DnsPractice.resultOf o).isOk) := by
  rw [send_deprovisions]
  obtain ⟨looked, hstanding⟩ := h.standing
  have hremoved : ∀ key id', (key, some id') ∈ j'.standing.looked → ∃ handle o, (.deprovision handle, o) ∈
      (j'.standing.gather ((found.filterMap id).map .deprovision) outcomes).ended ∧
        handle.key = key := by
    intro key id' hid
    obtain ⟨handle, hh, hkey⟩ := h.found key id' hid
    have hmem : handle ∈ found.filterMap id := List.mem_filterMap.mpr ⟨_, hh, rfl⟩
    obtain ⟨o, ho⟩ := removed_of_zip hlen hmem
    exact ⟨handle, o, List.mem_append_right _ ho, hkey⟩
  have hasked : ∀ key ∈ j'.standing.asked, ∃ id, (key, id) ∈ j'.standing.looked := by
    intro key hkey
    rw [hstanding] at hkey
    obtain ⟨e, he, rfl⟩ := List.mem_map.mp (hopen.asked key hkey)
    exact h.looked e he
  have hended : ∀ x ∈ j'.standing.ended, x.1.isRemoval = false := by
    rw [hstanding]
    exact hopen.ended
  refine ⟨?_, ?_, ?_, ?_, failures_gather hlen hended, hasked, hremoved⟩
  all_goals rw [hstanding]
  · exact hopen.hasDomain
  · exact hopen.order
  · exact hopen.releases
  · exact hopen.debts

/-- **Clean-up.** However a run under way ends, its clean-up removes what it finds and gives the
order up. -/
theorem keeps_cleanUp {p : IssuancePractice} {j : Journal} (hopen : j.standing.Open s)
    (hfree : j.errand = .blank) :
    (protocol limit r).Keeps (fun b j' n => b = false ∧ j'.standing.Closed p.countsDebt n ∧
      j'.standing.hasDomain = true ∧ j'.errors ⊇ j.errors ∧ j'.errand.IsIdle) false j
      (cleanUp p s) := by
  unfold cleanUp
  have hidle : j.errand.IsIdle := by rw [hfree]; rfl
  refine Conduct.keeps_bind.mpr ((keeps_lookAll hidle hopen.looked _).mono ?_)
  intro _ j' found h
  obtain rfl := h.uninterrupted
  -- what was found is removed
  unfold DnsPractice.deprovisionAll
  have hdomain : j'.standing.hasDomain = true := by
    obtain ⟨looked, hstanding⟩ := h.standing
    rw [hstanding]
    exact hopen.hasDomain
  have hjobs : ∀ x ∈ (found.filterMap id).map Job.deprovision, j'.standing.MaySend false x := by
    intro x hx
    obtain ⟨handle, hh, rfl⟩ := List.mem_map.mp hx
    obtain ⟨_, hmem, rfl⟩ := List.mem_filterMap.mp hh
    exact ⟨rfl, h.known handle hmem⟩
  refine Conduct.keeps_bind.mpr (Conduct.keeps_bind.mpr (Conduct.keeps_perform.mpr
    ⟨⟨⟨hdomain, hjobs⟩, h.isIdle, rfl⟩, ?_⟩))
  rintro (_ | outcomes) hpossible
  · cases hpossible
  have hlen : outcomes.length = (found.filterMap id).length := by
    rw [← List.length_map (f := Job.deprovision)]
    exact hpossible
  exact keeps_giveUp (h.swept hopen hlen) h.isIdle h.errors

end CleanUp

/-! ### Whole runs -/

section Whole

variable {p : IssuancePractice} {r : IssuanceRequest} {k : Standing} {j : Journal}

/-- A run that has its domain and has done nothing yet. -/
structure Standing.Fresh (k : Standing) : Prop where
  isOpen : k.Open {}
  asked : k.asked = []
  authorizations : k.authorizations = []
  finalizes : k.finalizes = 0

theorem fresh_of_key (key : Option (Except MaterialError KeyPair)) :
    Standing.Fresh { key, hasDomain := true } where
  isOpen := ⟨rfl, rfl, rfl, rfl, fun _ hx => absurd hx List.not_mem_nil,
    fun _ hx => absurd hx List.not_mem_nil, rfl⟩
  asked := rfl
  authorizations := rfl
  finalizes := rfl

/-- A fault does not become another by being reported with a domain and a stage. -/
theorem Journal.Explains.failed {e : IssuanceError} (h : j.Explains e) (domain : String)
    (stage : IssuanceState) : j.Explains (.failed domain stage e) :=
  fun m hm => h m hm

theorem Journal.Explains.mono {j' : Journal} {e : IssuanceError} (h : j.Explains e)
    (herrors : j'.errors ⊇ j.errors) : j'.Explains e := by
  intro m hm
  obtain ⟨e', he', hroot⟩ := h m hm
  exact ⟨e', herrors he', hroot⟩

theorem keeps_driveWatched {names : List String} {request : List UInt8} (hj : j.At k)
    (hk : k.Fresh) :
    (protocol p.settings.callTimeout r).Keeps (fun _ j x => (∃ k, j.At k ∧ k.Open x.2) ∧
      match x.1 with
      | .ok _ => x.2.machine.visited = IssuanceState.wholeCourse
      | .error e => j.Explains e) false j (driveWatched p names request) := by
  unfold driveWatched
  refine Conduct.keeps_bind.mpr (Conduct.keeps_perform.mpr ⟨⟨trivial, trivial⟩, ?_⟩)
  rintro (_ | _) -
  · exact ⟨⟨k, hj, hk.isOpen⟩, fun _ h => nomatch h⟩
  · refine (Driving.drives_drive hk.isOpen hk.asked hk.authorizations hk.finalizes j hj).mono ?_
    rintro _ j ⟨x, s⟩ ⟨-, k, hj, hx⟩
    cases x with
    | ok chain => exact ⟨⟨k, hj, hx.1⟩, hx.2⟩
    | error e => exact ⟨⟨k, hj, hx.1⟩, hx.2⟩

/-- What is wrong with a certificate is no fault of the run. -/
theorem root_of_materialOf {chain : String} {key : KeyPair} {now : Instant} {e : IssuanceError}
    (h : materialOf chain key now = .error e) (m : Misplaced) : e.root ≠ .misplaced m := by
  unfold materialOf at h
  cases hs : Pem.splitChain chain with
  | error e' =>
    rw [hs] at h
    cases h
    exact IssuanceError.noConfusion
  | ok parts =>
    obtain ⟨certificate, above⟩ := parts
    rw [hs] at h
    replace h : (((certificateValidity certificate).mapError .material).bind fun dates =>
        if dates.2 ≤ now then throw _ else return _ : Except IssuanceError IssuedMaterial) = _ := h
    cases hv : certificateValidity certificate with
    | error e' =>
      rw [hv] at h
      cases h
      exact IssuanceError.noConfusion
    | ok dates =>
      rw [hv] at h
      replace h : (if dates.2 ≤ now then throw _ else return _ :
        Except IssuanceError IssuedMaterial) = _ := h
      split at h
      · cases h
        exact IssuanceError.noConfusion
      · cases h

theorem keeps_issueHeld {domain : String} {names : List String} {request : List UInt8}
    {key : KeyPair} (hj : j.At k) (hk : k.Fresh) :
    (protocol p.settings.callTimeout r).Keeps
      (fun b j x => b = false ∧ j.Concluded p.countsDebt x) false j
      (issueHeld p domain names request key) := by
  unfold issueHeld
  refine Conduct.keeps_bind.mpr (Conduct.keeps_perform.mpr ⟨⟨trivial, trivial⟩, fun started _ => ?_⟩)
  refine Conduct.keeps_bind.mpr ((keeps_driveWatched hj hk).mono ?_)
  rintro b j ⟨result, s⟩ ⟨⟨k, hj, hopen⟩, hresult⟩
  refine Conduct.keeps_bind.mpr (Conduct.keeps_perform.mpr ⟨⟨trivial, trivial⟩, fun _ _ => ?_⟩)
  refine Conduct.keeps_bind.mpr ((keeps_cleanUp (hj.standing ▸ hopen) hj.errand).mono ?_)
  rintro _ j' n ⟨rfl, hclosed, hdomain, herrors, -⟩
  refine Conduct.keeps_bind.mpr (Conduct.keeps_perform.mpr ⟨⟨trivial, trivial⟩, fun now _ => ?_⟩)
  have hleft : j'.standing.failures = n := hclosed.failures
  have hclosed : j'.standing.Closed (j'.standing.hasDomain && p.countsDebt) j'.standing.failures := by
    rw [hdomain, hleft]
    exact hclosed
  cases result with
  | ok chain =>
    refine Conduct.keeps_bind.mpr (Conduct.keeps_perform.mpr ⟨⟨trivial, trivial⟩, fun wall _ => ?_⟩)
    cases hm : materialOf chain key wall with
    | error e =>
      exact ⟨rfl, hclosed, nofun, nofun, fun _ he m hroot => by
        cases he
        exact absurd hroot (root_of_materialOf hm m)⟩
    | ok material =>
      refine ⟨rfl, hclosed, ?_, ?_, nofun⟩
      · rintro _ ⟨⟩
        exact hresult
      · rintro _ ⟨⟩
        exact hleft.symm
  | error e =>
    have hexplains : j'.Explains e := Journal.Explains.mono hresult herrors
    have hfailed : (protocol p.settings.callTimeout r).Keeps
        (fun b j x => b = false ∧ j.Concluded p.countsDebt x) false j'
        (pure (.error (.failed domain s.machine.state e))) := by
      refine ⟨rfl, hclosed, nofun, nofun, ?_⟩
      rintro _ ⟨⟩
      exact hexplains.failed _ _
    cases e with
    | cancelled => exact ⟨rfl, hclosed, nofun, nofun, fun _ he m hroot => by cases he; cases hroot⟩
    | _ => exact hfailed

/-! ### The domain -/

/-- What holds of a run that has not got its domain. -/
theorem concluded_of_refused {b : Bool} {e : IssuanceError}
    {key : Option (Except MaterialError KeyPair)} (hj : j.standing = { key })
    (he : ∀ m, e.root ≠ .misplaced m) : j.Concluded b (.error e) where
  closed := by
    rw [hj]
    exact ⟨Nat.zero_le 1, rfl, rfl, rfl, nofun, nofun⟩
  visited := nofun
  cleanupFailures := nofun
  explains := by
    rintro _ ⟨⟩ m hroot
    exact absurd hroot (he m)

/-- How the attempt to hold a domain ends. -/
def Locked (key : Except MaterialError KeyPair) (b : Bool) (j : Journal)
    (x : Except IssuanceError Nat) : Prop :=
  b = false ∧ match x with
    | .ok _ => j.At { key := some key, hasDomain := true }
    | .error e => j.standing = { key := some key } ∧ ∀ m, e.root ≠ .misplaced m

theorem keeps_lockDomain {limit : Duration} {key : Except MaterialError KeyPair}
    (haccepted : Standing.Accepted r { key := some key })
    (hj : j.At { key := some key }) (domain : String) (mode : LockMode) :
    (protocol limit r).Keeps (Locked key) false j (lockDomain domain mode) := by
  obtain ⟨_, _, es, _⟩ := j
  obtain ⟨rfl, rfl, rfl⟩ := hj
  cases mode with
  | skip =>
    refine Conduct.keeps_bind.mpr (Conduct.keeps_bind.mpr (Conduct.keeps_perform.mpr
      ⟨⟨trivial, rfl⟩, fun lock _ => ?_⟩))
    refine Conduct.keeps_bind.mpr (Conduct.keeps_perform.mpr ⟨⟨haccepted, rfl⟩, ?_⟩)
    rintro (_ | _) -
    · refine Conduct.keeps_bind.mpr (Conduct.keeps_perform.mpr ⟨⟨trivial, rfl⟩, fun _ _ => ?_⟩)
      exact ⟨rfl, rfl, nofun⟩
    · exact ⟨rfl, rfl, rfl, rfl⟩
  | wait =>
    refine Conduct.keeps_bind.mpr (Conduct.keeps_perform.mpr ⟨⟨trivial, trivial⟩, ?_⟩)
    rintro (_ | _) -
    · exact ⟨rfl, rfl, nofun⟩
    refine Conduct.keeps_bind.mpr (Conduct.keeps_perform.mpr ⟨⟨trivial, rfl⟩, fun lock _ => ?_⟩)
    refine Conduct.keeps_bind.mpr (Conduct.keeps_perform.mpr ⟨⟨haccepted, rfl, rfl⟩, ?_⟩)
    rintro (_ | _) -
    · refine Conduct.keeps_bind.mpr (Conduct.keeps_perform.mpr ⟨⟨trivial, trivial⟩, fun _ _ => ?_⟩)
      refine Conduct.keeps_bind.mpr (Conduct.keeps_perform.mpr ⟨⟨trivial, rfl⟩, fun _ _ => ?_⟩)
      exact ⟨rfl, rfl, nofun⟩
    · refine Conduct.keeps_bind.mpr (Conduct.keeps_perform.mpr ⟨⟨trivial, trivial⟩, fun _ _ => ?_⟩)
      exact ⟨rfl, rfl, rfl, rfl⟩

theorem root_of_normal {e : IssuanceError} (h : r.normal = .error e) (m : Misplaced) :
    e.root ≠ .misplaced m := by
  unfold IssuanceRequest.normal Except.mapError at h
  split at h
  · cases h
    nofun
  · cases h

theorem root_of_signed {key : Except MaterialError KeyPair} {e : IssuanceError}
    (h : r.signed key = .error e) (m : Misplaced) : e.root ≠ .misplaced m := by
  unfold IssuanceRequest.signed Except.mapError at h
  split at h
  · cases h
    nofun
  · cases h

/-- **Runs keep to the protocol.** A run for `r` makes only requests that it may make, whatever it
is answered, and has done what it is to do when it ends. -/
theorem keeps_issueCertificate (p : IssuancePractice) (r : IssuanceRequest) (mode : LockMode) :
    (protocol p.settings.callTimeout r).Keeps
      (fun b j x => b = false ∧ j.Concluded p.countsDebt x) false {}
      (issueCertificate p r mode) := by
  unfold issueCertificate
  cases hnormal : r.normal with
  | error e => exact ⟨rfl, concluded_of_refused rfl (root_of_normal hnormal)⟩
  | ok normal =>
    refine Conduct.keeps_bind.mpr (Conduct.keeps_perform.mpr ⟨⟨rfl, trivial⟩, fun key _ => ?_⟩)
    cases hsigned : normal.signed key with
    | error e => exact ⟨rfl, concluded_of_refused rfl (root_of_signed hsigned)⟩
    | ok parts =>
      obtain ⟨pair, names, request⟩ := parts
      have haccepted : Standing.Accepted r { key := some key } :=
        ⟨normal, key, hnormal, rfl, by rw [hsigned]; rfl⟩
      refine Conduct.keeps_bind.mpr ((keeps_lockDomain haccepted ⟨rfl, rfl, rfl⟩
        normal.primary mode).mono ?_)
      rintro _ j (e | lock) ⟨rfl, hlocked⟩
      · exact ⟨rfl, concluded_of_refused hlocked.1 hlocked.2⟩
      · refine Conduct.keeps_bind.mpr ((keeps_issueHeld hlocked (fresh_of_key _)).mono ?_)
        rintro _ j x ⟨rfl, hconcluded⟩
        -- letting the domain go adds nothing
        refine Conduct.keeps_bind.mpr (Conduct.keeps_bind.mpr (Conduct.keeps_perform.mpr
          ⟨⟨trivial, rfl⟩, fun _ _ => ?_⟩))
        refine Conduct.keeps_bind.mpr (Conduct.keeps_perform.mpr ⟨⟨trivial, rfl⟩, fun _ _ => ?_⟩)
        exact Conduct.keeps_perform.mpr ⟨⟨trivial, rfl⟩, fun _ _ => ⟨rfl, hconcluded⟩⟩

end Whole

end CertSteward
