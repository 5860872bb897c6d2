import CertSteward.Issuance.Run
import CertSteward.Proofs.Run.Conduct

/-!
# What a run asks for while it holds its domain

A run that holds its domain looks at clocks, talks to the authority, asks which domains are served,
looks at slots and waits for time, slots and the jobs that it sends. It never asks for its domain
again and never lets it go: that is done around it. Nor does it read or change the store, or wait
for a permit.

## Main definitions

* `Act.IsHeldWork` — the requests of a run that holds its domain
* `Act.IsIssuing` — the requests of a run
* `Driving.Only` — programs that may fail, all of whose requests are of one kind
* `Driving.Within` — programs that may fail and stay within one state of the issuance
* `AuthorityRequest.Orders` — the requests of a run for a list of names

## Main results

* `Driving.within_awaitCertificate` and others — each step of a run stays within one state
* `orders_issueHeld` — a run orders what it is to order
* `only_issueHeld`, `only_issueCertificate` — all requests of a run are of these kinds
-/

namespace CertSteward

/-- The requests of a run that holds its domain. -/
def Act.IsHeldWork : Act → Prop
  | .now | .wallClock | .authority _ | .dns (.supports _) | .slots _ | .note (.debt _) => True
  | .watch | .unwatch | .wait (.sleep _) | .wait (.slot _) | .wait (.all _) => True
  | _ => False

/-- The requests of a run: it neither asks the store nor for permits, keeps no count of attempts, and
starts no job that it does not wait for. -/
def Act.IsIssuing : Act → Prop
  | .records _ | .newPermits _ | .givePermit _ | .wait (.permit _) | .spawn _ => False
  | .attempts _ | .setAttempts .. => False
  | _ => True

section

variable {S : Act → Prop} {α β : Type}

/-- All requests of a call that is tried again satisfy `S`. -/
theorem Steward.Only.retry {ε : Type} {again : ε → Bool} {call : Watched (Except ε α)}
    (hcall : Only S call.run) (now : S .now) (sleep : ∀ time, S (.wait (.sleep time)))
    (policy : BackoffPolicy) (retries : Nat) :
    Only S (CertSteward.retry policy retries again call).run := by
  have hfrom : ∀ start retries b, Only S (retryFrom again call start retries b).run := by
    intro start retries
    induction retries with
    | zero => exact fun _ => hcall
    | succ retries ih =>
      intro b
      refine hcall.run_bind fun x => ?_
      cases x with
      | ok a => exact only_run_pure _
      | error e =>
        change Only S (if again e then _ else _ : Watched _).run
        split
        · refine (only_run_perform now).run_bind fun t => ?_
          cases b.next? (t - start) with
          | none => exact only_run_pure _
          | some next => exact Only.run_bind (only_perform (sleep next.1)) fun _ => ih next.2
        · exact only_run_pure _
  exact (only_run_perform now).run_bind fun start => hfrom start retries _

/-- All requests of a call to the authority satisfy `S`. -/
theorem Steward.Only.callAuthority {settings : IssuanceSettings} {retries : Nat}
    {q : AuthorityRequest} (now : S .now) (sleep : ∀ time, S (.wait (.sleep time)))
    (asks : S (.authority q)) : Only S (CertSteward.callAuthority settings retries q).run := by
  refine .retry ?_ now sleep _ _
  refine (only_run_perform asks).run_bind fun ⟨reply, time⟩ => ?_
  change Only _ (if _ then _ else _ : Watched _).run
  split
  · exact Only.run_bind (only_perform (sleep _)) fun _ => only_run_pure _
  · exact Only.run_bind (only_perform (sleep _)) fun _ => only_run_pure _

end

/-! ### Programs that may fail -/

/-- The requests of a run that holds its domain, where it asks the authority only for what `Q`
says. -/
def Act.IsWorkFor (Q : AuthorityRequest → Prop) (a : Act) : Prop :=
  a.IsHeldWork ∧ ∀ q, a = .authority q → Q q

namespace Driving

section Only

variable (S : Act → Prop) {α β : Type}

/-- All requests of a program that may fail satisfy `S`. -/
def Only (m : Driving α) : Prop := ∀ t, Steward.Only S (m.run.run t)

variable {S} {m : Driving α} {f : α → Driving β}

theorem only_pure (a : α) : Only S (pure a : Driving α) := fun _ => trivial

theorem only_get : Only S (get : Driving RunState) := fun _ => trivial

theorem only_modify (f : RunState → RunState) : Only S (modify f : Driving PUnit) := fun _ => trivial

theorem Only.bind (hm : Only S m) (hf : ∀ a, Only S (f a)) : Only S (m >>= f) := by
  intro t
  refine (hm t).bind ?_
  rintro ⟨a | a, t⟩
  · trivial
  · exact hf a t

theorem only_advance (e : IssuanceEvent) : Only S (advance e) := by
  refine only_get.bind fun t => ?_
  cases t.machine.apply e with
  | ok machine => exact only_modify _
  | error m => exact fun _ => trivial

end Only

/-- A path through a program that may fail and another ends where the first failed, or passes
through the end of the first. -/
theorem ends_bind {α β : Type} {m : Driving α} {f : α → Driving β} {b c : Bool} {t t' : RunState}
    {path : List Happening} {x : Except IssuanceError β}
    (h : Steward.Ends b ((m >>= f).run.run t) path c (x, t')) :
    (∃ e, x = .error e ∧ Steward.Ends b (m.run.run t) path c (.error e, t')) ∨
      ∃ first second d a t₁, path = first ++ second ∧
        Steward.Ends b (m.run.run t) first d (.ok a, t₁) ∧
        Steward.Ends d ((f a).run.run t₁) second c (x, t') := by
  obtain ⟨first, second, d, ⟨y, t₁⟩, rfl, hm, hf⟩ := Steward.ends_bind_iff.mp h
  cases y with
  | ok a => exact .inr ⟨first, second, d, a, t₁, rfl, hm, hf⟩
  | error e =>
    obtain ⟨rfl, rfl, heq⟩ := Steward.ends_done_iff.mp hf
    cases heq
    rw [List.append_nil]
    exact .inl ⟨e, rfl, hm⟩

section Within

variable (Q : AuthorityRequest → Prop) {α β σ : Type}

/-- A program that may fail and stays within one state of the issuance, where it asks the authority
only for what `Q` says. -/
def Within (m : Driving α) : Prop := Only (Act.IsWorkFor Q) m ∧
  ∀ t, Steward.Yields (fun x => x.2.machine = t.machine) (m.run.run t)

variable {Q} {m : Driving α} {f : α → Driving β}

theorem Within.only (h : Within Q m) : Only Act.IsHeldWork m := fun t => (h.1 t).mono fun _ => And.left

theorem within_pure (a : α) : Within Q (pure a : Driving α) :=
  ⟨only_pure a, fun _ => Steward.yields_pure rfl⟩

theorem within_throw (e : IssuanceError) : Within Q (throw e : Driving α) :=
  ⟨fun _ => trivial, fun _ => Steward.yields_pure rfl⟩

theorem within_get : Within Q (get : Driving RunState) :=
  ⟨only_get, fun _ => Steward.yields_pure rfl⟩

theorem within_modify {f : RunState → RunState} (hf : ∀ t, (f t).machine = t.machine) :
    Within Q (modify f : Driving PUnit) :=
  ⟨only_modify f, fun t => Steward.yields_pure (hf t)⟩

theorem within_challenges (f : ChallengeSet → ChallengeSet) : Within Q (challenges f) :=
  ⟨only_modify _, fun _ => Steward.yields_pure rfl⟩

theorem Within.bind (hm : Within Q m) (hf : ∀ a, Within Q (f a)) : Within Q (m >>= f) := by
  refine ⟨hm.1.bind fun a => (hf a).1, fun t b path c ⟨x, t'⟩ h => ?_⟩
  obtain ⟨e, rfl, hend⟩ | ⟨first, second, d, a, t₁, rfl, hfirst, hsecond⟩ := ends_bind h
  · exact hm.2 t _ _ _ _ hend
  · exact ((hf a).2 t₁ _ _ _ _ hsecond).trans (hm.2 t _ _ _ _ hfirst)

/-- A fault ends a program. -/
theorem within_throw_bind (e : IssuanceError) : Within Q (throw e >>= f) :=
  (within_throw e : Within Q (throw e : Driving β))

theorem Within.pure_bind {a : α} (h : Within Q (f a)) : Within Q (pure a >>= f) := h

theorem within_lift {p : Steward α} (h : Steward.Only (Act.IsWorkFor Q) p) :
    Within Q (liftM p : Driving α) := by
  refine ⟨fun t => (h.bind fun _ => Steward.only_pure _).bind fun _ => Steward.only_pure _,
    fun t => ?_⟩
  change Steward.Yields _ ((p >>= fun a => pure (a, t)) >>=
    fun x => pure ((Except.ok x.1 : Except IssuanceError α), x.2))
  rw [bind_assoc]
  exact .bind fun a => Steward.yields_pure rfl

theorem within_perform {a : Act} (h : a.IsWorkFor Q) : Within Q (liftM (perform a) : Driving a.Answer) :=
  within_lift (Steward.only_perform h)

theorem within_orCancelled {p : Watched α} (h : Steward.Only (Act.IsWorkFor Q) p.run) :
    Within Q (orCancelled p) := by
  refine (within_lift h).bind fun x => ?_
  cases x with
  | none => exact within_throw _
  | some a => exact within_pure a

theorem Within.forM {f : α → Driving PUnit} (hf : ∀ a, Within Q (f a)) (l : List α) :
    Within Q (l.forM f) := by
  induction l with
  | nil => exact within_pure _
  | cons a l ih => exact (hf a).bind fun _ => ih

theorem Within.forIn {f : α → PUnit → Driving (ForInStep PUnit)} (hf : ∀ a u, Within Q (f a u))
    (l : List α) : Within Q (forIn l ⟨⟩ f) := by
  induction l with
  | nil => exact within_pure _
  | cons a l ih =>
    rw [List.forIn_cons]
    refine (hf a ⟨⟩).bind fun x => ?_
    cases x with
    | done u => exact within_pure u
    | yield u => exact ih

theorem Within.loop {body : σ → Driving (σ ⊕ α)} {exhausted : Driving α}
    (hbody : ∀ s, Within Q (body s)) (hexhausted : Within Q exhausted) :
    ∀ rounds s, Within Q (Program.loop body exhausted rounds s) := by
  intro rounds
  induction rounds with
  | zero => exact fun _ => hexhausted
  | succ rounds ih =>
    intro s
    refine (hbody s).bind fun x => ?_
    cases x with
    | inl s => exact ih s
    | inr a => exact within_pure a

theorem within_ofDns (x : Except DnsError α) : Within Q (ofDns x) := by
  cases x with
  | ok a => exact within_pure a
  | error e => exact within_throw _

end Within

/-! ### The steps of a run -/

section Steps

variable {Q : AuthorityRequest → Prop}
variable {settings : IssuanceSettings} {p : DnsPractice} {order : OrderHandle}

theorem within_call (retries : Nat) {q : AuthorityRequest} (hq : Q q) :
    Within Q (call settings retries q) := by
  have hasks : Act.IsWorkFor Q (.authority q) := ⟨trivial, by rintro _ ⟨⟩; exact hq⟩
  refine (within_orCancelled (.callAuthority ⟨trivial, nofun⟩ (fun _ => ⟨trivial, nofun⟩)
    hasks)).bind fun x => ?_
  cases x with
  | ok v => exact within_pure v
  | error e => exact within_throw e

theorem within_takeChallenge (a : Authorization) : Within Q (takeChallenge a) := by
  unfold takeChallenge
  by_cases hvalid : a.status = .valid
  · rw [if_pos hvalid]
    exact within_pure _
  rw [if_neg hvalid]
  cases a.status.isFailed with
  | true => exact within_throw_bind _
  | false =>
    cases a.challenge with
    | none => exact within_throw _
    | some c =>
      exact within_challenges fun set => set.insert
        { identifier := a.identifier, token := c.token, keyAuthorization := c.keyAuthorization
          url := c.url }

theorem within_checkServed (domain : String) : Within Q (checkServed domain) := by
  refine (within_perform (a := .dns (.supports domain)) ⟨trivial, nofun⟩).bind fun x =>
    (within_ofDns x).bind fun isServed => ?_
  cases isServed with
  | true => exact within_pure _
  | false => exact within_throw _

theorem within_makeAll (entries : List ChallengeEntry) : Within Q (makeAll p entries) := by
  refine (within_orCancelled ?_).bind fun results => ?_
  · exact Steward.Only.run_bind (Steward.only_perform ⟨trivial, nofun⟩) fun _ =>
      Steward.only_run_pure _
  refine Within.bind (.forIn (fun x _ => ?_) _) fun _ => Within.bind (within_modify ?_) fun _ =>
    (within_ofDns _).bind fun handles => (within_orCancelled ?_).bind fun x => within_ofDns x
  · change Within _ (if x.2.isOk = true then _ else _ : Driving _)
    split
    · exact (within_challenges _).bind fun _ => within_pure _
    · exact within_pure _
  · exact fun _ => rfl
  · unfold DnsPractice.awaitAll
    cases p.propagation with
    | none => exact Steward.only_run_pure _
    | some plan =>
      exact Steward.Only.run_bind (Steward.only_perform ⟨trivial, nofun⟩) fun _ =>
        Steward.only_run_pure _

theorem within_makeRecords : Within Q (makeRecords p) :=
  within_get.bind fun _ => Within.bind (.forM within_checkServed _) fun _ => within_makeAll _

theorem within_submit (hq : ∀ url, Q (.challengeReady order url)) (e : ChallengeEntry) :
    Within Q (submit settings order e) :=
  (within_call _ (hq e.url)).bind fun _ => within_challenges _

theorem within_pauseOrTimeOut (operation : String) (start : Duration) (b : Backoff) :
    Within Q (pauseOrTimeOut operation start b) := by
  refine (within_perform (a := .now) ⟨trivial, nofun⟩).bind fun now => ?_
  dsimp only
  cases b.next? (now - start) with
  | none => exact within_throw _
  | some next =>
    exact (within_orCancelled (Steward.only_perform ⟨trivial, nofun⟩)).bind fun _ => within_pure _

theorem within_awaitAuthorizations (hq : Q (.authorizations order)) :
    Within Q (awaitAuthorizations settings order) := by
  unfold awaitAuthorizations
  refine (within_perform (a := .now) ⟨trivial, nofun⟩).bind fun start =>
    .loop (fun b => ?_) (within_throw _) _ _
  unfold pollAuthorizations
  refine (within_call _ hq).bind fun as => (within_challenges _).bind fun _ => ?_
  cases as.find? fun a => a.status.isFailed with
  | some a => exact within_throw _
  | none =>
    change Within _ (if _ then _ else _)
    split
    · exact within_pure _
    · exact (within_pauseOrTimeOut _ _ _).bind fun _ => within_pure _

theorem within_awaitCertificate (hstate : Q (.orderState order)) (hpem : Q (.certificate order)) :
    Within Q (awaitCertificate settings order) := by
  unfold awaitCertificate
  refine (within_perform (a := .now) ⟨trivial, nofun⟩).bind fun start =>
    .loop (fun b => ?_) (within_throw _) _ _
  unfold pollCertificate
  refine (within_call _ hstate).bind fun state => ?_
  have hpause : Within Q (pauseOrTimeOut "order finalization" start b) :=
    within_pauseOrTimeOut _ start b
  by_cases hinvalid : state.status = .invalid
  · exact (if_pos hinvalid).symm ▸ within_throw_bind _
  rw [if_neg hinvalid]
  by_cases hvalid : state.status = .valid
  · rw [if_pos hvalid]
    refine (within_call _ hpem).bind fun pem => ?_
    cases pem with
    | some pem => exact within_pure _
    | none => exact hpause.bind fun _ => within_pure _
  · rw [if_neg hvalid]
    exact .pure_bind (hpause.bind fun _ => within_pure _)

end Steps

end Driving

/-! ### A whole run -/

/-- What a run for a list of names asks the authority for: an order for these names, and in the end
the certificate for its request. -/
def AuthorityRequest.Orders (names : List String) (request : List UInt8) : AuthorityRequest → Prop
  | newOrder ns => ns = names
  | finalize _ bytes => bytes = request
  | _ => True

open Driving in
theorem only_drive (p : IssuancePractice) (names : List String) (request : List UInt8) :
    Driving.Only (Act.IsWorkFor (AuthorityRequest.Orders names request))
      (drive p names request) := by
  let Q := AuthorityRequest.Orders names request
  have hcall : ∀ retries q, Q q → Only (Act.IsWorkFor Q) (call p.settings retries q) :=
    fun retries q hq => (within_call retries hq).1
  have htake : ∀ as : List Authorization, Only (Act.IsWorkFor Q) (as.forM takeChallenge) :=
    fun as => (Within.forM within_takeChallenge as).1
  have hmake : Only (Act.IsWorkFor Q) (makeRecords p.dns) := within_makeRecords.1
  have hsubmit : ∀ order (es : List ChallengeEntry),
      Only (Act.IsWorkFor Q) (es.forM (submit p.settings order)) := fun order es =>
    (Within.forM (within_submit fun _ => trivial) es).1
  have hvalid : ∀ order, Only (Act.IsWorkFor Q) (awaitAuthorizations p.settings order) :=
    fun order => (within_awaitAuthorizations trivial).1
  have hpem : ∀ order, Only (Act.IsWorkFor Q) (awaitCertificate p.settings order) := fun order =>
    (within_awaitCertificate trivial trivial).1
  exact (hcall _ .ensureAccount trivial).bind fun _ => (only_advance _).bind fun _ =>
    (hcall _ (.newOrder names) rfl).bind fun _ => (only_modify _).bind fun _ =>
    (only_advance _).bind fun _ =>
    (hcall _ (.authorizations _) trivial).bind fun _ => (only_advance _).bind fun _ =>
    (htake _).bind fun _ =>
    hmake.bind fun _ => (only_advance _).bind fun _ => only_get.bind fun _ =>
    (hsubmit _ _).bind fun _ => (only_advance _).bind fun _ =>
    (hvalid _).bind fun _ => (only_advance _).bind fun _ =>
    (hcall _ (.finalize _ request) rfl).bind fun _ => (hpem _).bind fun _ =>
    (only_advance _).bind fun _ => only_pure _

theorem only_tracked {Q : AuthorityRequest → Prop} (name value : String) :
    Steward.Only (Act.IsWorkFor Q) (DnsPractice.tracked name value) := by
  refine (Steward.only_perform (a := .slots (.find _)) ⟨trivial, nofun⟩).bind fun slot => ?_
  cases slot with
  | none => exact Steward.only_pure _
  | some slot =>
    have hrecord : Steward.Only (Act.IsWorkFor Q) (DnsPractice.recordIn slot).run :=
      Steward.Only.run_bind (Steward.only_perform ⟨trivial, nofun⟩) fun _ =>
        Steward.Only.run_bind
          (Steward.only_run_perform (a := .slots (.value slot)) ⟨trivial, nofun⟩) fun _ =>
          Steward.Only.run_bind
            (Steward.only_run_perform (a := .slots (.leave slot)) ⟨trivial, nofun⟩)
            fun _ => Steward.only_run_pure _
    exact hrecord.bind fun _ =>
      (Steward.only_perform (a := .slots (.release slot)) ⟨trivial, nofun⟩).bind
        fun _ => Steward.only_pure _

/-- Whoever cleans up asks the authority for nothing but to give an order up. -/
theorem only_cleanUp (p : IssuancePractice) (s : RunState) :
    Steward.Only (Act.IsWorkFor fun q => ∃ o, q = .release o) (cleanUp p s) := by
  refine Steward.Only.bind (.mapM (fun e => only_tracked _ _) _) fun tracked =>
    Steward.Only.bind ?_ fun failures => ?_
  · refine (Steward.only_perform ⟨trivial, nofun⟩).bind fun outcomes => ?_
    cases outcomes <;> exact Steward.only_pure _
  have hdebt : ∀ {q : Steward Nat}, Steward.Only (Act.IsWorkFor fun q => ∃ o, q = .release o) q →
      Steward.Only (Act.IsWorkFor fun q => ∃ o, q = .release o)
        (if p.countsDebt = true then perform (.note (.debt failures)) >>= fun _ => q else q) := by
    intro q hq
    split
    · exact (Steward.only_perform ⟨trivial, nofun⟩).bind fun _ => hq
    · exact hq
  refine hdebt ?_
  cases s.order with
  | none => exact Steward.only_pure _
  | some order =>
    have hrelease : Act.IsWorkFor (fun q => ∃ o, q = .release o) (.authority (.release order)) :=
      ⟨trivial, by rintro _ ⟨⟩; exact ⟨order, rfl⟩⟩
    exact (Steward.only_perform hrelease).bind fun _ => Steward.only_pure _

/-- A run that holds its domain orders what it is to order. -/
theorem orders_issueHeld (p : IssuancePractice) (domain : String) (names : List String)
    (request : List UInt8) (key : KeyPair) :
    Steward.Only (Act.IsWorkFor (AuthorityRequest.Orders names request))
      (issueHeld p domain names request key) := by
  refine (Steward.only_perform ⟨trivial, nofun⟩).bind fun started => Steward.Only.bind ?_
    fun (result, s) => (Steward.only_perform ⟨trivial, nofun⟩).bind fun _ =>
    ((only_cleanUp p s).mono ?_).bind fun failures =>
    (Steward.only_perform ⟨trivial, nofun⟩).bind fun now => ?_
  · refine (Steward.only_perform ⟨trivial, nofun⟩).bind fun isOn => ?_
    cases isOn with
    | true => exact only_drive p names request {}
    | false => exact Steward.only_pure _
  · rintro a ⟨hwork, hrelease⟩
    refine ⟨hwork, fun q hq => ?_⟩
    obtain ⟨o, rfl⟩ := hrelease q hq
    trivial
  · dsimp only
    split
    · exact (Steward.only_perform ⟨trivial, nofun⟩).bind fun _ => Steward.only_pure _
    · exact Steward.only_pure _
    · exact Steward.only_pure _

/-- **All requests of a run that holds its domain are of one kind.** -/
theorem only_issueHeld (p : IssuancePractice) (domain : String) (names : List String)
    (request : List UInt8) (key : KeyPair) :
    Steward.Only Act.IsHeldWork (issueHeld p domain names request key) :=
  (orders_issueHeld p domain names request key).mono fun _ => And.left

section

open Steward

theorem only_lockDomain {S : Act → Prop} (locks : ∀ a, S (.locks a))
    (waits : ∀ lock, S (.wait (.lock lock))) (watches : S .watch) (unwatches : S .unwatch)
    (domain : String) (mode : LockMode) : Only S (lockDomain domain mode) := by
  cases mode with
  | wait =>
    refine (only_perform watches).bind fun isOn => ?_
    cases isOn with
    | false => exact only_pure _
    | true =>
      refine (only_perform (locks _)).bind fun lock => (only_perform (waits _)).bind fun got => ?_
      cases got with
      | some => exact (only_perform unwatches).bind fun _ => only_pure _
      | none =>
        exact (only_perform unwatches).bind fun _ => (only_perform (locks _)).bind fun _ =>
          only_pure _
  | skip =>
    refine Only.bind ((only_perform (locks _)).bind fun lock => (only_perform (locks _)).bind
      fun got => ?_) fun lock => ?_
    · cases got with
      | true => exact only_pure _
      | false => exact (only_perform (locks _)).bind fun _ => only_pure _
    · cases lock <;> exact only_pure _

theorem only_unlockDomain {S : Act → Prop} (locks : ∀ a, S (.locks a)) (domain : String)
    (lock : Nat) : Only S (unlockDomain domain lock) :=
  (only_perform (locks _)).bind fun _ => (only_perform (locks _)).bind fun _ =>
    only_perform (locks _)

/-- **A run keeps to itself.** -/
theorem only_issueCertificate (p : IssuancePractice) (r : IssuanceRequest) (mode : LockMode) :
    Only Act.IsIssuing (issueCertificate p r mode) := by
  unfold issueCertificate
  cases r.normal with
  | error e => exact only_pure _
  | ok r =>
    refine (only_perform trivial).bind fun key => ?_
    cases r.signed key with
    | error e => exact only_pure _
    | ok signed =>
      refine (only_lockDomain (fun _ => trivial) (fun _ => trivial) trivial trivial r.primary
        mode).bind fun lock => ?_
      cases lock with
      | error e => exact only_pure _
      | ok lock =>
        refine ((only_issueHeld p _ _ _ _).mono ?_).bind fun result =>
          (only_unlockDomain (fun _ => trivial) _ _).bind fun _ => only_pure _
        intro a hwork
        cases a with
        | records | newPermits | givePermit | spawn | attempts | setAttempts => exact hwork.elim
        | wait v =>
          cases v with
          | permit => exact hwork.elim
          | _ => trivial
        | _ => trivial

end

end CertSteward
