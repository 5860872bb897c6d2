import CertSteward.Proofs.Issuance.Polling
import CertSteward.Proofs.Run.Retries
import CertSteward.Run.Jobs

/-!
# How often a run makes its calls

The authority and the DNS service are asked by one kind of caller, which makes a call again while it
fails in a way that may pass. A call to the authority that lasts too long fails in such a way. To
finalize an order is asked for just once, since an authority that has begun to do so refuses to be
asked again. The records of challenges are made by jobs of their own, so what a record costs is
counted over the strand that asks for it and the job that it starts.

## Main definitions

* `AuthorityRequest.received` — the answer that a caller gets
* `Act.authorityCalls`, `Act.finalizations`, `Act.creations`, `Act.spawns` — what is counted
* `Weave.spawnedBy` — the jobs that a strand started

## Main results

* `ends_callOnce_iff` — one call to the authority is one request
* `atMost_finalizations` — a whole run asks at most once to finalize
* `Weave.creations_le` — how often a record is asked for until it is made
* `retried_to_the_end` — how calls are made again, for the authority and for challenge records
-/

namespace CertSteward

open Steward

/-! ### What is counted -/

/-- Requests to the authority. -/
def Act.authorityCalls : Act → Nat
  | .authority _ => 1
  | _ => 0

/-- Requests to finalize an order. -/
def Act.finalizations : Act → Nat
  | .authority (.finalize ..) => 1
  | _ => 0

/-- Requests for a challenge record. -/
def Act.creations : Act → Nat
  | .dns (.create ..) => 1
  | _ => 0

/-- Jobs that are started. -/
def Act.spawns : Act → Nat
  | .spawn _ => 1
  | _ => 0

/-- What a program does not ask for is not counted. -/
theorem Steward.Only.atMost_zero {α : Type} {S : Act → Prop} {w : Act → Nat} {p : Steward α}
    (h : Only S p) (hS : ∀ a, S a → w a = 0) : AtMost w 0 p := by
  intro b path c q hgoes
  have hpath := h.goes hgoes
  clear hgoes
  induction path with
  | nil => exact Nat.le_refl 0
  | cons y path ih =>
    obtain ⟨hy, hpath⟩ := List.forall_mem_cons.mp hpath
    rw [weight_cons, hS _ hy, Nat.zero_add]
    exact ih hpath

theorem Steward.AtMost.map {α β : Type} {w : Act → Nat} {n : Nat} {p : Steward α}
    (h : AtMost w n p) (f : α → β) : AtMost w n (f <$> p) :=
  h.bind (n := 0) fun _ => atMost_pure _

/-! ### Calls to the authority -/

/-- The answer that a caller gets who waits no longer than `limit`. -/
def AuthorityRequest.received (limit : Duration) (q : AuthorityRequest)
    (answer : q.Reply × Duration) : q.Reply :=
  if answer.2 ≤ limit then answer.1 else .error (.timeout q.operation limit)

section

variable {limit : Duration} {q : AuthorityRequest} {b c : Bool} {path : List Happening}

/-- Whichever way a call goes, the caller pauses and then has an answer. -/
theorem callOnce_eq : callOnce limit q = do
    let answer ← perform (.authority q)
    pause (min answer.2 limit)
    return q.received limit answer := by
  unfold callOnce
  congr 1
  funext ⟨reply, time⟩
  unfold AuthorityRequest.received
  dsimp only
  split
  · next hle => rw [Nat.min_eq_left hle]
  · next hlt => rw [Nat.min_eq_right (Nat.le_of_not_le hlt)]

/-- **One call to the authority is one request**, and a pause for as long as it takes and the caller
waits. If the pause is interrupted there is no answer. -/
theorem ends_callOnce_iff {o : Option q.Reply} :
    Ends b (callOnce limit q).run path c o ↔ ∃ (answer : q.Reply × Duration) (slept : Option Unit),
      path = [⟨.authority q, answer⟩, ⟨.wait (.sleep (min answer.2 limit)), slept⟩] ∧
        (Act.wait (.sleep (min answer.2 limit))).CanGet b slept ∧ c = b ∧
        o = slept.map fun _ => q.received limit answer := by
  rw [callOnce_eq, ends_run_bind_iff]
  constructor
  · rintro ⟨_, _, _, _, rfl, hask, hrest⟩
    obtain ⟨answer, rfl, -, rfl, rfl⟩ := ends_run_perform_iff.mp hask
    obtain ⟨hnone, -⟩ | ⟨_, ⟨⟩, hrest⟩ := hrest
    · cases hnone
    obtain ⟨_, _, _, slept, rfl, hsleep, hlast⟩ := ends_run_bind_iff.mp hrest
    obtain ⟨rfl, hcan, rfl⟩ := ends_run_await_iff.mp hsleep
    obtain ⟨rfl, rfl, rfl, rfl⟩ | ⟨_, rfl, hlast⟩ := hlast
    · exact ⟨answer, none, rfl, hcan, rfl, rfl⟩
    · obtain ⟨rfl, rfl, rfl⟩ := ends_run_pure_iff.mp hlast
      exact ⟨answer, some (), rfl, hcan, rfl, rfl⟩
  · rintro ⟨answer, slept, rfl, hcan, rfl, rfl⟩
    refine ⟨[⟨.authority q, answer⟩], _, c, some answer, rfl,
      ends_run_perform_iff.mpr ⟨answer, rfl, trivial, rfl, rfl⟩, .inr ⟨answer, rfl, ?_⟩⟩
    refine ends_run_bind_iff.mpr ⟨_, [], c, slept, rfl, ends_run_await_iff.mpr ⟨rfl, hcan, rfl⟩, ?_⟩
    cases slept with
    | none => exact .inl ⟨rfl, rfl, rfl, rfl⟩
    | some u => exact .inr ⟨u, rfl, ends_run_pure_iff.mpr ⟨rfl, rfl, rfl⟩⟩

/-- A call that the caller does not wait for to the end may be made again. -/
theorem AuthorityRequest.received_late {answer : q.Reply × Duration} (h : limit < answer.2) :
    ∃ e, q.received limit answer = .error e ∧ e.isRetryable = true :=
  ⟨_, if_neg (Nat.not_le.mpr h), rfl⟩

/-- There are as many requests to the authority as calls. -/
theorem authorityCalls_callOnce {x : q.Reply} (h : Ends b (callOnce limit q).run path c (some x)) :
    weight Act.authorityCalls path = 1 := by
  obtain ⟨answer, slept, rfl, -⟩ := ends_callOnce_iff.mp h
  rfl

end

/-! ### A whole run finalizes once -/

/-- Requests other than to finalize. -/
def AuthorityRequest.IsOther : AuthorityRequest → Prop
  | finalize .. => False
  | _ => True

theorem Act.IsWorkFor.finalizations {a : Act} (h : a.IsWorkFor AuthorityRequest.IsOther) :
    a.finalizations = 0 := by
  cases a with
  | authority q =>
    cases q with
    | finalize => exact (h.2 _ rfl).elim
    | _ => rfl
  | _ => rfl

namespace Driving

variable {α β : Type} {m : Driving α} {f : α → Driving β} {n : Nat}

/-- What asks for other things does not finalize. -/
theorem Within.finalizations (h : Within AuthorityRequest.IsOther m) :
    AtMost Act.finalizations 0 m :=
  fun t => (h.1 t).atMost_zero fun _ => Act.IsWorkFor.finalizations

theorem Within.then_finalizations (h : Within AuthorityRequest.IsOther m)
    (hf : ∀ a, AtMost Act.finalizations n (f a)) : AtMost Act.finalizations n (m >>= f) :=
  (h.finalizations.bind hf).mono (Nat.le_of_eq (Nat.zero_add n))

theorem advance_then_finalizations {e : IssuanceEvent} {f : Unit → Driving β}
    (hf : ∀ a, AtMost Act.finalizations n (f a)) :
    AtMost Act.finalizations n (advance e >>= f) := by
  have hadvance : AtMost Act.finalizations 0 (advance e) := fun t =>
    (only_advance (S := fun _ => False) e t).atMost_zero fun _ h => h.elim
  exact (hadvance.bind hf).mono (Nat.le_of_eq (Nat.zero_add n))

theorem finalizations_drive (p : IssuancePractice) (names : List String) (request : List UInt8) :
    AtMost Act.finalizations 1 (drive p names request) := by
  have hsleep : ∀ time, Act.finalizations (.wait (.sleep time)) = 0 := fun _ => rfl
  have hfinalize : ∀ order, AtMost Act.finalizations 1
      (call p.settings 0 (.finalize order request)) := fun order => atMost_call hsleep 0 _
  have hend : ∀ order, AtMost Act.finalizations 0 (do
      let chain ← awaitCertificate p.settings order
      advance .certificateDownloaded
      return chain) := fun order =>
    (within_awaitCertificate trivial trivial).then_finalizations fun _ =>
      advance_then_finalizations fun _ => atMost_pure _
  unfold drive
  refine (within_call _ trivial).then_finalizations fun _ => advance_then_finalizations fun _ => ?_
  refine (within_call _ trivial).then_finalizations fun order => ?_
  refine (within_modify (f := fun s => { s with order := some order }) fun _ => rfl).then_finalizations
    fun _ => ?_
  refine advance_then_finalizations fun _ => (within_call _ trivial).then_finalizations fun as => ?_
  refine advance_then_finalizations fun _ => ?_
  refine (Within.forM within_takeChallenge as).then_finalizations fun _ => ?_
  refine within_makeRecords.then_finalizations fun _ => advance_then_finalizations fun _ => ?_
  refine within_get.then_finalizations fun t => ?_
  refine (Within.forM (within_submit fun _ => trivial) _).then_finalizations fun _ => ?_
  refine advance_then_finalizations fun _ => ?_
  refine (within_awaitAuthorizations trivial).then_finalizations fun _ => ?_
  exact advance_then_finalizations fun _ => (hfinalize order).bind fun _ => hend order

end Driving

theorem finalizations_issueHeld (p : IssuancePractice) (domain : String) (names : List String)
    (request : List UInt8) (key : KeyPair) :
    AtMost Act.finalizations 1 (issueHeld p domain names request key) := by
  have hdrive : AtMost Act.finalizations 1 (driveWatched p names request) := by
    refine (atMost_perform .watch).bind (n := 1) fun isOn => ?_
    cases isOn with
    | true => exact Driving.finalizations_drive p names request {}
    | false => exact atMost_pure _
  have hcleanUp : ∀ s, AtMost Act.finalizations 0 (cleanUp p s) := fun s =>
    (only_cleanUp p s).atMost_zero fun a ha => by
      refine Act.IsWorkFor.finalizations ⟨ha.1, fun q hq => ?_⟩
      obtain ⟨o, rfl⟩ := ha.2 q hq
      trivial
  refine (atMost_perform .now).bind (n := 1) fun started => hdrive.bind (n := 0) fun (result, s) =>
    (atMost_perform .unwatch).bind (n := 0) fun _ => (hcleanUp s).bind fun failures =>
    (atMost_perform .now).bind (n := 0) fun now => ?_
  dsimp only
  split
  · exact (atMost_perform .wallClock).bind (n := 0) fun _ => atMost_pure _
  · exact atMost_pure _
  · exact atMost_pure _

/-- **A whole run asks at most once to finalize.** -/
theorem atMost_finalizations (p : IssuancePractice) (r : IssuanceRequest) (mode : LockMode) :
    AtMost Act.finalizations 1 (issueCertificate p r mode) := by
  have hlock : ∀ domain, AtMost Act.finalizations 0 (lockDomain domain mode) := fun domain =>
    (only_lockDomain (S := fun a => a.finalizations = 0) (fun _ => rfl) (fun _ => rfl) rfl rfl
      domain mode).atMost_zero fun _ => id
  have hunlock : ∀ domain lock, AtMost Act.finalizations 0 (unlockDomain domain lock) :=
    fun domain lock => (only_unlockDomain (S := fun a => a.finalizations = 0) (fun _ => rfl)
      domain lock).atMost_zero fun _ => id
  unfold issueCertificate
  cases r.normal with
  | error e => exact atMost_pure _
  | ok r =>
    refine (atMost_perform (.freshKey p.settings.key)).bind (n := 1) fun key => ?_
    cases r.signed key with
    | error e => exact atMost_pure _
    | ok signed =>
      refine (hlock r.primary).bind (n := 1) fun lock => ?_
      cases lock with
      | error e => exact atMost_pure _
      | ok lock =>
        exact (finalizations_issueHeld p _ _ _ _).bind (n := 0) fun _ =>
          (hunlock _ _).bind (n := 0) fun _ => atMost_pure _

/-! ### Challenge records -/

namespace DnsPractice

/-- Asking once for a record is one request, whose answer is the result. -/
theorem creations_createOnce {name value : String} {b c : Bool} {path : List Happening}
    {x : Except DnsError String} (h : Ends b (createOnce name value).run path c (some x)) :
    weight Act.creations path = 1 ∧
      ∃ time, path.head? = some ⟨.dns (.create name value), (x, time)⟩ := by
  obtain ⟨_, rest, _, _, rfl, hask, hrest⟩ := ends_run_bind_iff.mp h
  obtain ⟨⟨result, time⟩, rfl, -, rfl, rfl⟩ := ends_run_perform_iff.mp hask
  obtain ⟨hnone, -⟩ | ⟨_, ⟨⟩, hrest⟩ := hrest
  · cases hnone
  cases time with
  | none =>
    obtain ⟨rfl, rfl, hx⟩ := ends_run_pure_iff.mp hrest
    cases hx
    exact ⟨rfl, none, rfl⟩
  | some time =>
    obtain ⟨_, _, _, _, rfl, hsleep, ⟨-, -, -, hnone⟩ | ⟨_, rfl, hlast⟩⟩ :=
      ends_run_bind_iff.mp hrest
    · cases hnone
    obtain ⟨rfl, -, rfl⟩ := ends_run_await_iff.mp hsleep
    obtain ⟨_, _, _, _, rfl, hsettle, ⟨-, -, -, hnone⟩ | ⟨_, rfl, hdone⟩⟩ :=
      ends_run_bind_iff.mp hlast
    · cases hnone
    obtain ⟨_, rfl, -, rfl, -⟩ := ends_run_perform_iff.mp hsettle
    obtain ⟨rfl, rfl, hx⟩ := ends_run_pure_iff.mp hdone
    cases hx
    exact ⟨rfl, some time, rfl⟩

theorem atMost_createOnce (name value : String) :
    AtMost Act.creations 1 (createOnce name value).run := by
  refine (atMost_run_perform (.dns (.create name value))).run_bind (n := 0) fun (result, time) => ?_
  cases time with
  | none => exact atMost_run_pure _
  | some time =>
    exact (atMost_pause time).run_bind (n := 0) fun _ =>
      (atMost_run_perform (.dns .settle)).run_bind (n := 0) fun _ => atMost_run_pure _

/-- A job that makes a record asks for it once more than it is allowed to try again. -/
theorem atMost_createRecord (p : DnsPractice) (slot : Nat) (name value : String) :
    AtMost Act.creations (p.retries + 1) (p.createRecord slot name value) := by
  have hslots : ∀ a : TableAct SlotKey (Option String), AtMost Act.creations 0 (slotStep a) :=
    fun a => atMost_perform (.slots a)
  have hretry : AtMost Act.creations (p.retries + 1)
      (retry p.delays p.retries DnsError.isRetryable (createOnce name value)).run := by
    refine ((atMost_run_perform .now).run_bind fun start => (atMost_createOnce name value).retryFrom
      (n := 0) (fun _ => Nat.le_refl 0) start p.retries _).mono ?_
    change 0 + (1 * (p.retries + 1) + 0 * p.retries) ≤ p.retries + 1
    omega
  refine hretry.bind (n := 0) fun result => ?_
  have hrest : ∀ x : Except DnsError String, AtMost Act.creations 0 (do
      slotStep (.leave slot)
      slotStep (.release slot)
      return x) := fun x =>
    (hslots _).bind (n := 0) fun _ => (hslots _).bind (n := 0) fun _ => atMost_pure x
  dsimp only
  cases result.getD (.error givenUp) with
  | ok id => exact (hslots (.put slot (some id))).bind (n := 0) fun _ => hrest _
  | error e => exact hrest _

/-- What a caller does that wants a record: it asks for none itself, and starts only jobs that make
this record. -/
def Provides (name value : String) : Act → Prop
  | .dns _ => False
  | .spawn j => ∃ slot, j = .createRecord slot name value
  | _ => True

theorem Provides.creations {name value : String} {a : Act} (h : Provides name value a) :
    a.creations = 0 := by
  cases a with
  | dns => exact h.elim
  | _ => rfl

theorem only_provisionHeld (slot : Nat) (name value : String) :
    Only (Provides name value) (provisionHeld slot name value).run := by
  refine Only.run_bind (only_run_perform (a := .slots (.share slot)) trivial) fun _ =>
    Only.run_bind (only_run_perform (a := .spawn (.createRecord slot name value)) ⟨slot, rfl⟩)
      fun job => Only.run_bind (only_perform (a := .wait (.join job)) trivial) fun outcome => ?_
  split
  · exact only_run_pure _
  · refine Only.run_bind (only_run_perform (a := .slots (.discard (slotKey name value) slot)) trivial)
      fun _ => ?_
    split <;> exact only_run_pure _

theorem only_provision (name value : String) :
    Only (Provides name value) (provision name value).run := by
  refine (only_perform (a := .slots (.obtain (slotKey name value))) trivial).bind fun slot =>
    Only.bind ?_ fun result => (only_perform (a := .slots (.release slot)) trivial).bind
      fun _ => only_pure _
  refine Only.run_bind (only_perform (a := .wait (.slot slot)) trivial) fun _ =>
    Only.run_bind (only_run_perform (a := .slots (.value slot)) trivial) fun id => ?_
  split
  · exact Only.run_bind (only_run_perform (a := .slots (.leave slot)) trivial)
      fun _ => only_run_pure _
  · exact only_provisionHeld slot name value

/-- Whoever wants a record starts at most one job. -/
theorem atMost_spawns_provision (name value : String) :
    AtMost Act.spawns 1 (provision name value).run := by
  have hslots : ∀ a : TableAct SlotKey (Option String), AtMost Act.spawns 0 (slotStep a) :=
    fun a => atMost_perform (.slots a)
  have hheld : ∀ slot, AtMost Act.spawns 1 (provisionHeld slot name value).run := fun slot => by
    refine (atMost_run_perform (.slots (.share slot))).run_bind (n := 1) fun _ =>
      (atMost_run_perform (.spawn (.createRecord slot name value))).run_bind (n := 0) fun job =>
      AtMost.run_bind (n := 0) (atMost_perform (.wait (.join job))) fun outcome => ?_
    split
    · exact atMost_run_pure _
    · refine (atMost_run_perform (.slots (.discard (slotKey name value) slot))).run_bind (n := 0)
        fun _ => ?_
      split <;> exact atMost_run_pure _
  refine (hslots _).bind (n := 1) fun slot => AtMost.bind (m := 1) (n := 0) ?_ fun result =>
    (hslots _).bind (n := 0) fun _ => atMost_pure _
  refine AtMost.run_bind (n := 1) (atMost_perform (.wait (.slot slot))) fun _ =>
    (atMost_run_perform (.slots (.value slot))).run_bind (n := 1) fun id => ?_
  split
  · exact ((atMost_run_perform (.slots (.leave slot))).run_bind (n := 0)
      fun _ => atMost_run_pure _).mono (Nat.zero_le 1)
  · exact hheld slot

end DnsPractice

namespace Weave

variable {β : Type}

/-- The jobs that a strand started, by their numbers. -/
def spawnedBy (w : Weave β) (i : Nat) : List Nat :=
  (w.path i).filterMap fun
    | ⟨.spawn _, n⟩ => some n
    | _ => none

theorem mem_spawnedBy {w : Weave β} {i n : Nat} (h : n ∈ w.spawnedBy i) :
    ∃ j, ⟨.spawn j, n⟩ ∈ w.path i := by
  obtain ⟨⟨a, answer⟩, hmem, heq⟩ := List.mem_filterMap.mp h
  cases a with
  | spawn j =>
    cases heq
    exact ⟨j, hmem⟩
  | _ => cases heq

theorem length_spawnedBy (w : Weave β) (i : Nat) :
    (w.spawnedBy i).length = weight Act.spawns (w.path i) := by
  unfold spawnedBy
  induction w.path i with
  | nil => rfl
  | cons y path ih =>
    obtain ⟨a, answer⟩ := y
    rw [weight_cons, ← ih, List.filterMap_cons]
    cases a with
    | spawn j => exact Nat.add_comm _ 1
    | _ => exact (Nat.zero_add _).symm

variable {p : RenewalPractice} {mains : List (Steward β)} {w : Weave β} {i : Nat} {s : Strand β}
  {j : Job}

/-- A strand of a job is on its way through its program. -/
theorem goes_of_job (h : Strides p.program (start mains) w) (here : w.strands[i]? = some s)
    (hjob : s.job = some j) : ∃ b c q, Goes b (p.program j) (w.path i) c q := by
  obtain ⟨b, q, -, hbegin, hgoes⟩ := onCourse_of_strides h i s here
  obtain ⟨hnone, -⟩ | ⟨j', hj', rfl⟩ := hbegin
  · rw [hnone] at hjob
    cases hjob
  · cases hj'.symm.trans hjob
    obtain ⟨q', hq'⟩ := goes_of_map hgoes
    exact ⟨b, _, q', hq'⟩

theorem sum_le_of_length_le_one {l : List Nat} {n : Nat} (hlength : l.length ≤ 1)
    (h : ∀ x ∈ l, x ≤ n) : l.sum ≤ n := by
  match l with
  | [] => exact Nat.zero_le n
  | [x] => simpa using h x
  | _ :: _ :: _ => simp at hlength

/-- **How often a record is asked for until it is made.** A strand that wants a record and the job
that it starts ask for it at most once more than they are allowed to try again. -/
theorem creations_le {name value : String} (h : Strides p.program (start mains) w)
    (here : w.strands[i]? = some s) (hjob : s.job = some (.provision name value)) :
    weight Act.creations (w.path i) +
      ((w.spawnedBy i).map fun k => weight Act.creations (w.path k)).sum ≤
      p.issuance.dns.retries + 1 := by
  obtain ⟨b, c, q, hgoes⟩ := goes_of_job h here hjob
  have honly : Only (DnsPractice.Provides name value) (p.program (.provision name value)) :=
    (DnsPractice.only_provision name value).bind fun _ => only_pure _
  have hspawns : AtMost Act.spawns 1 (p.program (.provision name value)) :=
    (DnsPractice.atMost_spawns_provision name value).map _
  have hself : weight Act.creations (w.path i) = 0 :=
    Nat.le_zero.mp (honly.atMost_zero (fun _ => DnsPractice.Provides.creations) _ _ _ _ hgoes)
  rw [hself, Nat.zero_add]
  refine sum_le_of_length_le_one ?_ fun x hx => ?_
  · rw [List.length_map, length_spawnedBy]
    exact hspawns _ _ _ _ hgoes
  · obtain ⟨k, hk, rfl⟩ := List.mem_map.mp hx
    obtain ⟨j, hj⟩ := mem_spawnedBy hk
    obtain ⟨slot, rfl⟩ := honly.goes hgoes _ hj
    obtain ⟨t, ht, htjob, -⟩ := here_of_spawn h hj
    obtain ⟨b', c', q', hgoes'⟩ := goes_of_job h ht htjob
    exact (DnsPractice.atMost_createRecord _ slot name value).map _ _ _ _ _ hgoes'

end Weave

/-! ### All of it together -/

/-- There are as many requests to the authority as calls. -/
theorem weight_callAuthority {s : IssuanceSettings} {q : AuthorityRequest} {retries : Nat}
    {b c : Bool} {path : List Happening} {x : q.Reply}
    (h : Ends b (callAuthority s retries q).run path c (some x)) :
    ∃ n ≤ retries, weight Act.authorityCalls path = n + 1 := by
  obtain ⟨start, ts, last, tail, rfl, hretried, hts, ⟨b', hlast⟩, htail⟩ := retried_of_ends h
  refine ⟨ts.length, hretried.bound, ?_⟩
  rw [weight_of_calls rfl (fun _ => rfl) (fun t ht => ?_) (authorityCalls_callOnce hlast) htail,
    Nat.one_mul]
  obtain ⟨b₁, b₂, hends⟩ := hts t ht
  exact authorityCalls_callOnce hends

/-- There are as many requests for a record as calls. -/
theorem weight_createOnce {p : DnsPractice} {name value : String} {b c : Bool}
    {path : List Happening} {x : Except DnsError String}
    (h : Ends b (retry p.delays p.retries DnsError.isRetryable
      (DnsPractice.createOnce name value)).run path c (some x)) :
    ∃ n ≤ p.retries, weight Act.creations path = n + 1 := by
  obtain ⟨start, ts, last, tail, rfl, hretried, hts, ⟨b', hlast⟩, htail⟩ := retried_of_ends h
  refine ⟨ts.length, hretried.bound, ?_⟩
  rw [weight_of_calls rfl (fun _ => rfl) (fun t ht => ?_)
    (DnsPractice.creations_createOnce hlast).1 htail, Nat.one_mul]
  obtain ⟨b₁, b₂, hends⟩ := hts t ht
  exact (DnsPractice.creations_createOnce hends).1

/-- **How calls are made again, to the end.** Whatever is called: along every way through a caller
all calls but the last failed in a way that may pass, there is at most one more than is allowed to
be tried again, the result is that of the last one, and that one did its work, or failed for good,
or was the last that is allowed, or ended when the budget was spent; and there is such a way for
every sequence of calls and readings of the clock. A call to the authority is one request, and
fails in a way that may pass if it takes too long; one that may not be tried again is made once, and
a whole run finalizes at most once. A call for a record is one request, and a strand that wants a
record asks for it, with the job that it starts, at most once more than it may try again. -/
theorem retried_to_the_end :
    (∀ {ε α : Type} (policy : BackoffPolicy) (again : ε → Bool) (retries : Nat)
        (call : Watched (Except ε α)) (b : Bool),
      (∀ path c x, Ends b (retry policy retries again call).run path c (some x) →
        ∃ (start : Duration) (ts : List (FailedTry ε)) (last tail : List Happening),
          path = ⟨.now, start⟩ :: (ts.flatMap FailedTry.whole ++ (last ++ tail)) ∧
          Retried policy again retries start ts x tail ∧
          (∀ t ∈ ts, ∃ b₁ b₂, Ends b₁ call.run t.path b₂ (some (.error t.error))) ∧
          (∃ b₁, Ends b₁ call.run last c (some x)) ∧ ∀ y ∈ tail, y.1 = .now) ∧
      ∀ start (calls : Nat → List Happening × Except ε α) (readings : Nat → Duration),
        (∀ k, Ends b call.run (calls k).1 b (some (calls k).2)) →
        ∃ (ts : List (FailedTry ε)) (tail : List Happening),
          Retried policy again retries start ts (calls ts.length).2 tail ∧
          (∀ k t, ts[k]? = some t →
            (calls k).1 = t.path ∧ (calls k).2 = .error t.error ∧ readings k = t.reading) ∧
          (tail = [] ∨ tail = [⟨.now, readings ts.length⟩]) ∧
          Ends b (retry policy retries again call).run
            (⟨.now, start⟩ :: (ts.flatMap FailedTry.whole ++ ((calls ts.length).1 ++ tail))) b
            (some (calls ts.length).2)) ∧
    (∀ (limit : Duration) (q : AuthorityRequest) b path c (x : q.Reply),
      Ends b (callOnce limit q).run path c (some x) ↔ ∃ answer : q.Reply × Duration,
        path = [⟨.authority q, answer⟩, ⟨.wait (.sleep (min answer.2 limit)), some ()⟩] ∧ c = b ∧
        x = q.received limit answer ∧
        (limit < answer.2 → ∃ e, x = .error e ∧ e.isRetryable = true)) ∧
    (∀ s retries q b path c x, Ends b (callAuthority s retries q).run path c (some x) →
      ∃ n ≤ retries, weight Act.authorityCalls path = n + 1) ∧
    (∀ p r mode b path c q, Goes b (issueCertificate p r mode) path c q →
      weight Act.finalizations path ≤ 1) ∧
    (∀ (p : DnsPractice) name value b path c x,
      Ends b (retry p.delays p.retries DnsError.isRetryable
        (DnsPractice.createOnce name value)).run path c (some x) →
      ∃ n ≤ p.retries, weight Act.creations path = n + 1) ∧
    ∀ {β : Type} (p : RenewalPractice) (mains : List (Steward β)) (w : Weave β) i s name value,
      Weave.Strides p.program (Weave.start mains) w → w.strands[i]? = some s →
      s.job = some (.provision name value) →
      weight Act.creations (w.path i) +
        ((w.spawnedBy i).map fun k => weight Act.creations (w.path k)).sum ≤
        p.issuance.dns.retries + 1 := by
  refine ⟨fun policy again retries call b => ⟨fun path c x h => retried_of_ends h,
      fun start calls readings h => exists_ends_retry policy again retries start calls readings h⟩,
    ?_, fun s retries q b path c x h => weight_callAuthority h,
    fun p r mode => atMost_finalizations p r mode,
    fun p name value b path c x h => weight_createOnce h,
    fun p mains w i s name value h here hjob => Weave.creations_le h here hjob⟩
  intro limit q b path c x
  rw [ends_callOnce_iff]
  constructor
  · rintro ⟨answer, slept, rfl, -, rfl, hx⟩
    cases slept with
    | none => cases hx
    | some u =>
      obtain rfl : x = q.received limit answer := Option.some.inj hx
      exact ⟨answer, rfl, rfl, rfl, AuthorityRequest.received_late⟩
  · rintro ⟨answer, rfl, rfl, rfl, -⟩
    exact ⟨answer, some (), rfl, trivial, rfl, rfl⟩

/-- What the authority answers to calls one after the other: an error that passes, an answer that
comes too late, and then good answers. -/
def callAnswers : Nat → Except IssuanceError Unit × Duration
  | 0 => (.error (.transient "ensure_account" "busy"), .ofMillis 100)
  | 1 => (.ok (), .ofSeconds 31)
  | _ => (.ok (), .ofMillis 100)

/-- A call that gets the answer with that number, and what its caller makes of it. -/
def sampleCall (k : Nat) : List Happening × Except IssuanceError Unit :=
  ([⟨.authority .ensureAccount, callAnswers k⟩,
    ⟨.wait (.sleep (min (callAnswers k).2 (.ofSeconds 30))), some ()⟩],
    AuthorityRequest.received (.ofSeconds 30) .ensureAccount (callAnswers k))

/-- The third call is the last one. -/
theorem retried_to_the_end_callAnswers : ∃ path,
    Ends true (callAuthority {} 3 .ensureAccount).run path true (some (.ok ())) ∧
      weight Act.authorityCalls path = 3 := by
  obtain ⟨hcalls, honce, -⟩ := retried_to_the_end
  have hends : ∀ k, Ends true (callOnce (.ofSeconds 30) .ensureAccount).run (sampleCall k).1 true
      (some (sampleCall k).2) := fun k => (honce _ _ _ _ _ _).mpr
    ⟨callAnswers k, rfl, rfl, rfl, AuthorityRequest.received_late (q := .ensureAccount)⟩
  obtain ⟨ts, tail, hretried, hts, htail, hpath⟩ := (hcalls (IssuanceSettings.retry {})
    IssuanceError.isRetryable 3 _ true).2 0 sampleCall (fun _ => 0) hends
  have hlength : ts.length = 2 := by
    have hgood : ¬ 2 < ts.length := fun hlt => by
      obtain ⟨-, herror, -⟩ := hts 2 _ (List.getElem?_eq_getElem hlt)
      cases herror
    have hbusy : ∀ k < 2, ts.length ≠ k := by
      rintro k hk rfl
      have hfailed : ∃ e, (sampleCall ts.length).2 = .error e ∧ e.isRetryable = true := by
        match ts.length, hk with
        | 0, _ => exact ⟨_, rfl, rfl⟩
        | 1, _ => exact ⟨_, rfl, rfl⟩
      obtain ⟨e, he, hagain⟩ := hfailed
      obtain ⟨a, ha⟩ | ⟨e', he', hfalse | hlimit | ⟨_, -, _, hbudget, -⟩⟩ := hretried.stopped
      · cases he.symm.trans ha
      · cases he.symm.trans he'
        cases hagain.symm.trans hfalse
      · omega
      · cases hbudget
    have := hbusy 0
    have := hbusy 1
    omega
  rw [hlength] at hpath
  refine ⟨_, hpath, ?_⟩
  rw [weight_of_calls (n := 1) rfl (fun _ => rfl) (fun t ht => ?_) rfl (fun y hy => ?_), hlength]
  · obtain ⟨k, hk⟩ := List.getElem?_of_mem ht
    rw [← (hts k t hk).1]
    rfl
  · obtain rfl | rfl := htail
    · cases hy
    · rw [List.mem_singleton.mp hy]

end CertSteward
