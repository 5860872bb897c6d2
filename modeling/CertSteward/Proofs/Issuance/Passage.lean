import CertSteward.Proofs.Challenge.Set
import CertSteward.Proofs.Issuance.Site

/-!
# The order of a run at the development authority

Between the call that opens its order and the one that gives it up, a run over the development
authority and records in memory fails only while it waits for the authorizations. All other calls
have good answers, and all records are made.

## Main definitions

* `Backoff.lasts` — whether a policy hands out so many delays when each is slept
* `Passage` — a run that has its order

## Main results

* `Passage.takeChallenges`, `Passage.makeRecords`, `Passage.submits` — up to the challenges
* `Passage.awaitAuthorizations` — the wait for the authorizations
* `Passage.finalize`, `Passage.awaitCertificate` — from the request to the certificate
-/

namespace CertSteward

/-! ### Delays -/

/-- A sleep that begins on a whole millisecond takes whole milliseconds. -/
theorem Duration.max_ceilMillis {d : Duration} (h : d.IsWhole) (time : Duration) :
    max d (Duration.ceilMillis (d + time)) = d + Duration.ceilMillis time := by
  obtain ⟨n, rfl⟩ := h
  exact (by omega : max (1000000 * n) ((1000000 * n + time + 999999) / 1000000 * 1000000) =
    1000000 * n + (time + 999999) / 1000000 * 1000000)

/-- Whether there are that many more delays if each is slept, which takes whole milliseconds. -/
def Backoff.lasts : Nat → Backoff → Duration → Bool
  | 0, _, _ => true
  | n + 1, b, elapsed =>
    match b.next? elapsed with
    | some (delay, b) => lasts n b (elapsed + Duration.ceilMillis delay)
    | none => false

/-- Whether a policy hands out at least that many delays if each is slept. -/
def BackoffPolicy.lasts (p : BackoffPolicy) (n : Nat) : Bool := Backoff.lasts n (.start p) 0

/-! ### Challenges -/

/-- What of an entry stays: all but its status. -/
def ChallengeEntry.lasting (e : ChallengeEntry) : ChallengeEntry :=
  { e with status := .notStarted, error := none }

namespace ChallengeSet

variable {c : ChallengeSet}

/-- What of the entries stays. -/
def lasting (c : ChallengeSet) : List ChallengeEntry := c.entries.map (·.lasting)

@[simp]
theorem lasting_setStatus (id : String) (s : ChallengeStatus) :
    (c.setStatus id s).lasting = c.lasting :=
  map_modifyFirst (·.lasting) (by intro _ _; rfl) c.entries

@[simp]
theorem lasting_markInvalid (id error : String) : (c.markInvalid id error).lasting = c.lasting :=
  map_modifyFirst (·.lasting) (by intro _ _; rfl) c.entries

@[simp]
theorem lasting_settle (a : Authorization) : (Driving.settle a c).lasting = c.lasting := by
  rw [Driving.settle]
  split
  · exact lasting_setStatus _ _
  · split
    · exact lasting_markInvalid _ _
    · rfl

theorem lasting_foldl_settle (as : List Authorization) :
    (as.foldl (fun set a => Driving.settle a set) c).lasting = c.lasting := by
  induction as generalizing c with
  | nil => rfl
  | cons a as ih => rw [List.foldl_cons, ih, lasting_settle]

theorem keys_eq_of_lasting {es : List ChallengeEntry} (h : c.lasting = es) :
    c.keys = es.map (·.key) := by
  rw [← h, lasting, List.map_map]
  rfl

end ChallengeSet

namespace DevelopmentAuthority

/-- The challenge of a name. -/
def challenge (a : DevelopmentAuthority) (e : Entry) : ChallengeEntry where
  identifier := e.identifier
  token := e.token
  keyAuthorization := a.keyAuthorization e.token
  url := e.url

end DevelopmentAuthority

namespace Driving

variable {program : Job → Steward Outcome} {E : RunState → World → IssuanceError → Prop}
variable {P : RunState → World → Unit → Prop} {s : RunState} {w : World}

/-- The challenge of an authorization that is open is taken. -/
theorem Comes.takeChallenge {a : Authorization} {c : DnsChallenge} (hstatus : a.status = .pending)
    (hc : a.challenge = some c)
    (hP : ∀ e : ChallengeEntry, e = { identifier := a.identifier, token := c.token
                                      keyAuthorization := c.keyAuthorization, url := c.url } →
      P { s with challenges := s.challenges.insert e } w ()) :
    Comes program E P s w (Driving.takeChallenge a) := by
  refine .of_ok ?_ (hP _ rfl)
  rw [Driving.takeChallenge, hstatus, hc]
  rfl

/-- A domain that is served. -/
theorem Comes.checkServed {d : MemoryDns} {domain : String} (hdns : w.dns = .memory d)
    (hserved : d.supports domain = true) (hP : P s w ()) :
    Comes program E P s w (Driving.checkServed domain) := by
  have hasks : w.follows? (perform (.dns (.supports domain))) = some (.ok true, w) := by
    obtain ⟨⟩ := w
    subst hdns
    rw [← hserved]
    rfl
  refine .bind (.follow hasks (.bind (.ofDns ?_)))
  exact .of_ok rfl hP

/-- Before the next look there is a pause, if there is a delay left. -/
theorem Comes.pauseOrTimeOut {P : RunState → World → Backoff → Prop} {operation : String}
    {start : Duration} {b : Backoff}
    (hgo : ∀ delay b', b.next? (w.clock - start) = some (delay, b') → P s (w.slept delay) b')
    (hout : b.next? (w.clock - start) = none → E s w (.timeout operation (w.clock - start))) :
    Comes program E P s w (Driving.pauseOrTimeOut operation start b) := by
  have hasks : w.follows? (perform .now) = some (w.clock, w) := World.follows?_perform _
  refine .bind (.follow hasks ?_)
  dsimp only
  cases hnext : b.next? (w.clock - start) with
  | none => exact .throw (hout hnext)
  | some x =>
    obtain ⟨delay, b'⟩ := x
    have hpause : w.follows? (pause delay).run = some (some (), w.slept delay) :=
      World.follows?_perform _
    refine .bind (.orCancelled (Gets.of_follows? hpause ⟨(), rfl, ?_⟩))
    exact .pure (hgo delay b' hnext)

end Driving

/-! ### A run that has its order -/

theorem mapM_id_map_ok {ε α : Type} (as : List α) :
    (as.map Except.ok).mapM id = (.ok as : Except ε (List α)) := by
  induction as with
  | nil => rfl
  | cons a as ih =>
    rw [List.map_cons, List.mapM_cons, ih]
    rfl

/-- The records are those from before and those for some keys. -/
structure MemoryDns.Holds (d : MemoryDns) (keys : List SlotKey) (d' : MemoryDns) : Prop where
  failsDeletes : d'.failsDeletes = d.failsDeletes
  entries : ∀ e ∈ d'.entries, e ∈ d.entries ∨ e.key ∈ keys

/-- A run that has its order. -/
structure Passage (locks : MutexTable String Unit) (a : DevelopmentAuthority) (d : MemoryDns)
    (names : List String) (es : List ChallengeEntry) (machine : IssuanceMachine)
    (o : DevelopmentAuthority.Order) (s : RunState) (w : World) : Prop where
  machine : s.machine = machine
  order : s.order = some ⟨o.id, names⟩
  lasting : s.challenges.lasting = es
  site : ∃ a', a.Tends o a' ∧ Site locks a' d w

namespace Passage

variable {locks : MutexTable String Unit} {a : DevelopmentAuthority} {d : MemoryDns}
  {names : List String} {es : List ChallengeEntry} {machine : IssuanceMachine}
  {o : DevelopmentAuthority.Order} {s : RunState} {w : World}
  {q : RenewalPractice} {settings : IssuanceSettings}
  {E : RunState → World → IssuanceError → Prop} {retries : Nat} {id : String}
  {entries : List DevelopmentAuthority.Entry} {polls : Nat} {ready : List String}

open Driving

/-- A call about the order with a good answer. -/
theorem call {r : AuthorityRequest} {P : RunState → World → r.Value → Prop}
    (h : Passage locks a d names es machine o s w) (v : r.Value)
    (u : DevelopmentAuthority.Order)
    (hanswer : ∀ a', a.Tends o a' → ∃ a'', a'.answer w.wall.next r = (.ok v, a'') ∧
      a.Tends u a'')
    (hid : u.id = o.id)
    (hP : ∀ a', Passage locks a d names es machine u s (w.told a') →
      P s (w.told a') v) :
    Comes q.program E P s w (call settings retries r) := by
  obtain ⟨a', htends, hsite⟩ := h.site
  obtain ⟨a'', hreply, htends'⟩ := hanswer a' htends
  exact hsite.call hreply (hP a'' ⟨h.machine, hid ▸ h.order, h.lasting, a'', htends',
    hsite.told _⟩)

/-- The run gets on. -/
theorem advance {P : RunState → World → Unit → Prop} {e : IssuanceEvent}
    (h : Passage locks a d names es machine o s w) (machine' : IssuanceMachine)
    (he : machine.apply e = .ok machine')
    (hP : ∀ s', Passage locks a d names es machine' o s' w → P s' w ()) :
    Comes q.program E P s w (Driving.advance e) :=
  .advance machine' (h.machine ▸ he) (hP _ ⟨rfl, h.order, h.lasting, h.site⟩)

/-- The challenges of all names are taken. -/
theorem takeChallenges {P : RunState → World → Unit → Prop}
    (h : Passage locks a d names [] machine o s w) (hoffers : a.offersDns = true)
    (hpending : ∀ e ∈ entries, e.status = .pending) (hnodup : (entries.map (·.identifier)).Nodup)
    (hP : ∀ s', Passage locks a d names (entries.map a.challenge) machine o s' w → P s' w ()) :
    Comes q.program E P s w
      (((entries.map (DevelopmentAuthority.Entry.waiting polls [])).map a.report).forM
        takeChallenge) := by
  suffices htake : ∀ (rest done : List DevelopmentAuthority.Entry) (s : RunState),
      s.machine = machine → s.order = some ⟨o.id, names⟩ →
      s.challenges.entries = done.map a.challenge → entries = done ++ rest →
      Comes q.program E P s w (((rest.map (DevelopmentAuthority.Entry.waiting polls [])).map
        a.report).forM takeChallenge) by
    have hnil : s.challenges.entries = [] := List.map_eq_nil_iff.mp h.lasting
    exact htake entries [] s h.machine h.order hnil rfl
  intro rest
  induction rest with
  | nil =>
    intro done s hmachine horder hdone hentries
    rw [List.append_nil] at hentries
    refine .pure (hP s ⟨hmachine, horder, ?_, h.site⟩)
    rw [ChallengeSet.lasting, hdone, hentries, List.map_map]
    rfl
  | cons e rest ih =>
    intro done s hmachine horder hdone hentries
    have he : e ∈ entries := hentries ▸ List.mem_append_right _ List.mem_cons_self
    have hchallenge : (a.report (e.waiting polls [])).challenge =
        some { url := e.url, token := e.token, keyAuthorization := a.keyAuthorization e.token } :=
      if_pos hoffers
    refine .bind (.takeChallenge (hpending e he) hchallenge ?_)
    rintro _ rfl
    refine ih (done ++ [e]) _ hmachine horder ?_ (by rw [hentries, List.append_assoc]; rfl)
    have hnew : e.identifier ∉ s.challenges.identifiers := by
      rw [hentries, List.map_append, List.map_cons] at hnodup
      rw [ChallengeSet.identifiers, hdone, List.map_map]
      exact fun hmem => (List.nodup_append.mp hnodup).2.2 _ hmem _ List.mem_cons_self rfl
    refine (ChallengeSet.entries_insert_of_not_mem hnew).trans ?_
    rw [hdone, List.map_append]
    rfl

/-- Records that were asked for are there. -/
theorem provided {records : List (String × String)} {d' : MemoryDns} {w' : World}
    (h : Passage locks a d names es machine o s w) (hw : Ledger.Provided w d records w' d') :
    Passage locks a d' names es machine o s w' := by
  obtain ⟨a', htends, hsite⟩ := h.site
  refine ⟨h.machine, h.order, h.lasting, a', htends, ?_, hw.ledger, hw.whole hsite.whole, ?_⟩
  · rw [hw.world]
    exact hsite.authority
  · rw [hw.world]
    exact hsite.locks

theorem slept (h : Passage locks a d names es machine o s w) (time : Duration) :
    Passage locks a d names es machine o s (w.slept time) := by
  obtain ⟨a', htends, hsite⟩ := h.site
  exact ⟨h.machine, h.order, h.lasting, a', htends, hsite.slept time⟩

/-- What of the challenges stays is all that matters. -/
theorem congr {s' : RunState} (h : Passage locks a d names es machine o s w)
    (hmachine : s'.machine = s.machine) (horder : s'.order = s.order)
    (hlasting : s'.challenges.lasting = s.challenges.lasting) :
    Passage locks a d names es machine o s' w :=
  ⟨hmachine.trans h.machine, horder.trans h.order, hlasting.trans h.lasting, h.site⟩

/-- The records of all challenges are made. -/
theorem makeAll {P : RunState → World → Unit → Prop} {p : DnsPractice}
    (h : Passage locks a d names es machine o s w) (hp : p.propagation = none) (hd : d.IsSteady)
    (hne : es ≠ []) (hcount : es.length < 2 ^ 57) (hpairs : ∀ k, (es.filter (·.key = k)).length ≤ 2)
    (hP : ∀ d' s' w', d.Holds (es.map (·.key)) d' → Passage locks a d' names es machine o s' w' →
      P s' w' ()) : Comes q.program E P s w (Driving.makeAll p s.challenges.entries) := by
  obtain ⟨a', -, hsite⟩ := h.site
  let records := s.challenges.entries.map fun e => (e.recordName, e.recordValue)
  have hrecords : records = es.map fun e => (e.recordName, e.recordValue) := by
    rw [← h.lasting, ChallengeSet.lasting, List.map_map]
    rfl
  have hgets : Gets q.program true (DnsPractice.provisionAll records).run w true _ :=
    hsite.ledger.gets_provisionAll hd (by simpa [hrecords] using hne) (fun k => by
      rw [hrecords, List.filter_map, List.length_map]
      exact hpairs k) (by simpa [hrecords] using hcount)
  refine .bind (.orCancelled (hgets.mono ?_))
  rintro _ w' ⟨hs, rfl, hlength, d', hprovided⟩
  refine ⟨_, rfl, ?_⟩
  have hholds : d.Holds (es.map (·.key)) d' := by
    refine ⟨hprovided.failsDeletes, fun e he => (hprovided.entries e he).imp_right ?_⟩
    rintro ⟨r, hr, hkey⟩
    rw [hrecords] at hr
    obtain ⟨x, hx, rfl⟩ := List.mem_map.mp hr
    exact List.mem_map.mpr ⟨x, hx, hkey.symm⟩
  have hafter := h.provided hprovided
  refine .bind (.mono (.forIn (I := fun s w => w = w' ∧ Passage locks a d' names es machine o s w)
    (fun x s w hI => ?_) _ _ _ ⟨rfl, hafter⟩) ?_)
  · -- that a record is there is noted, and no more
    obtain ⟨rfl, hpassage⟩ := hI
    obtain ⟨e, result⟩ := x
    dsimp only
    split
    · exact .bind (.modify (.pure ⟨rfl, rfl, hpassage.congr rfl rfl
        (ChallengeSet.lasting_setStatus _ _)⟩))
    · exact .pure ⟨rfl, rfl, hpassage⟩
  · rintro s w _ ⟨rfl, hpassage⟩
    have hawaits : (p.awaitAll hs).run = .done (some (.ok ())) := by
      rw [DnsPractice.awaitAll, hp]
      rfl
    refine .bind (.modify (.bind ?_))
    rw [mapM_id_map_ok]
    refine .ofDns (.bind (.orCancelled ?_))
    rw [hawaits]
    exact Gets.pure ⟨_, rfl, .ofDns (hP d' _ w hholds (hpassage.congr rfl rfl rfl))⟩

/-- The records of all challenges are made if all domains are served. -/
theorem makeRecords {P : RunState → World → Unit → Prop} {p : DnsPractice}
    (h : Passage locks a d names es machine o s w) (hp : p.propagation = none) (hd : d.IsSteady)
    (hserved : ∀ e ∈ es, d.supports (Domain.base e.identifier) = true)
    (hne : es ≠ []) (hcount : es.length < 2 ^ 57) (hpairs : ∀ k, (es.filter (·.key = k)).length ≤ 2)
    (hP : ∀ d' s' w', d.Holds (es.map (·.key)) d' → Passage locks a d' names es machine o s' w' →
      P s' w' ()) : Comes q.program E P s w (Driving.makeRecords p) := by
  obtain ⟨a', -, hsite⟩ := h.site
  refine .bind (.get (.bind (.mono (.forM (I := fun _ s' w' => s' = s ∧ w' = w) ?_ ⟨rfl, rfl⟩) ?_)))
  · rintro done domain rest s' w' hdomains ⟨rfl, rfl⟩
    refine .checkServed hsite.ledger.dns ?_ ⟨rfl, rfl⟩
    have hmem := List.mem_append_right done (List.mem_cons_self (a := domain) (l := rest))
    rw [← hdomains] at hmem
    obtain ⟨e, he, rfl⟩ := List.mem_map.mp (List.mem_eraseDups.mp hmem)
    exact hserved e.lasting (h.lasting ▸ List.mem_map_of_mem he)
  · rintro _ _ _ ⟨rfl, rfl⟩
    exact h.makeAll hp hd hne hcount hpairs hP

/-- The authority hears that a challenge is ready. -/
theorem submit {P : RunState → World → Unit → Prop} {e : ChallengeEntry}
    {x : DevelopmentAuthority.Entry}
    (h : Passage locks a d names es machine (.waiting id entries polls ready) s w)
    (hx : x ∈ entries) (hurl : e.url = x.url)
    (hP : ∀ s' w', Passage locks a d names es machine (.waiting id entries polls (x.url :: ready))
      s' w' → P s' w' ()) :
    Comes q.program E P s w (Driving.submit settings ⟨id, names⟩ e) := by
  refine .bind (h.call (r := .challengeReady ⟨id, names⟩ e.url) ()
    (.waiting id entries polls (x.url :: ready)) (fun a' ha' => ?_) rfl fun a' hpassage => ?_)
  · rw [hurl]
    exact ha'.challengeReady hx
  · refine .modify (hP _ _ ?_)
    exact hpassage.congr rfl rfl (ChallengeSet.lasting_setStatus _ _)

/-- The authority hears that all challenges are ready. -/
theorem submits {P : RunState → World → Unit → Prop}
    (h : Passage locks a d names (entries.map a.challenge) machine (.waiting id entries polls []) s w)
    (hP : ∀ ready s' w', (∀ e ∈ entries, e.url ∈ ready) →
      Passage locks a d names (entries.map a.challenge) machine (.waiting id entries polls ready)
        s' w' → P s' w' ()) :
    Comes q.program E P s w
      (s.challenges.entries.forM (Driving.submit settings ⟨id, names⟩)) := by
  have hurls : s.challenges.entries.map (·.url) = entries.map (·.url) := by
    have hlasting := congrArg (List.map (·.url)) h.lasting
    rw [ChallengeSet.lasting, List.map_map, List.map_map] at hlasting
    exact hlasting
  refine .mono (.forM (I := fun done s w => ∃ ready, (∀ e ∈ done, e.url ∈ ready) ∧
    Passage locks a d names (entries.map a.challenge) machine (.waiting id entries polls ready) s w)
    ?_ ⟨[], nofun, h⟩) ?_
  · rintro done e rest s' w' hes ⟨ready, hready, hpassage⟩
    have he : e.url ∈ entries.map (·.url) := by
      rw [← hurls, hes]
      exact List.mem_map_of_mem (List.mem_append_right _ List.mem_cons_self)
    obtain ⟨x, hx, hurl⟩ := List.mem_map.mp he
    refine hpassage.submit hx hurl.symm fun s'' w'' hpassage => ⟨_, fun y hy => ?_, hpassage⟩
    obtain hy | hy := List.mem_append.mp hy
    · exact List.mem_cons_of_mem _ (hready y hy)
    · rw [List.mem_singleton.mp hy, hurl]
      exact List.mem_cons_self
  · rintro s' w' _ ⟨ready, hready, hpassage⟩
    refine hP ready s' w' (fun e he => ?_) hpassage
    have hmem : e.url ∈ s.challenges.entries.map (·.url) := hurls ▸ List.mem_map_of_mem he
    obtain ⟨y, hy, hurl⟩ := List.mem_map.mp hmem
    exact hurl ▸ hready y hy

/-- A look that finds all names pending is followed by the next delay, if there is one. -/
theorem polls_pending {P : RunState → World → Backoff ⊕ Unit → Prop} {start : Duration} {b : Backoff}
    (h : Passage locks a d names es machine (.waiting id entries (polls + 1) ready) s w)
    (hne : entries ≠ []) (hpending : ∀ e ∈ entries, e.status = .pending)
    (hready : ∀ e ∈ entries, e.url ∈ ready)
    (hgo : ∀ delay b' s' w', b.next? (w.clock - start) = some (delay, b') →
      Passage locks a d names es machine (.waiting id entries polls ready) s' w' →
      w'.clock = max w.clock (Duration.ceilMillis (w.clock + delay)) → P s' w' (.inl b'))
    (hout : ∀ s' w', b.next? (w.clock - start) = none →
      Passage locks a d names es machine (.waiting id entries polls ready) s' w' →
      E s' w' (.timeout "authorization polling" (w.clock - start))) :
    Comes q.program E P s w (pollAuthorizations settings ⟨id, names⟩ start b) := by
  let as := (entries.map (DevelopmentAuthority.Entry.waiting polls ready)).map a.report
  have has : ∀ x ∈ as, x.status = .pending := by
    rintro x hx
    obtain ⟨_, hy, rfl⟩ := List.mem_map.mp hx
    obtain ⟨e, he, rfl⟩ := List.mem_map.mp hy
    exact hpending e he
  have hfind : (as.find? fun x => x.status.isFailed) = none := by
    refine List.find?_eq_none.mpr fun x hx => ?_
    rw [has x hx]
    exact Bool.false_ne_true
  have hall : (as.all fun x => x.status = .valid) = false := by
    obtain ⟨e, he⟩ := List.exists_mem_of_ne_nil _ hne
    have hx := List.mem_map_of_mem (f := a.report)
      (List.mem_map_of_mem (f := DevelopmentAuthority.Entry.waiting polls ready) he)
    exact List.all_eq_false.mpr ⟨_, hx, by rw [has _ hx]; decide⟩
  refine .bind (h.call (r := .authorizations ⟨id, names⟩) as (.waiting id entries polls ready)
    (fun a' ha' => ha'.authorizations_succ hne hpending hready) rfl fun a' hpassage => ?_)
  refine .bind (.modify ?_)
  rw [hfind]
  simp only [hall]
  refine .bind (.pauseOrTimeOut (fun delay b' hnext => ?_) fun hnext => ?_)
  · exact .pure (hgo delay b' _ _ hnext ((hpassage.slept delay).congr rfl rfl
      (ChallengeSet.lasting_foldl_settle as)) rfl)
  · exact hout _ _ hnext (hpassage.congr rfl rfl (ChallengeSet.lasting_foldl_settle as))

/-- A look that settles all names finds the first that is rejected. -/
theorem polls_settled {P : RunState → World → Backoff ⊕ Unit → Prop} {start : Duration} {b : Backoff}
    (h : Passage locks a d names es machine (.waiting id entries 0 ready) s w)
    (hpending : ∀ e ∈ entries, e.status = .pending) (hready : ∀ e ∈ entries, e.url ∈ ready)
    (hgo : ∀ s' w', (∀ e ∈ entries, a.rejected.contains e.identifier = false) →
      Passage locks a d names es machine (.judged id entries a.rejected) s' w' → P s' w' (.inr ()))
    (hrejected : ∀ e s' w',
      (entries.find? fun e => a.rejected.contains e.identifier) = some e →
      Passage locks a d names es machine (.judged id entries a.rejected) s' w' →
      E s' w' (.authorizationRejected e.identifier
        ("incorrect TXT record found at " ++ Domain.challengeName e.identifier))) :
    Comes q.program E P s w (pollAuthorizations settings ⟨id, names⟩ start b) := by
  let report (e : DevelopmentAuthority.Entry) : Authorization := a.report (e.judged a.rejected)
  let as := (entries.map (DevelopmentAuthority.Entry.judged a.rejected)).map a.report
  have hfind : (as.find? fun x => x.status.isFailed) =
      (entries.find? fun e => a.rejected.contains e.identifier).map report := by
    rw [List.find?_map, List.find?_map, Option.map_map]
    congr 2
    funext e
    change (e.judged a.rejected).status.isFailed = _
    rw [DevelopmentAuthority.Entry.status_judged]
    cases a.rejected.contains e.identifier <;> rfl
  refine .bind (h.call (r := .authorizations ⟨id, names⟩) as (.judged id entries a.rejected)
    (fun a' ha' => ha'.authorizations_zero hpending hready) DevelopmentAuthority.Order.id_judged
    fun a' hpassage => ?_)
  refine .bind (.modify ?_)
  rw [hfind]
  cases hfirst : entries.find? fun e => a.rejected.contains e.identifier with
  | none =>
    have haccepted : ∀ e ∈ entries, a.rejected.contains e.identifier = false := fun e he =>
      Bool.not_eq_true _ ▸ List.find?_eq_none.mp hfirst e he
    have hall : (as.all fun x => x.status = .valid) = true := by
      refine List.all_eq_true.mpr fun x hx => ?_
      obtain ⟨_, hy, rfl⟩ := List.mem_map.mp hx
      obtain ⟨e, he, rfl⟩ := List.mem_map.mp hy
      change decide ((e.judged a.rejected).status = .valid) = true
      rw [DevelopmentAuthority.Entry.status_judged, haccepted e he]
      rfl
    simp only [Option.map_none, hall]
    exact .pure (hgo _ _ haccepted
      (hpassage.congr rfl rfl (ChallengeSet.lasting_foldl_settle as)))
  | some e =>
    have hcontains : a.rejected.contains e.identifier = true := by
      have hmatch := List.find?_some hfirst
      exact hmatch
    have hidentifier : (report e).identifier = e.identifier :=
      DevelopmentAuthority.Entry.identifier_judged
    have hreason : (report e).reason =
        "incorrect TXT record found at " ++ Domain.challengeName e.identifier := by
      change (e.judged a.rejected).error.getD _ = _
      rw [DevelopmentAuthority.Entry.judged, if_pos hcontains]
      rfl
    simp only [Option.map_some, hidentifier, hreason]
    exact .throw (hrejected e _ _ hfirst
      (hpassage.congr rfl rfl (ChallengeSet.lasting_foldl_settle as)))

/-- The wait for the authorizations lasts as long as there are delays. -/
theorem awaits {P : RunState → World → Unit → Prop} {start : Duration} {b : Backoff}
    {exhausted : Driving Unit} {rounds : Nat}
    (h : Passage locks a d names es machine (.waiting id entries polls ready) s w)
    (hne : entries ≠ []) (hpending : ∀ e ∈ entries, e.status = .pending)
    (hready : ∀ e ∈ entries, e.url ∈ ready) (hstart : start ≤ w.clock) (hrounds : polls < rounds)
    (hgo : ∀ s' w', b.lasts polls (w.clock - start) = true →
      (∀ e ∈ entries, a.rejected.contains e.identifier = false) →
      Passage locks a d names es machine (.judged id entries a.rejected) s' w' → P s' w' ())
    (hrejected : ∀ e s' w', b.lasts polls (w.clock - start) = true →
      (entries.find? fun e => a.rejected.contains e.identifier) = some e →
      Passage locks a d names es machine (.judged id entries a.rejected) s' w' →
      E s' w' (.authorizationRejected e.identifier
        ("incorrect TXT record found at " ++ Domain.challengeName e.identifier)))
    (hout : ∀ o s' w' elapsed, b.lasts polls (w.clock - start) = false →
      Passage locks a d names es machine o s' w' →
      E s' w' (.timeout "authorization polling" elapsed)) :
    Comes q.program E P s w
      (Program.loop (pollAuthorizations settings ⟨id, names⟩ start) exhausted rounds b) := by
  induction polls generalizing rounds b s w with
  | zero =>
    obtain ⟨rounds, rfl⟩ := Nat.exists_eq_add_one.mpr hrounds
    refine .bind (h.polls_settled hpending hready (fun s' w' haccepted hpassage => ?_)
      fun e s' w' hfirst hpassage => ?_)
    · exact .pure (hgo s' w' rfl haccepted hpassage)
    · exact hrejected e s' w' rfl hfirst hpassage
  | succ polls ih =>
    obtain ⟨rounds, rfl⟩ := Nat.exists_eq_add_one.mpr (Nat.zero_lt_of_lt hrounds)
    obtain ⟨a', -, hsite⟩ := h.site
    refine .bind (h.polls_pending hne hpending hready
      (fun delay b' s' w' hnext hpassage hclock => ?_) fun s' w' hnext hpassage => ?_)
    · -- what is left of the delays begins when this one is slept
      have hslept : w'.clock = w.clock + Duration.ceilMillis delay :=
        hclock.trans (Duration.max_ceilMillis hsite.whole delay)
      have hlasts : b.lasts (polls + 1) (w.clock - start) =
          b'.lasts polls (w'.clock - start) := by
        rw [Backoff.lasts, hnext, hslept]
        exact congrArg _ (Nat.sub_add_comm hstart).symm
      rw [hlasts] at hgo hrejected hout
      refine ih hpassage ?_ (Nat.lt_of_succ_lt_succ hrounds) hgo hrejected hout
      exact Nat.le_trans hstart (hslept ▸ Nat.le_add_right _ _)
    · refine hout _ s' w' _ ?_ hpassage
      rw [Backoff.lasts, hnext]

/-- The wait for the authorizations. -/
theorem awaitAuthorizations {P : RunState → World → Unit → Prop}
    (h : Passage locks a d names es machine (.waiting id entries polls ready) s w)
    (hne : entries ≠ []) (hpending : ∀ e ∈ entries, e.status = .pending)
    (hready : ∀ e ∈ entries, e.url ∈ ready) (hpolls : polls < 2 ^ 32)
    (hgo : ∀ s' w', settings.validation.lasts polls = true →
      (∀ e ∈ entries, a.rejected.contains e.identifier = false) →
      Passage locks a d names es machine (.judged id entries a.rejected) s' w' → P s' w' ())
    (hrejected : ∀ e s' w', settings.validation.lasts polls = true →
      (entries.find? fun e => a.rejected.contains e.identifier) = some e →
      Passage locks a d names es machine (.judged id entries a.rejected) s' w' →
      E s' w' (.authorizationRejected e.identifier
        ("incorrect TXT record found at " ++ Domain.challengeName e.identifier)))
    (hout : ∀ o s' w' elapsed, settings.validation.lasts polls = false →
      Passage locks a d names es machine o s' w' →
      E s' w' (.timeout "authorization polling" elapsed)) :
    Comes q.program E P s w (Driving.awaitAuthorizations settings ⟨id, names⟩) := by
  have hasks : w.follows? (perform .now) = some (w.clock, w) := World.follows?_perform _
  have hlasts : settings.validation.lasts polls =
      (Backoff.start settings.validation).lasts polls (w.clock - w.clock) := by
    rw [Nat.sub_self]
    rfl
  rw [hlasts] at hgo hrejected hout
  refine .bind (.follow hasks (h.awaits hne hpending hready (Nat.le_refl _) ?_ hgo hrejected hout))
  exact Nat.lt_of_lt_of_le hpolls (Nat.pow_le_pow_right (by decide) (by decide))

/-- The request of the run is signed. -/
theorem finalize {P : RunState → World → Unit → Prop} {request : List UInt8}
    {r : CertificateRequest}
    (h : Passage locks a d names es machine (.judged id entries a.rejected) s w)
    (haccepted : ∀ e ∈ entries, a.rejected.contains e.identifier = false)
    (hr : CertificateRequest.ofBytes? request = some r)
    (hP : ∀ a' w', a.Alike a' → w'.wall = w.wall.next →
      Passage locks a d names es machine
        (.closed id entries a.rejected (a'.chainFor w.wall.next r)) s w' → P s w' ()) :
    Comes q.program E P s w (Driving.call settings retries (.finalize ⟨id, names⟩ request)) := by
  obtain ⟨a', htends, hsite⟩ := h.site
  obtain ⟨a'', hanswer, htends'⟩ := htends.finalize w.wall.next names haccepted hr
  refine hsite.call hanswer (hP a' _ htends.toAlike rfl ?_)
  have horder := h.order
  rw [DevelopmentAuthority.Order.id_judged] at horder
  exact ⟨h.machine, horder, h.lasting, a'', htends', hsite.told _⟩

/-- The first look finds the certificate. -/
theorem awaitCertificate {P : RunState → World → String → Prop} {chain : String}
    (h : Passage locks a d names es machine (.closed id entries a.rejected chain) s w)
    (hP : ∀ w', w'.wall = w.wall.next.next →
      Passage locks a d names es machine (.closed id entries a.rejected chain) s w' → P s w' chain) :
    Comes q.program E P s w (Driving.awaitCertificate settings ⟨id, names⟩) := by
  have hasks : w.follows? (perform .now) = some (w.clock, w) := World.follows?_perform _
  have hrounds : Program.manyRounds = (Program.manyRounds - 1) + 1 := by decide
  refine .bind (.follow hasks ?_)
  rw [hrounds]
  refine .bind (.bind (h.call (r := .orderState ⟨id, names⟩) { status := .valid, error := none }
    (.closed id entries a.rejected chain) (fun a' ha' => ⟨a', ha'.orderState, ha'⟩) rfl
    fun a' hstate => ?_))
  refine .bind (hstate.call (r := .certificate ⟨id, names⟩) (some chain)
    (.closed id entries a.rejected chain) (fun a' ha' => ⟨a', ha'.certificate, ha'⟩) rfl
    fun a' hcertificate => ?_)
  exact .pure (.pure (hP _ rfl hcertificate))

end Passage

end CertSteward
