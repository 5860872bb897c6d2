import CertSteward.Proofs.Dns.Tended
import CertSteward.Proofs.Issuance.Sequence
import CertSteward.Proofs.Run.Rehearsal
import Mathlib.Data.List.Basic
import Mathlib.Data.List.Perm.Subperm

/-!
# What is left of a run

A run that has ended has removed its challenge records and given its order up, whatever it was
answered and wherever it was interrupted. What could not be removed was refused, and was counted.

Two accounts meet here. The run accounts for its requests: it has looked at each slot that it sent a
job to, and has sent a job to remove what it found. The slots account for the records: what is left
is within reach. So each record that is left belongs to a job that failed.

This needs that no key is given up while its slot remembers a record. Where two strands of the run
want one record, the first one may fail and give the key up after the second one had the record
made, and then nobody finds the record any more.

## Main definitions

* `releasedBy` — the orders that a run gave up
* `Weave.IsOwn` — a record of one run that is not contested
* `Aftermath` — what is left of a run

## Main results

* `Contending.aftermath` — what is left of a run, of its own records and of its order
-/

namespace CertSteward

/-- The order that a request gives up. -/
def Act.releases? : Act → Option OrderHandle
  | .authority (.release o) => some o
  | _ => none

/-- The number of records left that a request notes. -/
def Act.debt? : Act → Option Nat
  | .note (.debt n) => some n
  | _ => none

/-- The key of the slot of the record that a job removes. -/
def Job.removalKey? : Job → Option SlotKey
  | deprovision h => some h.key
  | _ => none

/-- The orders that run `i` and its jobs gave up, with success or not. -/
def releasedBy (log : List Event) (i : Nat) : List OrderHandle :=
  (log.filter (·.run == i)).filterMap (·.act.releases?)

/-- No other run goes to the slot of a record, and it is not contested within run `i`. -/
structure Weave.IsOwn (w : Weave Issued) (i : Nat) (k : SlotKey) : Prop where
  owns : w.Owns i k
  uncontested : ¬ w.Contested i k

/-- What is left of run `i` after it has ended with `x`. -/
structure Aftermath (limit : Duration) (w : Weave Issued) (i : Nat) (x : Issued) : Prop where
  /-- A record of its own is left only if it could not be deleted. -/
  refused : ∀ h ∈ remaining w.log i, w.IsOwn i h.key →
    ∃ e ∈ w.log, e.run = i ∧ e.refuses h = true
  /-- Of its own records no more are left than failures were counted. -/
  counted : ∀ l : List DnsHandle, l.Sublist (remaining w.log i) → (∀ h ∈ l, w.IsOwn i h.key) →
    l.length ≤ (knownBy limit w.log i).failures
  /-- The run reports the number of failures. -/
  reported : ∀ c, x = .ok c → c.report.cleanupFailures = (knownBy limit w.log i).failures
  /-- The run notes the number of failures. -/
  noted : ∀ h ∈ happenings w.log i, ∀ n, h.1.debt? = some n →
    n = (knownBy limit w.log i).failures
  /-- The orders that were placed are those that were given up. -/
  released : releasedBy w.log i = (knownBy limit w.log i).orders
  /-- There is one order at most. -/
  single : (knownBy limit w.log i).orders.length ≤ 1

/-! ### What a run has asked for -/

namespace Journal

variable {limit : Duration}

/-- What is neither asked of the authority nor noted leaves no trace here. -/
theorem told_learn (limit : Duration) (j : Journal) (a : Act) (answer : a.Answer)
    (hauthority : ∀ q, a ≠ .authority q) (hnote : ∀ n, a ≠ .note n) :
    (j.learn limit a answer).standing.releases = j.standing.releases ∧
      (j.learn limit a answer).standing.debts = j.standing.debts := by
  have hhear : ∀ q v, (j.standing.hear q v).releases = j.standing.releases ∧
      (j.standing.hear q v).debts = j.standing.debts := by
    intro q v
    cases q <;> exact ⟨rfl, rfl⟩
  unfold learn
  split
  case h_4 | h_5 => exact absurd rfl (hauthority _)
  case h_13 => exact absurd rfl (hnote _)
  case h_6 =>
    split
    · exact hhear _ _
    · exact ⟨rfl, rfl⟩
  case h_10 => split <;> exact ⟨rfl, rfl⟩
  all_goals exact ⟨rfl, rfl⟩

theorem releases_note (j : Journal) (a : Act) (answer : a.Answer) :
    (j.note limit a answer).standing.releases = j.standing.releases ++ a.releases?.toList := by
  cases a with
  | authority q =>
    obtain ⟨_ | v, time⟩ := answer <;> cases q <;> first | rfl | exact (List.append_nil _).symm
  | note n => cases n <;> exact (List.append_nil _).symm
  | _ => exact (told_learn limit j _ answer nofun nofun).1.trans (List.append_nil _).symm

theorem debts_note (j : Journal) (a : Act) (answer : a.Answer) :
    (j.note limit a answer).standing.debts = j.standing.debts ++ a.debt?.toList := by
  cases a with
  | authority q => obtain ⟨_ | v, time⟩ := answer <;> cases q <;> exact (List.append_nil _).symm
  | note n => cases n <;> first | rfl | exact (List.append_nil _).symm
  | _ => exact (told_learn limit j _ answer nofun nofun).2.trans (List.append_nil _).symm

/-- What each request adds is added up. -/
theorem read_foldl {γ : Type} {g : Journal → List γ} {f : Act → Option γ}
    (hnote : ∀ (j : Journal) (a : Act) (answer : a.Answer),
      g (j.note limit a answer) = g j ++ (f a).toList) (path : List Happening) (j : Journal) :
    g (path.foldl (fun j h => j.note limit h.1 h.2) j) = g j ++ path.filterMap fun h => f h.1 := by
  induction path generalizing j with
  | nil => exact (List.append_nil _).symm
  | cons h path ih =>
    rw [List.foldl_cons, ih, hnote, List.append_assoc, List.filterMap_cons]
    cases f h.1 <;> rfl

end Journal

namespace Contending

open Weave

variable {p : RenewalPractice} {requests : List (IssuanceRequest × LockMode)}
variable {w : Weave Issued} {i : Nat} {r : IssuanceRequest} {mode : LockMode} {x : Issued}

/-- A run asks the authority itself. -/
theorem strand_of_authority {e : Event} {q : AuthorityRequest} (h : Contending p requests w)
    (he : e ∈ w.log) (hact : e.act = .authority q) : e.strand = e.run := by
  obtain ⟨before, after, hlog⟩ := List.append_of_mem he
  obtain ⟨v, s, next, hlead, -, here, hsrun, asks⟩ :=
    Weave.Leads.event h (fun _ _ => Weave.Stride.turn) rfl hlog
  have hmain : s.job = none := job_eq_none hlead here asks (.inr ⟨q, hact⟩)
  rw [← hsrun, (kinds hlead).main e.strand s here hmain |>.1]

/-- The orders that a run gave up are those of which it knows that it did. -/
theorem releasedBy_log (h : Contending p requests w) (limit : Duration) :
    releasedBy w.log i = (knownBy limit w.log i).releases := by
  have hread : (knownBy limit w.log i).releases =
      (happenings w.log i).filterMap fun h => h.1.releases? :=
    Journal.read_foldl (g := fun j => j.standing.releases) Journal.releases_note _ _
  rw [hread, releasedBy, happenings, List.filterMap_map, List.filterMap_filter,
    List.filterMap_filter]
  refine List.filterMap_congr fun e he => ?_
  cases hact : e.act with
  | authority q =>
    rw [h.strand_of_authority he hact]
    simp [hact]
  | _ => simp [hact, Act.releases?]

/-- What a run has done when it has ended. -/
theorem concluded (h : Contending p requests w) (hr : requests[i]? = some (r, mode))
    (hx : w.returned i = some x) :
    (w.journal p.issuance.settings.callTimeout i).Concluded p.issuance.countsDebt x := by
  obtain ⟨s, here, hmain, -⟩ := h.main_here hr
  have hends := h.ends here (done_of_returned hx here).2
  rw [hmain] at hends
  exact hends

/-- A record that is left belongs to a slot to which the run sent a job. -/
theorem wants_of_remaining {h' : DnsHandle} (h : Contending p requests w)
    (hh : h' ∈ remaining w.log i) : w.Wants i h'.key := by
  obtain ⟨e, he, rfl, hmade⟩ := made_of_remaining hh
  exact h.maker he hmade

/-- A record that is left was refused, and belongs to a job that failed. -/
theorem refused_of_remaining {h' : DnsHandle} (h : Contending p requests w)
    (hr : requests[i]? = some (r, mode)) (hx : w.returned i = some x)
    (hh : h' ∈ remaining w.log i) (hown : w.IsOwn i h'.key) :
    (∃ e ∈ w.log, e.run = i ∧ e.refuses h' = true) ∧
      ∃ handle o, (Job.deprovision handle, o) ∈
        (w.standing p.issuance.settings.callTimeout i).ended ∧ handle.key = h'.key ∧
          (DnsPractice.resultOf o).isOk = false := by
  obtain ⟨j, s, name, value, hs, hsrun, hjob, hname⟩ := (h.wants_of_remaining hh).sent
  have hw := h.tended hr hown.owns hown.uncontested
  have hclosed := (h.concluded hr hx).closed
  -- the run has sent a job to the slot, and has looked at it since
  have hasked : h'.key ∈ (w.standing p.issuance.settings.callTimeout i).asked := by
    obtain hasked | ⟨t, jobs, next, ht, hasks, -⟩ := h.sent hs hjob
    · rw [← hname, ← hsrun]
      exact hasked
    · rw [hsrun] at ht
      cases hasks.symm.trans (done_of_returned hx ht).2
  obtain ⟨id, hlooked⟩ := hclosed.looked _ hasked
  cases id with
  | none => exact absurd rfl ((hw.looked none hlooked).2 rfl h' hh)
  | some id =>
    obtain ⟨handle, o, hended, hkey⟩ := hclosed.removed _ _ hlooked
    obtain ⟨n, t, ht, htjob, htrun, ho⟩ := h.ended hr hended
    obtain ⟨result, rfl, hat⟩ := h.endsWith ht htjob (Weave.done_of_outcome? ho ht).2
    cases result with
    | ok =>
      exact absurd rfl (hw.gone n t handle ht htrun htjob hkey (by rw [hat]; trivial) h' hh)
    | error error =>
      exact ⟨hw.failed n t handle ht htrun htjob hkey (by rw [hat]; trivial) h' hh rfl,
        handle, _, hended, hkey, rfl⟩

/-- Records of its own that are left belong to different slots. -/
theorem nodup_keys_of_sublist {l : List DnsHandle} (h : Contending p requests w)
    (hr : requests[i]? = some (r, mode)) (hl : l.Sublist (remaining w.log i))
    (hown : ∀ h ∈ l, w.IsOwn i h.key) : (l.map DnsHandle.key).Nodup := by
  refine List.pairwise_map.mpr (List.pairwise_iff_getElem.mpr fun m n hm hn hlt heq => ?_)
  have hown := hown _ (List.getElem_mem hm)
  have hsingle := (h.tended hr hown.owns hown.uncontested).single.sublist hl
  exact List.pairwise_iff_getElem.mp hsingle m n hm hn hlt ⟨rfl, heq.symm⟩

/-- There are no more records left than jobs failed. -/
theorem length_le_failures {l : List DnsHandle} (h : Contending p requests w)
    (hr : requests[i]? = some (r, mode)) (hx : w.returned i = some x)
    (hl : l.Sublist (remaining w.log i)) (hown : ∀ h ∈ l, w.IsOwn i h.key) :
    l.length ≤ (w.standing p.issuance.settings.callTimeout i).failures := by
  let failed := (w.standing p.issuance.settings.callTimeout i).ended.filter fun x =>
    x.1.isRemoval && !(DnsPractice.resultOf x.2).isOk
  have hsubset : l.map DnsHandle.key ⊆ failed.filterMap (·.1.removalKey?) := by
    intro k hk
    obtain ⟨h', hh, rfl⟩ := List.mem_map.mp hk
    obtain ⟨-, handle, o, hended, hkey, ho⟩ :=
      h.refused_of_remaining hr hx (hl.subset hh) (hown h' hh)
    refine List.mem_filterMap.mpr ⟨(.deprovision handle, o), List.mem_filter.mpr ⟨hended, ?_⟩,
      congrArg some hkey⟩
    change (true && !(DnsPractice.resultOf o).isOk) = true
    rw [ho]
    rfl
  calc l.length
      = (l.map DnsHandle.key).length := (List.length_map _).symm
    _ ≤ (failed.filterMap (·.1.removalKey?)).length :=
        (List.subperm_of_subset (h.nodup_keys_of_sublist hr hl hown) hsubset).length_le
    _ ≤ failed.length := List.length_filterMap_le _ _
    _ = (w.standing p.issuance.settings.callTimeout i).failures := List.countP_eq_length_filter.symm

/-- **Whoever has ended has cleaned up**, whatever it was answered, wherever it was interrupted, and
however its jobs and other runs came between. Each record that it made was deleted, unless it could
not be, of which there are no more than it counted failures, or another run went to its slot, or it
was contested. And its order was given up once, if one was placed. -/
theorem aftermath (h : Contending p requests w) (hr : requests[i]? = some (r, mode))
    (hx : w.returned i = some x) : Aftermath p.issuance.settings.callTimeout w i x := by
  have hknown : knownBy p.issuance.settings.callTimeout w.log i =
    w.standing p.issuance.settings.callTimeout i := h.knownBy_log hr _
  have hconcluded := h.concluded hr hx
  have hclosed := hconcluded.closed
  constructor
  · exact fun h' hh hown => (h.refused_of_remaining hr hx hh hown).1
  · rw [hknown]
    exact fun l hl hown => h.length_le_failures hr hx hl hown
  · rw [hknown]
    exact hconcluded.cleanupFailures
  · intro y hy n hn
    have hdebts : (knownBy p.issuance.settings.callTimeout w.log i).debts =
        (happenings w.log i).filterMap fun h => h.1.debt? :=
      Journal.read_foldl (g := fun j => j.standing.debts) Journal.debts_note _ _
    have hmem : n ∈ (happenings w.log i).filterMap fun h => h.1.debt? :=
      List.mem_filterMap.mpr ⟨y, hy, hn⟩
    rw [← hdebts, hknown] at hmem
    change n ∈ (w.journal p.issuance.settings.callTimeout i).standing.debts at hmem
    rw [hclosed.debts] at hmem
    rw [hknown]
    split at hmem
    · exact List.mem_singleton.mp hmem
    · cases hmem
  · have hreleased : releasedBy w.log i = (knownBy p.issuance.settings.callTimeout w.log i).releases :=
      h.releasedBy_log _
    rw [hreleased, hknown]
    exact hclosed.releases
  · rw [hknown]
    exact hclosed.orders

end Contending

/-! ### A record that is left -/

/-- An authority that takes an order and rejects its challenge, and a DNS service that makes a record
and refuses to delete it. -/
def keepingAnswers : (a : Act) → Option a.Answer
  | .now => some (0 : Nat)
  | .freshKey _ => some (.ok { spec := .ecdsaP256, secret := [] })
  | .authority .ensureAccount | .authority (.release _) => some (.ok (), (0 : Nat))
  | .authority (.newOrder names) => some (.ok { id := "order", identifiers := names }, (0 : Nat))
  | .authority (.authorizations o) => some (.ok (o.identifiers.map fun identifier =>
      { identifier, status := .pending, error := none
        challenge := some { token := "token", keyAuthorization := "key", url := "url" } }),
      (0 : Nat))
  | .authority (.challengeReady ..) => some (.error (.rejected "challenge" "blocked"), (0 : Nat))
  | .dns (.supports _) => some (.ok true)
  | .dns (.create ..) => some (.ok "record", none)
  | .dns (.delete ..) => some (.error (.authentication "denied"))
  | .watch => some true
  | .unwatch | .note _ => some ()
  | _ => none

/-- A run that they answer: it waits for the part that was sent for its record, which waits for the
job that makes it, and later for the part that is to delete it. -/
def keeping : Option (Weave Issued) :=
  (List.replicate 20 0 ++ List.replicate 8 1 ++ List.replicate 7 2 ++ List.replicate 3 1 ++
    List.replicate 13 0 ++ List.replicate 10 3 ++ List.replicate 8 0).foldlM
    (Weave.play ({} : RenewalPractice).program keepingAnswers)
    (Weave.start (sampleRequest.map fun (r, mode) => issueCertificate {} r mode))

theorem keeping_ends : keeping.map (fun w => ((w.returned 0).isSome, (remaining w.log 0).length,
    (knownBy (IssuanceSettings.callTimeout {}) w.log 0).failures,
    w.log.all fun e => e.run == 0 && e.unmade?.isNone)) = some (true, 1, 1, true) := by
  decide +kernel

/-- It is left with a record of its own, which was refused and is counted. -/
theorem Contending.aftermath_keeping : ∃ w x, Contending {} sampleRequest w ∧
    w.returned 0 = some x ∧ (remaining w.log 0).length = 1 ∧
    (∀ h ∈ remaining w.log 0, w.IsOwn 0 h.key ∧ ∃ e ∈ w.log, e.run = 0 ∧ e.refuses h = true) ∧
    (knownBy (IssuanceSettings.callTimeout {}) w.log 0).failures = 1 := by
  obtain ⟨w, hw, hends⟩ := Option.map_eq_some_iff.mp keeping_ends
  obtain ⟨hreturned, hleft, hfailures, hlog⟩ :
      (w.returned 0).isSome = true ∧ (remaining w.log 0).length = 1 ∧
        (knownBy (IssuanceSettings.callTimeout {}) w.log 0).failures = 1 ∧
        (w.log.all fun e => e.run == 0 && e.unmade?.isNone) = true := by
    simpa using hends
  obtain ⟨x, hx⟩ := Option.isSome_iff_exists.mp hreturned
  have hevent : ∀ e ∈ w.log, e.run = 0 ∧ e.unmade? = none := fun e he => by
    simpa using List.all_eq_true.mp hlog e he
  have hown : ∀ k, w.IsOwn 0 k := fun k =>
    { owns := fun e he _ => (hevent e he).1
      uncontested := by
        rintro ⟨⟨e, he, -, hunmade⟩, -⟩
        cases (hevent e he).2.symm.trans hunmade }
  have hafter := aftermath (Weave.strides_of_play hw) (i := 0) rfl hx
  exact ⟨w, x, Weave.strides_of_play hw, hx, hleft,
    fun h hh => ⟨hown h.key, hafter.refused h hh (hown h.key)⟩, hfailures⟩

/-! ### A record that is lost -/

/-- A request for `example.com` and `*.example.com`, whose challenges have one record. -/
def sharedRequest : List (IssuanceRequest × LockMode) := [(⟨"example.com", [], true⟩, .skip)]

/-- The answers of `keepingAnswers`, but with `created` as what comes of making a record. -/
def sharedAnswers (created : Except DnsError String) : (a : Act) → Option a.Answer
  | .dns (.create ..) => some (created, none)
  | a => keepingAnswers a

/-- The job of the first part is refused its record, and the slot goes to the second part. -/
def refusal : Option (Weave Issued) :=
  (List.replicate 20 0 ++ List.replicate 8 1 ++ List.replicate 3 2 ++ List.replicate 6 3).foldlM
    (Weave.play ({} : RenewalPractice).program
      (sharedAnswers (.error (.authentication "denied"))))
    (Weave.start (sharedRequest.map fun (r, mode) => issueCertificate {} r mode))

/-- The second part has the record made and is done. Only then the first part learns of its job. -/
def shared : Option (Weave Issued) :=
  refusal.bind fun w =>
    (List.replicate 5 2 ++ List.replicate 7 4 ++ List.replicate 3 2 ++ List.replicate 4 1 ++
      List.replicate 13 0).foldlM (Weave.play ({} : RenewalPractice).program
        (sharedAnswers (.ok "record"))) w

theorem contending_shared {w : Weave Issued} (hw : shared = some w) :
    Contending {} sharedRequest w := by
  rw [shared] at hw
  obtain ⟨v, hv, hvw⟩ := Option.bind_eq_some_iff.mp hw
  rw [refusal] at hv
  exact Weave.Leads.play (Weave.strides_of_play hv) hvw

theorem shared_ends : shared.map (fun w => ((w.returned 0).isSome, (remaining w.log 0).length,
    (knownBy (IssuanceSettings.callTimeout {}) w.log 0).failures,
    w.log.all fun e => e.run == 0)) = some (true, 1, 0, true) := by
  decide +kernel

/-- A record may be left although nobody else goes to its slot and no failure is counted. -/
theorem Contending.record_lost : ¬ ∀ p requests (w : Weave Issued) i r mode x,
    Contending p requests w → requests[i]? = some (r, mode) → w.returned i = some x →
    (∀ k, w.Owns i k) → (∀ h ∈ remaining w.log i, ∃ e ∈ w.log, e.run = i ∧ e.refuses h = true) ∧
      (remaining w.log i).length ≤ (knownBy p.issuance.settings.callTimeout w.log i).failures := by
  intro hcleaned
  obtain ⟨w, hw, hends⟩ := Option.map_eq_some_iff.mp shared_ends
  obtain ⟨hreturned, hleft, hfailures, hlog⟩ :
      (w.returned 0).isSome = true ∧ (remaining w.log 0).length = 1 ∧
        (knownBy (IssuanceSettings.callTimeout {}) w.log 0).failures = 0 ∧
        (w.log.all fun e => e.run == 0) = true := by
    simpa using hends
  obtain ⟨x, hx⟩ := Option.isSome_iff_exists.mp hreturned
  have hown : ∀ k, w.Owns 0 k := fun _ e he _ => eq_of_beq (List.all_eq_true.mp hlog e he)
  obtain ⟨-, hcounted⟩ := hcleaned {} sharedRequest w 0 _ _ x (contending_shared hw) rfl hx hown
  have hle : (remaining w.log 0).length ≤
      (knownBy (IssuanceSettings.callTimeout {}) w.log 0).failures := hcounted
  rw [hleft, hfailures] at hle
  exact absurd hle (by decide)

end CertSteward
