import CertSteward.Proofs.Issuance.Exclusion
import CertSteward.Proofs.Issuance.Standing

/-!
# The order of the calls of a run

What a run knows at a moment can be read off the log up to there. So the order that the protocol
asks for can be said of the log alone: each call of a run, or of a job that it started, comes after
the events that it has to come after.

The protocol speaks of what a run knows, and of the jobs that it waited for. What such a job has
done in the meantime, so that a record which was provided was really made, is known from its errand.

## Main definitions

* `Act.IsCall`, `Happening.refusesDomain` — what the order is about
* `knownBy` — what a run knows after what is in a log
* `InSequence` — the calls of a run are in order

## Main results

* `Contending.unobtained_of_refused` — a run that was refused its domain is never given it
* `Contending.inSequence` — the calls of each run are in order, however it is interrupted
* `Contending.ends_misplaced` — an authority can make a run end with a misplaced event
-/

namespace CertSteward

/-- Whether a request goes to the authority or to the DNS service. -/
def Act.IsCall : Act → Prop
  | .authority _ | .dns _ => True
  | _ => False

/-- Whether a run is told that it does not get its domain. -/
def Happening.refusesDomain : Happening → Bool
  | ⟨.locks (.tryEnter _), got⟩ => !got
  | ⟨.wait (.lock _), o⟩ => o.isNone
  | _ => false

/-- The journal of run `i` after what is in a log. -/
def journalOf (limit : Duration) (log : List Event) (i : Nat) : Journal :=
  (happenings log i).foldl (fun j h => j.note limit h.1 h.2) {}

/-- What run `i` knows after what is in a log. -/
def knownBy (limit : Duration) (log : List Event) (i : Nat) : Standing :=
  (journalOf limit log i).standing

/-- The calls of run `i` for `r` are in order. -/
structure InSequence (limit : Duration) (r : IssuanceRequest) (i : Nat) (log : List Event) :
    Prop where
  /-- Nobody is called before the input is accepted and the domain is held. -/
  call : ∀ pre e post, log = pre ++ e :: post → e.run = i → e.act.IsCall →
    (∃ h ∈ happenings pre i, h.obtainsDomain = true) ∧ ∃ normal spec key,
      r.normal = .ok normal ∧ ⟨.freshKey spec, key⟩ ∈ happenings pre i ∧ (normal.signed key).isOk
  /-- Nobody is called if the domain is refused, or the wait for it is interrupted. -/
  refused : (∃ h ∈ happenings log i, h.refusesDomain = true) →
    ∀ e ∈ log, e.run = i → ¬ e.act.IsCall
  /-- No record is made unless the first authorizations can be met. -/
  create : ∀ pre e post name value, log = pre ++ e :: post → e.run = i →
    e.act = .dns (.create name value) → (knownBy limit pre i).Cleared
  /-- No challenge is declared ready before the records of all challenges were made. -/
  ready : ∀ pre e post order url, log = pre ++ e :: post → e.run = i →
    e.act = .authority (.challengeReady order url) →
    ∃ as, (knownBy limit pre i).authorizations.head? = some as ∧
      ∀ x ∈ (ChallengeSet.ofAuthorizations as).entries, ∃ e' ∈ pre, ∃ h,
        e'.made? = some h ∧ h.key = x.key
  /-- An order is finalized once, and only after all authorizations were valid. -/
  finalize : ∀ pre e post order request, log = pre ++ e :: post → e.run = i →
    e.act = .authority (.finalize order request) → (knownBy limit pre i).Validated ∧
      ∀ e' ∈ pre, e'.run = i → ∀ order request, e'.act ≠ .authority (.finalize order request)

/-! ### What a journal says of the log -/

namespace Standing

variable (k : Standing) (q : AuthorityRequest)

@[simp] theorem hasDomain_ask : (k.ask q).hasDomain = k.hasDomain := by cases q <;> rfl

@[simp] theorem hasDomain_hear (v : q.Value) : (k.hear q v).hasDomain = k.hasDomain := by
  cases q <;> rfl

@[simp] theorem key_ask : (k.ask q).key = k.key := by cases q <;> rfl

@[simp] theorem key_hear (v : q.Value) : (k.hear q v).key = k.key := by cases q <;> rfl

@[simp] theorem finalizes_hear (v : q.Value) : (k.hear q v).finalizes = k.finalizes := by
  cases q <;> rfl

theorem finalizes_ask : k.finalizes ≤ (k.ask q).finalizes := by
  cases q <;> first | exact Nat.le_refl _ | exact Nat.le_succ _

end Standing

namespace Journal

variable {limit : Duration} {path : List Happening}

/-- What holds of a journal was so before, or was brought about by something that happened. -/
theorem exists_of_foldl {P : Journal → Prop} {Q : Happening → Prop}
    (hnote : ∀ (j : Journal) (a : Act) (answer : a.Answer), P (j.note limit a answer) →
      P j ∨ Q ⟨a, answer⟩) (j : Journal)
    (h : P (path.foldl (fun j h => j.note limit h.1 h.2) j)) : P j ∨ ∃ h ∈ path, Q h := by
  induction path generalizing j with
  | nil => exact .inl h
  | cons x path ih =>
    obtain hrest | ⟨y, hy, hQ⟩ := ih _ h
    · exact (hnote j x.1 x.2 hrest).imp_right fun hQ => ⟨x, List.mem_cons_self, hQ⟩
    · exact .inr ⟨y, List.mem_cons_of_mem x hy, hQ⟩

/-- Nobody holds his domain who was not told so. -/
theorem hasDomain_note (j : Journal) (a : Act) (answer : a.Answer)
    (h : (j.note limit a answer).standing.hasDomain = true) :
    j.standing.hasDomain = true ∨ Happening.obtainsDomain ⟨a, answer⟩ = true := by
  change (j.learn limit a answer).standing.hasDomain = true at h
  unfold learn at h
  split at h
  case h_2 | h_3 => exact .inr rfl
  case h_6 => split at h <;> exact .inl (by simpa using h)
  case h_4 | h_5 => exact .inl (by simpa using h)
  case h_10 => split at h <;> exact .inl h
  all_goals exact .inl h

/-- A key is known that was given. -/
theorem key_note {key : Except MaterialError KeyPair} (j : Journal) (a : Act) (answer : a.Answer)
    (h : (j.note limit a answer).standing.key = some key) :
    j.standing.key = some key ∨ ∃ spec, (⟨a, answer⟩ : Happening) = ⟨.freshKey spec, key⟩ := by
  change (j.learn limit a answer).standing.key = some key at h
  unfold learn at h
  split at h
  case h_1 =>
    cases h
    exact .inr ⟨_, rfl⟩
  case h_6 => split at h <;> exact .inl (by simpa using h)
  case h_4 | h_5 => exact .inl (by simpa using h)
  case h_10 => split at h <;> exact .inl h
  all_goals exact .inl h

/-- An error is known that the authority answered with. -/
theorem errors_note {e : IssuanceError} (j : Journal) (a : Act) (answer : a.Answer)
    (h : e ∈ (j.note limit a answer).errors) : e ∈ j.errors ∨
      ∃ (q : AuthorityRequest) (time : Duration),
        (⟨a, answer⟩ : Happening) = ⟨.authority q, (.error e, time)⟩ := by
  change e ∈ (j.learn limit a answer).errors at h
  unfold learn at h
  split at h
  case h_5 =>
    obtain rfl | h := List.mem_cons.mp h
    · exact .inr ⟨_, _, rfl⟩
    · exact .inl h
  case h_6 | h_10 => split at h <;> exact .inl h
  all_goals exact .inl h

/-- Who has finalized an order has done so ever after. -/
theorem finalizes_note (j : Journal) (a : Act) (answer : a.Answer) :
    j.standing.finalizes ≤ (j.note limit a answer).standing.finalizes := by
  change _ ≤ (j.learn limit a answer).standing.finalizes
  unfold learn
  split
  case h_4 | h_5 => exact Standing.finalizes_ask _ _
  case h_6 => split <;> simp
  case h_10 => split <;> exact Nat.le_refl _
  all_goals exact Nat.le_refl _

theorem finalizes_foldl (j : Journal) :
    j.standing.finalizes ≤
      (path.foldl (fun j h => j.note limit h.1 h.2) j).standing.finalizes := by
  induction path generalizing j with
  | nil => exact Nat.le_refl _
  | cons x path ih => exact Nat.le_trans (finalizes_note j x.1 x.2) (ih _)

/-- Who has finalized nothing never asked for it. -/
theorem not_finalized {order : OrderHandle} {request : List UInt8}
    {answer : (Act.authority (.finalize order request)).Answer} (j : Journal)
    (h : (path.foldl (fun j h => j.note limit h.1 h.2) j).standing.finalizes = 0) :
    (⟨.authority (.finalize order request), answer⟩ : Happening) ∉ path := by
  intro hmem
  obtain ⟨before, after, rfl⟩ := List.append_of_mem hmem
  rw [List.foldl_append, List.foldl_cons] at h
  have hone : ∀ j : Journal,
      0 < (j.note limit (.authority (.finalize order request)) answer).standing.finalizes := by
    intro j
    obtain ⟨_ | _, _⟩ := answer <;> exact Nat.succ_pos _
  exact absurd h (Nat.ne_of_gt (Nat.lt_of_lt_of_le (hone _) (finalizes_foldl _)))

end Journal

namespace Tenure

variable {t : Tenure} {path : List Happening} {a : Act} {answer : a.Answer}

/-- Who was refused its domain was never given it, and asks for it no more. -/
def Denied (t : Tenure) (path : List Happening) : Prop :=
  (∃ h ∈ path, h.refusesDomain = true) →
    (∀ h ∈ path, h.obtainsDomain = false) ∧ (t = after ∨ ∃ c, t = out c)

/-- What is no refusal was refused before. -/
theorem refused_append {h : Happening} (hh : h.refusesDomain = false)
    (hpath : ∃ h' ∈ path ++ [h], h'.refusesDomain = true) :
    ∃ h' ∈ path, h'.refusesDomain = true := by
  obtain ⟨h', hmem, hrefuses⟩ := hpath
  obtain hmem | hmem := List.mem_append.mp hmem
  · exact ⟨h', hmem, hrefuses⟩
  · rw [List.mem_singleton.mp hmem, hh] at hrefuses
    cases hrefuses

theorem Denied.elsewhere (ht : t.Denied path) (ha : a.LeavesDomains) :
    (t.next a answer).Denied (path ++ [⟨a, answer⟩]) := by
  rw [next_of_leavesDomains ha]
  have hneither : Happening.refusesDomain ⟨a, answer⟩ = false ∧
      Happening.obtainsDomain ⟨a, answer⟩ = false := by
    cases a with
    | locks => exact ha.elim
    | wait v =>
      cases v with
      | lock => exact ha.elim
      | _ => exact ⟨rfl, rfl⟩
    | _ => exact ⟨rfl, rfl⟩
  intro hrefused
  obtain ⟨hnone, hout⟩ := ht (refused_append hneither.1 hrefused)
  exact ⟨forall_append hnone hneither.2, hout⟩

theorem Denied.next {K : String → Prop} (ht : t.Denied path) (hfits : t.Fits path)
    (may : t.Allows K a) : (t.next a answer).Denied (path ++ [⟨a, answer⟩]) := by
  -- a run that has found its cell was refused nothing yet
  have henter : ∀ {c : Nat} {a : Act} {answer : a.Answer} {got : Bool}, (found c).Fits path →
      (found c).Denied path → Happening.obtainsDomain ⟨a, answer⟩ = got →
      Happening.refusesDomain ⟨a, answer⟩ = !got →
      ((found c).enter got).Denied (path ++ [⟨a, answer⟩]) := by
    intro c a answer got hfits ht hobtains hrefuses hrefused
    cases got with
    | true =>
      obtain ⟨-, hafter | ⟨_, hout⟩⟩ := ht (refused_append hrefuses hrefused)
      · cases hafter
      · cases hout
    | false => exact ⟨forall_append hfits.1 hobtains, .inr ⟨c, rfl⟩⟩
  cases a with
  | locks b =>
    cases b with
    | obtain k =>
      obtain ⟨rfl, -⟩ := may
      intro hrefused
      obtain ⟨-, hafter | ⟨_, hout⟩⟩ := ht (refused_append rfl hrefused)
      · cases hafter
      · cases hout
    | tryEnter c =>
      obtain rfl : t = found c := may
      exact henter hfits ht rfl rfl
    | leave c =>
      obtain rfl : t = inside c := may
      intro hrefused
      obtain ⟨hnone, -⟩ := ht (refused_append rfl hrefused)
      exact ⟨forall_append hnone rfl, .inr ⟨c, rfl⟩⟩
    | release c =>
      obtain rfl : t = out c := may
      intro hrefused
      obtain ⟨hnone, -⟩ := ht (refused_append rfl hrefused)
      exact ⟨forall_append hnone rfl, .inl rfl⟩
    | tidy k =>
      obtain rfl : t = after := may
      intro hrefused
      obtain ⟨hnone, -⟩ := ht (refused_append rfl hrefused)
      exact ⟨forall_append hnone rfl, .inl rfl⟩
    | _ => exact may.elim
  | wait v =>
    cases v with
    | lock c =>
      obtain rfl : t = found c := may
      refine henter hfits ht rfl ?_
      cases answer <;> rfl
    | _ => exact ht.elsewhere trivial
  | _ => exact ht.elsewhere trivial

end Tenure

/-- **A strand that was refused its domain is never given it.** -/
theorem Weave.unobtained_of_refused {β : Type} {program : Job → Steward Outcome}
    {mains : List (Steward β)} {K : Nat → String → Prop} {w : Weave β} {i : Nat}
    (heeds : ∀ v, Strides program (start mains) v → v.Heeds K)
    (h : Strides program (start mains) w)
    (hrefused : ∃ x ∈ happenings w.log i, x.refusesDomain = true) :
    ∀ x ∈ happenings w.log i, x.obtainsDomain = false := by
  have hdenied := tenure_path (P := fun t path => t.Fits path ∧ t.Denied path) heeds h i
    ⟨⟨fun _ h => absurd h List.not_mem_nil, fun _ h => absurd h List.not_mem_nil⟩,
      fun ⟨_, h, _⟩ => absurd h List.not_mem_nil⟩
    fun _ ⟨hfits, ht⟩ may => ⟨hfits.next may, ht.next hfits may⟩
  exact (hdenied.2 hrefused).1

namespace Contending

open Weave

variable {p : RenewalPractice} {requests : List (IssuanceRequest × LockMode)}
variable {w : Weave Issued} {i : Nat} {r : IssuanceRequest} {mode : LockMode}
variable {pre post : List Event} {e : Event}

/-- A run that was refused its domain is never given it. -/
theorem unobtained_of_refused (h : Contending p requests w)
    (hrefused : ∃ x ∈ happenings w.log i, x.refusesDomain = true) :
    ∀ x ∈ happenings w.log i, x.obtainsDomain = false :=
  Weave.unobtained_of_refused (fun _ => heeds) h hrefused

/-- What a run knows can be read off the log. -/
theorem knownBy_log (h : Contending p requests w) (hr : requests[i]? = some (r, mode))
    (limit : Duration) : knownBy limit w.log i = w.standing limit i := by
  obtain ⟨s, here, hmain, -⟩ := h.main_here hr
  rw [standing, journal, job?_of_here here, hmain]
  rfl

/-- A run that makes a call, or whose job does, holds its domain. -/
theorem hasDomain_of_call {s : Strand Issued} {k : Nat} {a : Act}
    {next : a.Answer → Steward (Outcome ⊕ Issued)} (h : Contending p requests w)
    (here : w.strands[k]? = some s) (asks : s.program = .ask a next) (hcall : a.IsCall) :
    (w.standing p.issuance.settings.callTimeout s.run).hasDomain = true := by
  cases hjob : s.job with
  | some job => exact (h.licensed here hjob).hasDomain
  | none =>
    obtain ⟨r, mode, -, hmay⟩ := h.mayAsk here hjob asks
    rw [(h.kinds.main k s here hjob).1]
    cases a with
    | authority q => exact hmay.1
    | dns q =>
      cases q with
      | supports => exact hmay
      | _ => exact hmay.elim
    | _ => exact hcall.elim

/-- A request was made in a weave that knew of all that was in the log before. -/
theorem asked (h : Contending p requests w) (hr : requests[i]? = some (r, mode))
    (hlog : w.log = pre ++ e :: post) (hrun : e.run = i) :
    ∃ (v : Weave Issued) (s : Strand Issued) (next : e.act.Answer → Steward (Outcome ⊕ Issued)),
      Contending p requests v ∧ v.log = pre ∧ v.strands[e.strand]? = some s ∧ s.run = i ∧
        s.program = .ask e.act next ∧ ∀ limit, knownBy limit pre i = v.standing limit i := by
  obtain ⟨v, s, next, hlead, hpre, here, hsrun, asks⟩ :=
    Weave.Leads.event h (fun _ _ => Weave.Stride.turn) rfl hlog
  exact ⟨v, s, next, hlead, hpre, here, hsrun.trans hrun, asks,
    fun limit => hpre ▸ knownBy_log hlead hr limit⟩

theorem accepted_of_known {limit : Duration} (hk : (knownBy limit pre i).Accepted r) :
    ∃ normal spec key, r.normal = .ok normal ∧ ⟨.freshKey spec, key⟩ ∈ happenings pre i ∧
      (normal.signed key).isOk := by
  obtain ⟨normal, key, hnormal, hkey, hsigned⟩ := hk
  obtain hkey | ⟨x, hx, spec, rfl⟩ := Journal.exists_of_foldl
    (P := fun j => j.standing.key = some key) (Q := fun x => ∃ spec, x = ⟨.freshKey spec, key⟩)
    Journal.key_note {} hkey
  · cases hkey
  · exact ⟨normal, spec, key, hnormal, hx, hsigned⟩

theorem call_inSequence (h : Contending p requests w) (hr : requests[i]? = some (r, mode))
    (hlog : w.log = pre ++ e :: post) (hrun : e.run = i) (hcall : e.act.IsCall) :
    (∃ x ∈ happenings pre i, x.obtainsDomain = true) ∧ ∃ normal spec key,
      r.normal = .ok normal ∧ ⟨.freshKey spec, key⟩ ∈ happenings pre i ∧
        (normal.signed key).isOk := by
  obtain ⟨v, s, next, hlead, hpre, here, hsrun, asks, hknown⟩ := h.asked hr hlog hrun
  have hdomain := hasDomain_of_call hlead here asks hcall
  rw [hsrun] at hdomain
  have haccepted := accepted hlead hr hdomain
  rw [← hknown] at hdomain haccepted
  refine ⟨?_, accepted_of_known haccepted⟩
  obtain hno | hobtains := Journal.exists_of_foldl (P := fun j => j.standing.hasDomain = true)
    (Q := fun x => x.obtainsDomain = true) Journal.hasDomain_note {} hdomain
  · cases hno
  · exact hobtains

theorem create_inSequence {name value : String} (h : Contending p requests w)
    (hr : requests[i]? = some (r, mode)) (hlog : w.log = pre ++ e :: post) (hrun : e.run = i)
    (hact : e.act = .dns (.create name value)) :
    (knownBy p.issuance.settings.callTimeout pre i).Cleared := by
  obtain ⟨v, s, next, hlead, hpre, here, hsrun, asks, hknown⟩ := h.asked hr hlog hrun
  rw [hknown]
  obtain ⟨strand, run, act, answer⟩ := e
  obtain rfl : act = _ := hact
  obtain ⟨c, hjob, -⟩ := hlead.may here asks
  have hlicence := licensed hlead here hjob
  rw [hsrun] at hlicence
  exact hlicence.cleared rfl

/-- The run itself asks the authority. -/
theorem mayAsk_authority {q : AuthorityRequest} (h : Contending p requests w)
    (hr : requests[i]? = some (r, mode)) (hlog : w.log = pre ++ e :: post) (hrun : e.run = i)
    (hact : e.act = .authority q) :
    ∃ v : Weave Issued, Contending p requests v ∧ v.log = pre ∧ e.strand = i ∧
      knownBy p.issuance.settings.callTimeout pre i = v.standing p.issuance.settings.callTimeout i ∧
      (v.standing p.issuance.settings.callTimeout i).MayAsk q := by
  obtain ⟨v, s, next, hlead, hpre, here, hsrun, asks, hknown⟩ := h.asked hr hlog hrun
  have hmain : s.job = none := job_eq_none hlead here asks (.inr ⟨q, hact⟩)
  have hstrand : e.strand = i := (hlead.kinds.main e.strand s here hmain).1.symm.trans hsrun
  refine ⟨v, hlead, hpre, hstrand, hknown _, ?_⟩
  have hmay := hlead.asks (hstrand ▸ here) hmain hr asks
  rw [hact] at hmay
  exact hmay.2

/-- A job that provided a record has made it, or another one has. -/
theorem created_of_ended {name value : String} {o : DnsHandle} (h : Contending p requests w)
    (hr : requests[i]? = some (r, mode))
    (hended : (.provision name value, .provisioned (.ok o)) ∈
      (w.standing p.issuance.settings.callTimeout i).ended) : w.Created (slotKey name value) := by
  obtain ⟨j, t, here, hjob, -, ho⟩ := h.ended hr hended
  have hends := h.ends here (Weave.done_of_outcome? ho here).2
  rw [hjob] at hends
  obtain ⟨result, hresult, he⟩ | ⟨hinterrupted, -⟩ := hends
  · cases hresult
    rw [errand_journal] at he
    exact h.recorded.done j t _ _ here hjob rfl (.inl he)
  · cases hinterrupted

theorem ready_inSequence {order : OrderHandle} {url : String} (h : Contending p requests w)
    (hr : requests[i]? = some (r, mode)) (hlog : w.log = pre ++ e :: post) (hrun : e.run = i)
    (hact : e.act = .authority (.challengeReady order url)) :
    ∃ as, (knownBy p.issuance.settings.callTimeout pre i).authorizations.head? = some as ∧
      ∀ x ∈ (ChallengeSet.ofAuthorizations as).entries, ∃ e' ∈ pre, ∃ o,
        e'.made? = some o ∧ o.key = x.key := by
  obtain ⟨v, hlead, hpre, -, hknown, hprovisioned⟩ := h.mayAsk_authority hr hlog hrun hact
  obtain ⟨as, hhead, hall⟩ := hprovisioned
  refine ⟨as, hknown ▸ hhead, fun x hx => ?_⟩
  obtain ⟨o, hended⟩ := hall x hx
  rw [← hpre]
  exact created_of_ended hlead hr hended

theorem finalize_inSequence {order : OrderHandle} {request : List UInt8}
    (h : Contending p requests w) (hr : requests[i]? = some (r, mode))
    (hlog : w.log = pre ++ e :: post) (hrun : e.run = i)
    (hact : e.act = .authority (.finalize order request)) :
    (knownBy p.issuance.settings.callTimeout pre i).Validated ∧
      ∀ e' ∈ pre, e'.run = i → ∀ order request, e'.act ≠ .authority (.finalize order request) := by
  obtain ⟨v, hlead, hpre, -, hknown, hnone, hvalidated⟩ := h.mayAsk_authority hr hlog hrun hact
  refine ⟨hknown ▸ hvalidated, fun e' he' hrun' order' request' hact' => ?_⟩
  -- an earlier request of this kind was made by the run itself
  obtain ⟨pre', post', hlog'⟩ := List.append_of_mem (hpre ▸ he' : e' ∈ v.log)
  obtain ⟨_, -, -, hstrand, -⟩ := hlead.mayAsk_authority hr hlog' hrun' hact'
  rw [← hknown] at hnone
  obtain ⟨strand, run, act, answer⟩ := e'
  obtain rfl : act = _ := hact'
  have hmem : (⟨.authority (.finalize order' request'), answer⟩ : Happening) ∈ happenings pre i :=
    List.mem_map.mpr ⟨_, List.mem_filter.mpr ⟨he', by simpa using hstrand⟩, rfl⟩
  exact Journal.not_finalized {} hnone hmem

/-- **The calls of a run are in order**, whatever it is answered, however runs and jobs come between
each other, and wherever they are interrupted. A run that succeeds has passed through all states of
the machine, and a run that reports a misplaced event does so because the authority answered with
such a fault. -/
theorem inSequence (h : Contending p requests w) (hr : requests[i]? = some (r, mode)) :
    InSequence p.issuance.settings.callTimeout r i w.log ∧
      (∀ c, w.returned i = some (.ok c) → c.report.visited = IssuanceState.wholeCourse) ∧
      ∀ e m, w.returned i = some (.error e) → e.root = .misplaced m → ∃ q e' time,
        ⟨.authority q, (.error e', time)⟩ ∈ happenings w.log i ∧ e'.root = .misplaced m := by
  have hconcluded : ∀ x, w.returned i = some x →
      (w.journal p.issuance.settings.callTimeout i).Concluded p.issuance.countsDebt x := by
    intro x hx
    obtain ⟨s, here, hmain, -⟩ := h.main_here hr
    have hends := h.ends here (done_of_returned hx here).2
    rw [hmain] at hends
    exact hends
  refine ⟨⟨fun _ _ _ => h.call_inSequence hr, fun hrefused e he hrun hcall => ?_,
      fun _ _ _ _ _ => h.create_inSequence hr, fun _ _ _ _ _ => h.ready_inSequence hr,
      fun _ _ _ _ _ => h.finalize_inSequence hr⟩,
    fun c hc => (hconcluded _ hc).visited c rfl, fun e m he hroot => ?_⟩
  · obtain ⟨pre, post, hlog⟩ := List.append_of_mem he
    obtain ⟨⟨x, hx, hobtains⟩, -⟩ := h.call_inSequence hr hlog hrun hcall
    have hmem : x ∈ happenings w.log i := by
      rw [hlog, happenings, List.filter_append, List.map_append]
      exact List.mem_append_left _ hx
    rw [h.unobtained_of_refused hrefused x hmem] at hobtains
    cases hobtains
  · obtain ⟨e', he', hroot'⟩ := (hconcluded _ he).explains e rfl m hroot
    obtain ⟨s, here, hmain, -⟩ := h.main_here hr
    rw [journal, job?_of_here here, hmain] at he'
    obtain hno | ⟨x, hx, q, time, rfl⟩ := Journal.exists_of_foldl (P := fun j => e' ∈ j.errors)
      (Q := fun x => ∃ q time, x = ⟨.authority q, (.error e', time)⟩) Journal.errors_note _ he'
    · exact absurd hno List.not_mem_nil
    · exact ⟨q, e', time, hx, hroot'⟩

end Contending

/-! ### An authority that answers with a fault of the machine -/

section Alone

/-- A run that is alone has come to program `q`, and domains are as in `locks`. -/
def Alone (requests : List (IssuanceRequest × LockMode)) (q : Steward (Outcome ⊕ Issued))
    (b : Bool) (locks : MutexTable String Unit) : Prop :=
  ∃ w, Contending {} requests w ∧ w.locks = locks ∧
    w.strands = [{ run := 0, program := q, isWatching := b, stage := .running }]

variable {requests : List (IssuanceRequest × LockMode)} {b : Bool}
variable {locks : MutexTable String Unit}

/-- It is answered as its surroundings please. -/
theorem Alone.act {a : Act} {next : a.Answer → Steward (Outcome ⊕ Issued)}
    (h : Alone requests (.ask a next) b locks) (answer : a.Answer)
    (fits : ∀ w : Weave Issued, w.Fits a answer)
    (serves : ∀ (w : Weave Issued) s, w.serve ({} : RenewalPractice).program s a = w) :
    Alone requests (next answer) (a.watching b answer) locks := by
  obtain ⟨w, hw, hlocks, hs⟩ := h
  refine ⟨_, .step hw (.act (i := 0) (by rw [hs]; rfl) rfl rfl (fits w)), ?_, ?_⟩
  · rw [serves]
    exact hlocks
  · rw [serves, Weave.strands_resume, hs]
    rfl

/-- It takes a step on the table of domains. -/
theorem Alone.lock {a : TableAct String Unit} {next : a.Answer → Steward (Outcome ⊕ Issued)}
    (h : Alone requests (.ask (.locks a) next) b locks) :
    Alone requests (next (locks.apply () a).1.1) b (locks.apply () a).2 := by
  obtain ⟨w, hw, rfl, hs⟩ := h
  have hacts : Weave.Stride ({} : RenewalPractice).program w _ :=
    @Weave.Stride.act _ _ _ 0 _ (.locks a) next _ (by rw [hs]; rfl) rfl rfl rfl
  refine ⟨_, .step hw hacts, rfl, ?_⟩
  rw [Weave.strands_resume, Weave.serve, hs]
  rfl

/-- It sleeps. -/
theorem Alone.sleep {time : Duration} {next : Option Unit → Steward (Outcome ⊕ Issued)}
    (h : Alone requests (.ask (.wait (.sleep time)) next) b locks) :
    Alone requests (next (some ())) b locks := by
  obtain ⟨w, hw, hlocks, hs⟩ := h
  have simple : ∀ jobs, Wait.sleep time ≠ .all jobs := fun _ h => by cases h
  let s : Strand Issued :=
    { run := 0, program := .ask (.wait (.sleep time)) next, isWatching := b, stage := .running }
  have hsleeps : Weave.Stride ({} : RenewalPractice).program w _ :=
    .wait (i := 0) (s := s) (by rw [hs]; rfl) rfl rfl simple
  have hwakes : Weave.Stride ({} : RenewalPractice).program
      ((w.enter 0 (.sleep time)).put 0 { s with stage := .waiting [] }) _ :=
    @Weave.Stride.goOn _ _ _ 0 { s with stage := .waiting [] } [] (.sleep time) next ()
      (by simp [Weave.put, Weave.enter, hs]) rfl rfl trivial
  refine ⟨_, .step (.step hw hsleeps) hwakes, hlocks, ?_⟩
  simp [Weave.put, Weave.enter, hs, Act.watching, s]

/-- It waits for no jobs. -/
theorem Alone.gather {next : Option (List Outcome) → Steward (Outcome ⊕ Issued)}
    (h : Alone requests (.ask (.wait (.all [])) next) b locks) :
    Alone requests (next (some [])) b locks := by
  obtain ⟨w, hw, hlocks, hs⟩ := h
  let s : Strand Issued :=
    { run := 0, program := .ask (.wait (.all [])) next, isWatching := b, stage := .running }
  have hdivides : Weave.Stride ({} : RenewalPractice).program w _ :=
    .divide (i := 0) (s := s) (by rw [hs]; rfl) rfl rfl
  have hgathers : Weave.Stride ({} : RenewalPractice).program _ _ :=
    @Weave.Stride.gather _ _ (w.divide ({} : RenewalPractice).program 0 s []) 0
      { s with stage := .waiting [] } [] [] next [] (by simp [Weave.divide, Weave.fresh, hs, s])
      rfl rfl rfl
  refine ⟨_, .step (.step hw hdivides) hgathers, hlocks, ?_⟩
  simp [Weave.divide, hs, Act.watching, s]

end Alone

/-- An event that the machine would not take. -/
def sampleMisplaced : Misplaced := { state := .start, event := .fail }

/-- A request for `example.com` that does not wait for its domain. -/
def sampleRequest : List (IssuanceRequest × LockMode) := [(⟨"example.com", [], false⟩, .skip)]

/-- A run whose authority says that an event was misplaced, when it is asked for an account. -/
theorem Contending.misplaced_reported : ∃ w, Contending {} sampleRequest w ∧
    w.returned 0 = some (.error (.failed "example.com" .start (.misplaced sampleMisplaced))) := by
  let key : Except MaterialError KeyPair := .ok { spec := .ecdsaP256, secret := [] }
  have free : ∀ (w : Weave Issued) (s : Strand Issued), w = w := fun _ _ => rfl
  have h : Alone sampleRequest (.inr <$> issueCertificate {} ⟨"example.com", [], false⟩ .skip)
      false {} := ⟨_, .step .refl (.begin (i := 0) rfl rfl), rfl, rfl⟩
  have h := h.act (a := .freshKey (IssuanceSettings.key {})) key (fun _ => trivial) free
  have h := h.lock (a := .obtain "example.com")
  have h := h.lock (a := .tryEnter 0)
  have h := h.act (a := .now) (0 : Nat) (fun _ => trivial) free
  have h := h.act (a := .watch) true (fun _ => trivial) free
  have h := h.act (a := .now) (0 : Nat) (fun _ => trivial) free
  have h := h.act (a := .authority .ensureAccount) (.error (.misplaced sampleMisplaced), (0 : Nat))
    (fun _ => trivial) free
  have h := h.sleep
  have h := h.act (a := .unwatch) () (fun _ => trivial) free
  have h := h.gather
  have h := h.act (a := .note (.debt 0)) () (fun _ => trivial) free
  have h := h.act (a := .now) (0 : Nat) (fun _ => trivial) free
  have h := h.lock (a := .leave 0)
  have h := h.lock (a := .release 0)
  have h := h.lock (a := .tidy "example.com")
  obtain ⟨w, hw, -, hs⟩ := h
  refine ⟨_, .step hw (.finish (i := 0) (by rw [hs]; rfl) rfl rfl), ?_⟩
  rw [Weave.returned, Weave.put, hs]
  rfl

/-- The calls of that run are in order, and it was the authority that spoke of a misplaced event. -/
theorem Contending.inSequence_sampleRequest : ∃ w, Contending {} sampleRequest w ∧
    InSequence (IssuanceSettings.callTimeout {}) ⟨"example.com", [], false⟩ 0 w.log ∧
    ∃ q e time, ⟨.authority q, (.error e, time)⟩ ∈ happenings w.log 0 ∧
      e.root = .misplaced sampleMisplaced := by
  obtain ⟨w, hw, hreturned⟩ := misplaced_reported
  obtain ⟨hsequence, -, hmisplaced⟩ := inSequence hw (i := 0) rfl
  exact ⟨w, hw, hsequence, hmisplaced _ _ hreturned rfl⟩

/-- A run may end with a fault of misplaced events: that does not depend on the run alone. -/
theorem Contending.ends_misplaced : ¬ ∀ p requests w i e, Contending p requests w →
    w.returned i = some (.error e) → ∀ m, e.root ≠ .misplaced m := by
  intro hnever
  obtain ⟨w, hw, hreturned⟩ := misplaced_reported
  exact hnever _ _ w 0 _ hw hreturned _ rfl

end CertSteward
