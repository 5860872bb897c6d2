import CertSteward.Proofs.Issuance.Domains

/-!
# One run at a time for each domain

When a run is told that it holds its domain and when it lets it go can be read off the log. In
between it is *inside*. Two runs that are inside at the same time use two cells, so the keys of
their domains differ; and whatever a run has to do with the authority, with the DNS service or with
its jobs it does inside.

## Main definitions

* `Happening.obtainsDomain`, `Happening.leavesDomain`, `Inside` — the time in which a run holds its
  domain
* `Tenure.Fits` — what has happened fits how far a run is

## Main results

* `Weave.inside_iff` — a strand is inside as long as its tenure says so
* `Weave.eq_of_inside` — strands that are inside at the same time have different domains
* `Weave.unobtained_of_inside` — nobody is given a domain in which another strand is
* `Contending.exclusive` — at most one run for each domain is inside
-/

namespace CertSteward

/-! ### The time inside -/

/-- Whether a run is told that it holds its domain. -/
def Happening.obtainsDomain : Happening → Bool
  | ⟨.locks (.tryEnter _), got⟩ => got
  | ⟨.wait (.lock _), o⟩ => o.isSome
  | _ => false

/-- Whether a run lets its domain go. -/
def Happening.leavesDomain : Happening → Bool
  | ⟨.locks (.leave _), _⟩ => true
  | _ => false

/-- The requests of a strand in a log, with their answers. -/
def happenings (log : List Event) (i : Nat) : List Happening :=
  (log.filter (·.strand == i)).map fun e => ⟨e.act, e.answer⟩

theorem mem_happenings {log : List Event} {i : Nat} {h : Happening} :
    h ∈ happenings log i ↔ ∃ e ∈ log, e.strand = i ∧ ⟨e.act, e.answer⟩ = h := by
  simp [happenings, and_assoc]

theorem happenings_append (first last : List Event) (i : Nat) :
    happenings (first ++ last) i = happenings first i ++ happenings last i := by
  simp [happenings]

/-- A run has been told that it holds its domain, and has not let it go. -/
def Inside (log : List Event) (i : Nat) : Prop :=
  (∃ h ∈ happenings log i, h.obtainsDomain = true) ∧
    ∀ h ∈ happenings log i, h.leavesDomain = false

namespace Inside

variable {first last : List Event} {i : Nat}

/-- Who does not leave stays. -/
theorem append (h : Inside first i)
    (hstays : ∀ e ∈ last, e.strand = i → Happening.leavesDomain ⟨e.act, e.answer⟩ = false) :
    Inside (first ++ last) i := by
  rw [Inside, happenings_append]
  obtain ⟨⟨o, ho, hobtains⟩, hleft⟩ := h
  refine ⟨⟨o, List.mem_append_left _ ho, hobtains⟩, fun o' ho' => ?_⟩
  obtain ho' | ho' := List.mem_append.mp ho'
  · exact hleft o' ho'
  · obtain ⟨e, he, hstrand, rfl⟩ := mem_happenings.mp ho'
    exact hstays e he hstrand

/-- Who is inside was so before, or has come in since. -/
theorem of_append (h : Inside (first ++ last) i) : Inside first i ∨
    ∃ e ∈ last, e.strand = i ∧ Happening.obtainsDomain ⟨e.act, e.answer⟩ = true := by
  rw [Inside, happenings_append] at h
  obtain ⟨⟨o, ho, hobtains⟩, hstays⟩ := h
  obtain ho | ho := List.mem_append.mp ho
  · exact .inl ⟨⟨o, ho, hobtains⟩, fun o' ho' => hstays o' (List.mem_append_left _ ho')⟩
  · obtain ⟨e, he, hstrand, rfl⟩ := mem_happenings.mp ho
    exact .inr ⟨e, he, hstrand, hobtains⟩

/-- Who is inside has been since it came in. -/
theorem since (h : Inside (first ++ last) i) {e : Event} (he : e ∈ first) (hstrand : e.strand = i)
    (hobtains : Happening.obtainsDomain ⟨e.act, e.answer⟩ = true) : Inside first i := by
  refine ⟨⟨_, mem_happenings.mpr ⟨e, he, hstrand, rfl⟩, hobtains⟩, fun o ho => h.2 o ?_⟩
  rw [happenings_append]
  exact List.mem_append_left _ ho

end Inside

namespace Tenure

/-- What has happened fits how far a run is. -/
def Fits : Tenure → List Happening → Prop
  | before, path | found _, path =>
    (∀ h ∈ path, h.obtainsDomain = false) ∧ ∀ h ∈ path, h.leavesDomain = false
  | inside _, path =>
    (∃ h ∈ path, h.obtainsDomain = true) ∧ ∀ h ∈ path, h.leavesDomain = false
  | out _, path | after, path =>
    (∀ h ∈ path, h.obtainsDomain = false) ∨ ∃ h ∈ path, h.leavesDomain = true

variable {t : Tenure} {path : List Happening} {h : Happening} {a : Act} {answer : a.Answer}

/-- Who is inside has been told so, and conversely. -/
theorem Fits.inside_iff (ht : t.Fits path) : (∃ c, t = inside c) ↔
    (∃ h ∈ path, h.obtainsDomain = true) ∧ ∀ h ∈ path, h.leavesDomain = false := by
  constructor
  · rintro ⟨c, rfl⟩
    exact ht
  · rintro ⟨⟨h, hmem, hobtains⟩, hnone⟩
    cases t with
    | inside c => exact ⟨c, rfl⟩
    | before | found =>
      rw [ht.1 h hmem] at hobtains
      cases hobtains
    | out | after =>
      obtain hno | ⟨h', hmem', hleaves⟩ := ht
      · rw [hno h hmem] at hobtains
        cases hobtains
      · rw [hnone h' hmem'] at hleaves
        cases hleaves

theorem forall_append {P : Happening → Bool} (hpath : ∀ h ∈ path, P h = false) (hh : P h = false) :
    ∀ h' ∈ path ++ [h], P h' = false := by
  intro h' hmem
  obtain hmem | hmem := List.mem_append.mp hmem
  · exact hpath h' hmem
  · rw [List.mem_singleton.mp hmem]
    exact hh

theorem exists_append {P : Happening → Bool} (hpath : ∃ h ∈ path, P h = true) :
    ∃ h' ∈ path ++ [h], P h' = true := by
  obtain ⟨h', hmem, hP⟩ := hpath
  exact ⟨h', List.mem_append_left _ hmem, hP⟩

theorem exists_append_self {P : Happening → Bool} (hh : P h = true) :
    ∃ h' ∈ path ++ [h], P h' = true :=
  ⟨h, List.mem_append_right _ List.mem_cons_self, hh⟩

/-- What has nothing to do with coming and going changes nothing. -/
theorem Fits.append (ht : t.Fits path) (hobtains : h.obtainsDomain = false)
    (hleaves : h.leavesDomain = false) : t.Fits (path ++ [h]) := by
  cases t with
  | before | found => exact ⟨forall_append ht.1 hobtains, forall_append ht.2 hleaves⟩
  | inside => exact ⟨exists_append ht.1, forall_append ht.2 hleaves⟩
  | out | after => exact ht.imp (fun hno => forall_append hno hobtains) exists_append

theorem Fits.elsewhere (ht : t.Fits path) (ha : a.LeavesDomains) :
    (t.next a answer).Fits (path ++ [⟨a, answer⟩]) := by
  rw [next_of_leavesDomains ha]
  cases a with
  | locks => exact ha.elim
  | wait v =>
    cases v with
    | lock => exact ha.elim
    | _ => exact ht.append rfl rfl
  | _ => exact ht.append rfl rfl

/-- **What happens next fits how far a run is then.** -/
theorem Fits.next {K : String → Prop} (ht : t.Fits path) (may : t.Allows K a) :
    (t.next a answer).Fits (path ++ [⟨a, answer⟩]) := by
  -- a run that has found its cell is told whether it holds it
  have henter : ∀ {c : Nat} {a : Act} {answer : a.Answer} {got : Bool}, (found c).Fits path →
      Happening.obtainsDomain ⟨a, answer⟩ = got → Happening.leavesDomain ⟨a, answer⟩ = false →
      ((found c).enter got).Fits (path ++ [⟨a, answer⟩]) := by
    intro c a answer got ht hobtains hleaves
    cases got with
    | true => exact ⟨exists_append_self hobtains, forall_append ht.2 hleaves⟩
    | false => exact .inl (forall_append ht.1 hobtains)
  cases a with
  | locks b =>
    cases b with
    | obtain k =>
      obtain ⟨rfl, -⟩ := may
      exact ⟨forall_append ht.1 rfl, forall_append ht.2 rfl⟩
    | tryEnter c =>
      obtain rfl : t = found c := may
      exact henter ht rfl rfl
    | leave c =>
      obtain rfl : t = inside c := may
      exact .inr (exists_append_self rfl)
    | release c =>
      obtain rfl : t = out c := may
      exact ht.imp (fun hno => forall_append hno rfl) exists_append
    | tidy k => exact ht.append rfl rfl
    | _ => exact may.elim
  | wait v =>
    cases v with
    | lock c =>
      obtain rfl : t = found c := may
      exact henter ht rfl rfl
    | _ => exact ht.elsewhere trivial
  | _ => exact ht.elsewhere trivial

/-- Who is told that it holds its domain had found it, and is inside then. -/
theorem inside_of_obtains {K : String → Prop} (may : t.Allows K a)
    (hobtains : Happening.obtainsDomain ⟨a, answer⟩ = true) :
    (∃ c, t = found c) ∧ ∃ c, t.next a answer = inside c := by
  cases a with
  | locks b =>
    cases b with
    | tryEnter c =>
      obtain rfl : t = found c := may
      obtain rfl : answer = true := hobtains
      exact ⟨⟨c, rfl⟩, c, rfl⟩
    | _ => cases hobtains
  | wait v =>
    cases v with
    | lock c =>
      obtain rfl : t = found c := may
      obtain ⟨_, rfl⟩ := Option.isSome_iff_exists.mp hobtains
      exact ⟨⟨c, rfl⟩, c, rfl⟩
    | _ => cases hobtains
  | _ => cases hobtains

end Tenure

namespace Weave

variable {β : Type} {program : Job → Steward Outcome} {mains : List (Steward β)}
variable {K : Nat → String → Prop} {w : Weave β} {i j : Nat}

/-- **What holds of strands and their tenures.** It holds before the first request, and is kept by
whatever the tenure allows. -/
theorem tenure_path {P : Tenure → List Happening → Prop}
    (heeds : ∀ v, Strides program (start mains) v → v.Heeds K)
    (h : Strides program (start mains) w) (i : Nat) (base : P .before [])
    (next : ∀ {t : Tenure} {path : List Happening} {a : Act} (answer : a.Answer), P t path →
      t.Allows (K i) a → P (t.next a answer) (path ++ [⟨a, answer⟩])) :
    P (w.tenure i) (w.path i) := by
  induction h with
  | refl => exact base
  | @step v u hlead hstride ih =>
    obtain hlog | ⟨e, s, next', hlog, here, -, asks⟩ := hstride.turn.log_cases
    · rw [tenure_congr hlog, path_congr hlog]
      exact ih
    · rw [tenure, path_append hlog]
      split
      · rename_i he
        subst he
        rw [List.foldl_append]
        exact next e.answer ih (heeds v hlead e.strand s e.act next' here asks)
      · exact ih

/-- What has happened to a strand fits its tenure. -/
theorem fits_of_strides (heeds : ∀ v, Strides program (start mains) v → v.Heeds K)
    (h : Strides program (start mains) w) (i : Nat) : (w.tenure i).Fits (w.path i) :=
  tenure_path heeds h i ⟨fun _ h => absurd h List.not_mem_nil, fun _ h => absurd h List.not_mem_nil⟩
    fun _ ht may => ht.next may

/-- A strand is inside as long as its tenure says so. -/
theorem inside_iff (heeds : ∀ v, Strides program (start mains) v → v.Heeds K)
    (h : Strides program (start mains) w) : Inside w.log i ↔ ∃ c, w.tenure i = .inside c :=
  (fits_of_strides heeds h i).inside_iff.symm

/-- Strands that are inside at the same time have different domains. -/
theorem eq_of_inside (heeds : ∀ v, Strides program (start mains) v → v.Heeds K)
    (h : Strides program (start mains) w) (hsame : ∀ k l, K i k → K j l → k = l)
    (hi : Inside w.log i) (hj : Inside w.log j) : i = j := by
  obtain ⟨c, hc⟩ := (inside_iff heeds h).mp hi
  obtain ⟨d, hd⟩ := (inside_iff heeds h).mp hj
  have hhoused := housed_of_strides heeds h
  obtain ⟨k, hk, hlook⟩ := hhoused.leads i c (by rw [hc]; rfl)
  obtain ⟨l, hl, hlook'⟩ := hhoused.leads j d (by rw [hd]; rfl)
  -- both domains are looked up under one key, which leads to one cell
  rw [hsame k l hk hl] at hlook
  cases hlook.symm.trans hlook'
  refine (domainsGuarded_of_strides heeds h).single i j c (.inl ?_) (.inl ?_)
  · change (w.tenure i).holds? = some c
    rw [hc]
    rfl
  · change (w.tenure j).holds? = some c
    rw [hd]
    rfl

/-- Two runs that were inside at one time, be it long ago, are one. -/
theorem eq_of_inside_earlier {first last : List Event}
    (heeds : ∀ v, Strides program (start mains) v → v.Heeds K)
    (h : Strides program (start mains) w) (hsame : ∀ k l, K i k → K j l → k = l)
    (hlog : w.log = first ++ last) (hi : Inside first i) (hj : Inside first j) : i = j := by
  obtain ⟨u, hlead, rfl⟩ := Leads.earlier h (fun _ _ => Stride.turn) rfl hlog
  exact eq_of_inside heeds hlead hsame hi hj

/-- **Nobody is given a domain in which another strand is.** -/
theorem unobtained_of_inside {pre post : List Event} {e : Event}
    (heeds : ∀ v, Strides program (start mains) v → v.Heeds K)
    (h : Strides program (start mains) w) (hsame : ∀ k l, K i k → K e.strand l → k = l)
    (hlog : w.log = pre ++ e :: post) (hi : Inside pre i) :
    Happening.obtainsDomain ⟨e.act, e.answer⟩ = false := by
  refine Bool.eq_false_iff.mpr fun hobtains => ?_
  obtain ⟨v, s, next, hlead, rfl, here, -, asks⟩ :=
    Leads.event h (fun _ _ => Stride.turn) rfl hlog
  have may := heeds v hlead _ _ _ _ here asks
  obtain ⟨⟨c, hc⟩, d, hd⟩ := Tenure.inside_of_obtains may hobtains
  have hne : e.strand ≠ i := by
    rintro rfl
    obtain ⟨c', hc'⟩ := (inside_iff heeds hlead).mp hi
    cases hc.symm.trans hc'
  -- were it given the domain, both would be inside
  have hgiven : Inside (v.log ++ [e]) e.strand := by
    have hpath : happenings (v.log ++ [e]) e.strand = v.path e.strand ++ [⟨e.act, e.answer⟩] := by
      simp [happenings, path]
    have hfits : (Tenure.next _ e.act e.answer).Fits _ :=
      (fits_of_strides heeds hlead e.strand).next may
    rw [hd, ← hpath] at hfits
    exact hfits
  have hstays : Inside (v.log ++ [e]) i := hi.append fun _ he hstrand =>
    absurd (List.mem_singleton.mp he ▸ hstrand) hne
  rw [← List.singleton_append, ← List.append_assoc] at hlog
  exact hne (eq_of_inside_earlier heeds h hsame hlog hstays hgiven).symm

end Weave

namespace Contending

variable {p : RenewalPractice} {requests : List (IssuanceRequest × LockMode)}
variable {w u : Weave Issued} {i j : Nat} {s : Strand Issued} {e : Event}

/-- A run is inside as long as its tenure says so. -/
theorem inside_iff (h : Contending p requests w) : Inside w.log i ↔ ∃ c, w.tenure i = .inside c :=
  Weave.inside_iff (fun _ => heeds) h

/-- Runs that are inside at the same time have different domains. -/
theorem eq_of_inside {r r' normal normal' : IssuanceRequest} {mode mode' : LockMode}
    (h : Contending p requests w) (hr : requests[i]? = some (r, mode))
    (hr' : requests[j]? = some (r', mode')) (hnormal : r.normal = .ok normal)
    (hnormal' : r'.normal = .ok normal') (hsame : normal.primary = normal'.primary)
    (hi : Inside w.log i) (hj : Inside w.log j) : i = j := by
  refine Weave.eq_of_inside (fun _ => heeds) h ?_ hi hj
  rintro k l ⟨_, _, hri, _, hni, rfl⟩ ⟨_, _, hrj, _, hnj, rfl⟩
  cases hri.symm.trans hr
  cases hrj.symm.trans hr'
  cases hni.symm.trans hnormal
  cases hnj.symm.trans hnormal'
  exact hsame

/-- What a run asks for, other than to prepare and to come and go, it asks for inside. -/
theorem inside_of_work {pre post : List Event} (h : Contending p requests w)
    (hlog : w.log = pre ++ e :: post) (hmain : e.strand = e.run ∨ ∃ q, e.act = .authority q)
    (hdomains : e.act.LeavesDomains) (hwork : ¬ e.act.IsPreparation) : Inside pre e.run := by
  obtain ⟨v, s, next, hlead, hpre, here, hrun, asks⟩ :=
    Weave.Leads.event h (fun _ _ => Weave.Stride.turn) rfl hlog
  have hjob : s.job = none := by
    obtain hmain | hauthority := hmain
    · exact main_of_run hlead here (hrun.trans hmain.symm)
    · exact job_eq_none hlead here asks (.inr hauthority)
  have hstrand : e.strand = e.run := ((kinds hlead).main e.strand s here hjob).1.symm.trans hrun
  obtain ⟨r, mode, -, hmay⟩ := mayHold hlead here hjob asks
  rw [← hpre, ← hstrand]
  exact (inside_iff hlead).mpr (Tenure.inside_of_may hmay hdomains hwork)

/-- **Mutual exclusion.** Of the runs that go on at the same time, however they come between each
other and wherever they are cancelled, at most one run for each domain is inside. Whatever a run
asks of the authority, of the DNS service and of its jobs, up to the last request of its cleanup, it
asks inside. So a run that does not wait for its domain and is not given it calls nobody. -/
theorem exclusive (h : Contending p requests w) :
    (∀ i j r r' mode mode' normal normal', requests[i]? = some (r, mode) →
      requests[j]? = some (r', mode') → r.normal = .ok normal → r'.normal = .ok normal' →
      normal.primary = normal'.primary → Inside w.log i → Inside w.log j → i = j) ∧
    (∀ pre e post, w.log = pre ++ e :: post → (e.strand = e.run ∨ ∃ q, e.act = .authority q) →
      e.act.LeavesDomains → ¬ e.act.IsPreparation → Inside pre e.run) ∧
    ∀ i r, requests[i]? = some (r, .skip) →
      (∀ h ∈ happenings w.log i, h.obtainsDomain = false) →
      ∀ e ∈ w.log, e.run = i → ∀ q, e.act ≠ .authority q := by
  refine ⟨fun i j r r' mode mode' normal normal' hr hr' hnormal hnormal' hsame hi hj => ?_,
    fun pre e post hlog hmain hdomains hwork => ?_, fun i r hr hnone e he hrun q hq => ?_⟩
  · exact h.eq_of_inside hr hr' hnormal hnormal' hsame hi hj
  · exact h.inside_of_work hlog hmain hdomains hwork
  · obtain ⟨pre, post, hlog⟩ := List.append_of_mem he
    obtain ⟨⟨x, hx, hobtains⟩, -⟩ := h.inside_of_work hlog (.inr ⟨q, hq⟩) (by rw [hq]; trivial)
      (by rw [hq]; exact id)
    -- what happened before is still in the log
    have hmem : x ∈ happenings w.log i := by
      rw [hlog, happenings, List.filter_append, List.map_append]
      exact List.mem_append_left _ (hrun ▸ hx)
    rw [hnone x hmem] at hobtains
    cases hobtains

end Contending

/-! ### Two requests for one domain -/

/-- A request for `Example.COM.` that waits for its domain, and one for `example.com` that does
not. -/
def sampleRequests : List (IssuanceRequest × LockMode) :=
  [(⟨"Example.COM.", [], false⟩, .wait), (⟨"example.com", [], false⟩, .skip)]

/-- The first request holds the domain, and so the second one is refused. -/
theorem Contending.exclusive_sampleRequests :
    ∃ w, Contending {} sampleRequests w ∧ Inside w.log 0 ∧ ¬ Inside w.log 1 ∧
      ∀ e ∈ w.log, e.run = 1 → ∀ q, e.act ≠ .authority q := by
  let key : Except MaterialError KeyPair := .ok { spec := .ecdsaP256, secret := [] }
  have step : ∀ {w u : Weave Issued}, Contending {} sampleRequests w →
      Weave.Stride ({} : RenewalPractice).program w u → Contending {} sampleRequests u :=
    fun h hs => .step h hs
  have act : ∀ {w : Weave Issued} (i : Nat) (a : Act) (answer : a.Answer) {s : Strand Issued}
      {next : a.Answer → Steward (Outcome ⊕ Issued)}, Contending {} sampleRequests w →
      w.strands[i]? = some s → s.stage = .running → s.program = .ask a next → w.Fits a answer →
      Contending {} sampleRequests ((w.serve ({} : RenewalPractice).program s a).resume i s a next
        answer) :=
    fun _ _ _ _ _ h here runs asks fits => .step h (.act here runs asks fits)
  -- the first run comes to its domain
  have h := step .refl (.begin (i := 0) rfl rfl)
  have h := act 0 (.freshKey (IssuanceSettings.key {})) key h rfl rfl rfl trivial
  have h := act 0 .watch true h rfl rfl rfl trivial
  have h := act 0 (.locks (.obtain "example.com")) (0 : Nat) h rfl rfl rfl rfl
  have h := step h (.wait (i := 0) (v := .lock 0) rfl rfl rfl nofun)
  have h := step h (@Weave.Stride.goOn _ _ _ 0 _ _ (.lock 0) _ () rfl rfl rfl
    (List.not_mem_nil (a := 0)))
  -- the second run finds it held
  have h := step h (.begin (i := 1) rfl rfl)
  have h := act 1 (.freshKey (IssuanceSettings.key {})) key h rfl rfl rfl trivial
  have h := act 1 (.locks (.obtain "example.com")) (0 : Nat) h rfl rfl rfl rfl
  have h := act 1 (.locks (.tryEnter 0)) false h rfl rfl rfl rfl
  obtain ⟨w, hw, htold, hstays, hrefused⟩ : ∃ w, Contending {} sampleRequests w ∧
      (happenings w.log 0).any Happening.obtainsDomain = true ∧
      (happenings w.log 0).any Happening.leavesDomain = false ∧
      (happenings w.log 1).any Happening.obtainsDomain = false := ⟨_, h, rfl, rfl, rfl⟩
  have hinside : Inside w.log 0 :=
    ⟨List.any_eq_true.mp htold, fun x hx => by simpa using List.any_eq_false.mp hstays x hx⟩
  have hnone : ∀ x ∈ happenings w.log 1, x.obtainsDomain = false :=
    fun x hx => by simpa using List.any_eq_false.mp hrefused x hx
  obtain ⟨hsingle, -, hskip⟩ := exclusive hw
  refine ⟨w, hw, hinside, fun hsecond => ?_, hskip 1 _ rfl hnone⟩
  cases hsingle 0 1 _ _ _ _ _ _ rfl rfl rfl rfl rfl hinside hsecond

end CertSteward
