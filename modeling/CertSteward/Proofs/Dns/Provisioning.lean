import CertSteward.Proofs.Dns.Errand
import CertSteward.Run.Jobs

/-!
# Jobs go on their errands

Each job of the DNS service takes only the steps of its errand, in their order, whatever it is
answered.

## Main results

* `keeps_createRecord`, `keeps_provision`, `keeps_deprovision`, `keeps_propagate`
* `keeps_program` — all of them
-/

namespace CertSteward

/-! ### Trying again -/

section Retry

variable {ε α σ : Type} {C : Conduct σ} {call : Watched (Except ε α)} {I : σ → Prop}
variable {T : σ → Except ε α → Prop} {again : ε → Bool}

/-- A call that cannot be interrupted is tried again from where a failed try leads. -/
theorem Conduct.keeps_retryFrom {start : Duration}
    (hcall : ∀ s, I s → C.Keeps (fun b s o => b = false ∧ ∃ x, o = some x ∧ T s x) false s call.run)
    (hrest : ∀ s e, T s (.error e) → I s ∧ (C.may false s .now ∧ ∀ t, C.next s .now t = s) ∧
      ∀ time, C.may false s (.wait (.sleep time)) ∧ C.next s (.wait (.sleep time)) (some ()) = s) :
    ∀ (retries : Nat) (s : σ) (b : Backoff), I s →
      C.Keeps (fun b s o => b = false ∧ ∃ x, o = some x ∧ T s x) false s
        (retryFrom again call start retries b).run := by
  intro retries
  induction retries with
  | zero => exact fun s b hs => hcall s hs
  | succ retries ih =>
    intro s b hs
    refine Conduct.keeps_run_bind.mpr ((hcall s hs).mono ?_)
    rintro _ s _ ⟨rfl, x, rfl, hx⟩
    cases x with
    | ok a => exact ⟨rfl, _, rfl, hx⟩
    | error e =>
      obtain ⟨hs, ⟨hnow, hsame⟩, hsleep⟩ := hrest s e hx
      change C.Keeps _ false s (if again e then _ else _ : Watched _).run
      by_cases hagain : again e = true
      · rw [if_pos hagain]
        refine Conduct.keeps_run_bind.mpr (Conduct.keeps_run_perform.mpr ⟨hnow, fun now _ => ?_⟩)
        rw [hsame now]
        change C.Keeps _ false s _
        cases b.next? (now - start) with
        | none => exact ⟨rfl, _, rfl, hx⟩
        | some next =>
          obtain ⟨hmay, hstay⟩ := hsleep next.1
          refine Conduct.keeps_run_bind.mpr (Conduct.keeps_run_await.mpr ⟨hmay, ?_⟩)
          rintro (_ | ⟨⟩) hpossible
          · cases hpossible
          · rw [hstay]
            exact ih s next.2 hs
      · rw [if_neg hagain]
        exact ⟨rfl, _, rfl, hx⟩

theorem Conduct.keeps_retry {policy : BackoffPolicy} {retries : Nat} {s : σ} (hs : I s)
    (hnow : C.may false s .now ∧ ∀ t, C.next s .now t = s)
    (hcall : ∀ s, I s → C.Keeps (fun b s o => b = false ∧ ∃ x, o = some x ∧ T s x) false s call.run)
    (hrest : ∀ s e, T s (.error e) → I s ∧ (C.may false s .now ∧ ∀ t, C.next s .now t = s) ∧
      ∀ time, C.may false s (.wait (.sleep time)) ∧ C.next s (.wait (.sleep time)) (some ()) = s) :
    C.Keeps (fun b s o => b = false ∧ ∃ x, o = some x ∧ T s x) false s
      (retry policy retries again call).run := by
  refine Conduct.keeps_run_bind.mpr (Conduct.keeps_run_perform.mpr ⟨hnow.1, fun now _ => ?_⟩)
  rw [hnow.2 now]
  exact keeps_retryFrom hcall hrest _ s _ hs

end Retry

namespace DnsPractice

variable {p : DnsPractice} {name value : String} {c : Nat}

/-! ### Making a record -/

/-- What one try to make a record leads to. -/
def Tried (name value : String) (c : Nat) (e : Errand) : Except DnsError String → Prop
  | .ok id => e = .made (slotKey name value) c id
  | .error _ => e = .making (slotKey name value) c

theorem keeps_createOnce :
    (errands (some (.createRecord c name value))).Keeps
      (fun b e o => b = false ∧ ∃ x, o = some x ∧ Tried name value c e x) false
      (.making (slotKey name value) c) (createOnce name value).run := by
  unfold createOnce
  refine Conduct.keeps_run_bind.mpr (Conduct.keeps_run_perform.mpr ⟨⟨c, rfl, rfl⟩, ?_⟩)
  rintro ⟨result, time⟩ -
  obtain ⟨e, he, htried⟩ : ∃ e, (errands (some (.createRecord c name value))).next
      (.making (slotKey name value) c) (.dns (.create name value)) (result, time) = e ∧
      Tried name value c e result := ⟨_, rfl, by cases result <;> rfl⟩
  rw [he]
  cases time with
  | none => exact ⟨rfl, _, rfl, htried⟩
  | some time =>
    have hsleep : e.MaySleep := by
      cases result <;> rw [htried] <;> trivial
    refine Conduct.keeps_run_bind.mpr (Conduct.keeps_run_await.mpr ⟨hsleep, ?_⟩)
    rintro (_ | _) hpossible
    · cases hpossible
    · refine Conduct.keeps_run_bind.mpr (Conduct.keeps_run_perform.mpr ⟨⟨c, name, value, rfl⟩, ?_⟩)
      exact fun _ _ => ⟨rfl, _, rfl, htried⟩

theorem keeps_createRecord :
    (errands (some (.createRecord c name value))).Keeps
      (fun _ e r => e = .free r.isOk) false (.making (slotKey name value) c)
      (p.createRecord c name value) := by
  unfold createRecord
  refine Conduct.keeps_bind.mpr ((Conduct.keeps_retry
    (I := fun e => e = .making (slotKey name value) c) (T := Tried name value c) rfl
    ⟨trivial, fun _ => rfl⟩ ?_ ?_).mono ?_)
  · rintro _ rfl
    exact keeps_createOnce
  · rintro _ _ rfl
    exact ⟨rfl, ⟨trivial, fun _ => rfl⟩, fun _ => ⟨trivial, rfl⟩⟩
  · rintro _ e _ ⟨rfl, x, rfl, htried⟩
    cases x with
    | ok id =>
      obtain rfl := htried
      refine Conduct.keeps_bind.mpr (Conduct.keeps_perform.mpr ⟨.inl ⟨_, id, rfl, rfl⟩, fun _ _ => ?_⟩)
      refine Conduct.keeps_bind.mpr (Conduct.keeps_perform.mpr ⟨rfl, fun _ _ => ?_⟩)
      exact Conduct.keeps_bind.mpr (Conduct.keeps_perform.mpr ⟨⟨_, rfl⟩, fun _ _ => rfl⟩)
    | error e =>
      obtain rfl := htried
      refine Conduct.keeps_bind.mpr (Conduct.keeps_perform.mpr ⟨rfl, fun _ _ => ?_⟩)
      exact Conduct.keeps_bind.mpr (Conduct.keeps_perform.mpr ⟨⟨_, rfl⟩, fun _ _ => rfl⟩)

/-- Whether a record is there, by the result of a program that was to make it. -/
def isThere : Option (Except DnsError DnsHandle) → Bool
  | some r => r.isOk
  | none => false

theorem keeps_provisionHeld {b : Bool} :
    (errands (some (.provision name value))).Keeps (fun _ e o => e = .out c (isThere o)) b
      (.seen (slotKey name value) c none) (provisionHeld c name value).run := by
  unfold provisionHeld
  refine Conduct.keeps_run_bind.mpr (Conduct.keeps_run_perform.mpr ⟨⟨_, rfl, _, _, rfl⟩, fun _ _ => ?_⟩)
  refine Conduct.keeps_run_bind.mpr (Conduct.keeps_run_perform.mpr
    ⟨⟨c, name, value, rfl, rfl⟩, fun job _ => ?_⟩)
  refine Conduct.keeps_run_bind.mpr (Conduct.keeps_run_await.mpr ⟨⟨_, c, rfl⟩, ?_⟩)
  have hdiscard : ∀ (b : Bool) (f : Watched (Except DnsError DnsHandle)),
      (∀ b, (errands (some (.provision name value))).Keeps (fun _ e o => e = .out c (isThere o)) b
        (.out c false) f.run) →
      (errands (some (.provision name value))).Keeps (fun _ e o => e = .out c (isThere o)) b
        (.failed (slotKey name value) c)
        (do slotStep (.discard (slotKey name value) c); f : Watched _).run := by
    intro b f hf
    exact Conduct.keeps_run_bind.mpr (Conduct.keeps_run_perform.mpr ⟨rfl, fun _ _ => hf b⟩)
  rintro (_ | o) -
  · rfl
  · cases o with
    | created r =>
      cases r with
      | ok id => rfl
      | error e => exact hdiscard b _ fun _ => rfl
    | _ => exact hdiscard b _ fun _ => rfl

theorem keeps_provision {b : Bool} :
    (errands (some (.provision name value))).Keeps (fun _ e o => e = .free (isThere o)) b
      .blank (provision name value).run := by
  refine Conduct.keeps_bind.mpr (Conduct.keeps_perform.mpr ⟨⟨rfl, _, _, rfl, rfl⟩, fun c _ => ?_⟩)
  refine Conduct.keeps_bind.mpr (Conduct.Keeps.mono
    (Q := fun _ e o => e = .out c (isThere o)) ?_ ?_)
  · refine Conduct.keeps_run_bind.mpr (Conduct.keeps_run_await.mpr
      ⟨⟨⟨_, rfl⟩, fun _ => ⟨_, _, rfl⟩⟩, ?_⟩)
    rintro (_ | _) -
    · rfl
    · refine Conduct.keeps_run_bind.mpr (Conduct.keeps_run_perform.mpr ⟨⟨_, rfl⟩, fun v _ => ?_⟩)
      change (errands _).Keeps _ b (.seen (slotKey name value) c v.join) _
      cases hv : v.join with
      | none => exact keeps_provisionHeld
      | some id =>
        exact Conduct.keeps_run_bind.mpr (Conduct.keeps_run_perform.mpr ⟨⟨rfl, rfl⟩, fun _ _ => rfl⟩)
  · rintro _ _ o rfl
    exact Conduct.keeps_bind.mpr (Conduct.keeps_perform.mpr ⟨⟨_, rfl⟩, fun _ _ => rfl⟩)

/-! ### Removing a record -/

/-- What one try to remove a record leads to. -/
def Removed (k : SlotKey) (c : Nat) (id : String) (e : Errand) : Except DnsError Unit → Prop
  | .ok () => e = .deleted k c
  | .error _ => e = .refused k c id

theorem keeps_deprovisionIn {h : DnsHandle} :
    (errands (some (.deprovision h))).Keeps (fun _ e o => ∃ r, o = some r ∧ e = .out c r.isOk) false
      (.found h.key c) (p.deprovisionIn c h).run := by
  unfold deprovisionIn
  refine Conduct.keeps_run_bind.mpr (Conduct.keeps_run_await.mpr ⟨⟨⟨_, rfl⟩, nofun⟩, ?_⟩)
  rintro (_ | _) hpossible
  · cases hpossible
  refine Conduct.keeps_run_bind.mpr (Conduct.keeps_run_perform.mpr ⟨⟨_, rfl⟩, fun v _ => ?_⟩)
  change (errands _).Keeps _ false (.seen h.key c v.join) _
  cases hv : v.join with
  | none =>
    exact Conduct.keeps_run_bind.mpr (Conduct.keeps_run_perform.mpr
      ⟨⟨rfl, rfl⟩, fun _ _ => ⟨_, rfl, rfl⟩⟩)
  | some id =>
    refine Conduct.keeps_run_bind.mpr ((Conduct.keeps_retry
      (I := fun e => e = .seen h.key c (some id) ∨ e = .refused h.key c id) (T := Removed h.key c id)
      (.inl rfl) ⟨trivial, fun _ => rfl⟩ ?_ ?_).mono ?_)
    · intro e he
      refine Conduct.keeps_run_perform.mpr ⟨⟨h, rfl, rfl, .inl ⟨c, he⟩⟩, ?_⟩
      rintro (_ | ⟨⟩) - <;> obtain rfl | rfl := he <;> exact ⟨rfl, _, rfl, rfl⟩
    · rintro _ _ rfl
      exact ⟨.inr rfl, ⟨trivial, fun _ => rfl⟩, fun _ => ⟨trivial, rfl⟩⟩
    · rintro _ e _ ⟨rfl, x, rfl, hremoved⟩
      cases x with
      | ok =>
        obtain rfl := hremoved
        refine Conduct.keeps_run_bind.mpr (Conduct.keeps_run_perform.mpr ⟨.inr ⟨_, rfl, rfl⟩, fun _ _ => ?_⟩)
        refine Conduct.keeps_run_bind.mpr (Conduct.keeps_run_perform.mpr ⟨rfl, fun _ _ => ?_⟩)
        refine Conduct.keeps_run_bind.mpr (Conduct.keeps_run_perform.mpr ⟨⟨c, rfl⟩, fun _ _ => ?_⟩)
        exact ⟨_, rfl, rfl⟩
      | error e =>
        obtain rfl := hremoved
        refine Conduct.keeps_run_bind.mpr (Conduct.keeps_run_perform.mpr ⟨rfl, fun _ _ => ?_⟩)
        exact ⟨_, rfl, rfl⟩

theorem keeps_deprovision {h : DnsHandle} :
    (errands (some (.deprovision h))).Keeps (fun _ e r => e = .free r.isOk) false .blank
      (p.deprovision h) := by
  unfold deprovision
  refine Conduct.keeps_bind.mpr (Conduct.keeps_perform.mpr ⟨⟨rfl, .inr ⟨h, rfl, rfl⟩⟩, ?_⟩)
  rintro (_ | c) -
  · refine Conduct.keeps_perform.mpr ⟨⟨h, rfl, rfl, .inr ⟨rfl, rfl⟩⟩, fun r _ => ?_⟩
    rfl
  · refine Conduct.keeps_bind.mpr (keeps_deprovisionIn.mono ?_)
    rintro _ _ _ ⟨r, rfl, rfl⟩
    exact Conduct.keeps_bind.mpr (Conduct.keeps_perform.mpr ⟨⟨_, rfl⟩, fun _ _ => rfl⟩)

end DnsPractice

/-! ### Waiting for name servers -/

/-- Requests that look at what name servers see, or wait. -/
def Act.IsLook : Act → Prop
  | .now | .lookUp .. | .wait (.sleep _) => True
  | _ => False

theorem PropagationPlan.only_look (plan : PropagationPlan) (deadline : Duration)
    (name value : String) : Steward.Only Act.IsLook (plan.look deadline name value).run := by
  have hpause : ∀ time, Steward.Only Act.IsLook (pause time).run :=
    fun time => Steward.only_perform trivial
  unfold look
  refine (Steward.only_run_perform trivial).run_bind fun x => (hpause x.2).run_bind fun _ => ?_
  change Steward.Only Act.IsLook (if _ then _ else _ : Watched _).run
  split
  · exact Steward.only_run_pure _
  refine (Steward.only_run_perform trivial).run_bind fun now => ?_
  change Steward.Only Act.IsLook (if _ then _ else _ : Watched _).run
  split
  · exact Steward.only_run_pure _
  · exact (hpause _).run_bind fun _ => Steward.only_run_pure _

theorem PropagationPlan.only_await (plan : PropagationPlan) (name value : String) :
    Steward.Only Act.IsLook (plan.await name value).run := by
  unfold await
  refine (Steward.only_run_perform trivial).run_bind fun now => ?_
  refine (Steward.only_perform (a := .wait (.sleep plan.initialDelay)) trivial).run_bind fun _ => ?_
  exact .loop (fun _ => only_look plan _ name value) (Steward.only_run_pure _) _ _

theorem keeps_propagate {p : RenewalPractice} {b : Bool} {name value : String} :
    (errands (some (.propagate name value))).Keeps (fun _ e _ => e = .blank) b .blank
      (p.program (.propagate name value)) := by
  have honly : Steward.Only Act.IsLook (p.program (.propagate name value)) := by
    unfold RenewalPractice.program
    cases p.issuance.dns.propagation with
    | none => exact Steward.only_pure _
    | some plan => exact (plan.only_await name value).bind fun _ => Steward.only_pure _
  refine (Conduct.Keeps.of_only honly ?_ ?_ ?_).mono fun _ _ _ h => h.2
  · intro b a ha
    cases a with
    | wait v =>
      cases v with
      | sleep => trivial
      | _ => exact ha.elim
    | now | lookUp => trivial
    | _ => exact ha.elim
  · intro a answer ha
    cases a with
    | wait v =>
      cases v with
      | sleep => rfl
      | _ => exact ha.elim
    | now | lookUp => rfl
    | _ => exact ha.elim
  · intro b a answer ha
    cases a with
    | wait | now | lookUp => rfl
    | _ => exact ha.elim

/-! ### All jobs of the DNS service -/

/-- Whether a job is one of the DNS service, and runs as it is meant to: only who makes a record, or
waits until it is seen, can be interrupted. -/
def Job.IsErrand (b : Bool) : Job → Prop
  | .provision .. | .propagate .. => True
  | .createRecord .. | .deprovision _ => b = false
  | _ => False

/-- **Jobs go on their errands**, and their outcomes tell what came of them. -/
theorem keeps_program {p : RenewalPractice} {b : Bool} {j : Job} (h : j.IsErrand b) :
    (errands (some j)).Keeps (fun _ e o => e.EndsWith j o) b (.start (some j)) (p.program j) := by
  cases j with
  | createRecord c name value =>
    obtain rfl := h
    refine Conduct.keeps_map.mpr (DnsPractice.keeps_createRecord.mono ?_)
    rintro _ _ r rfl
    exact ⟨r, rfl, rfl⟩
  | provision name value =>
    refine Conduct.keeps_bind.mpr (DnsPractice.keeps_provision.mono ?_)
    rintro _ _ o rfl
    cases o with
    | none => exact .inr ⟨rfl, rfl⟩
    | some r => exact .inl ⟨r, rfl, rfl⟩
  | deprovision handle =>
    obtain rfl := h
    refine Conduct.keeps_map.mpr (DnsPractice.keeps_deprovision.mono ?_)
    rintro _ _ r rfl
    exact ⟨r, rfl, rfl⟩
  | propagate name value => exact keeps_propagate
  | _ => exact h.elim

end CertSteward
