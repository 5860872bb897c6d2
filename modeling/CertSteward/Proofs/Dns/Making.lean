import CertSteward.Proofs.Dns.Errand
import CertSteward.Proofs.Run.Parts
import CertSteward.Proofs.Run.Rest
import CertSteward.Run.Jobs
import Mathlib.Algebra.Group.Nat.Defs

/-!
# The making of a challenge record

A record in memory is made by a job that tries again while the service fails for a while. Whether a
try failed or not, all that the tries together come to is one failure or one record, and the slot
that the job has been given says which.

## Main definitions

* `MemoryDns.Attempt` — what tries to make a record come to

## Main results

* `works_retryFrom` — the tries come to an end
* `yields_provision` — a record that has no slot is made, or nothing is
-/

namespace CertSteward

namespace MemoryDns

/-- The key of the slot that a record belongs to. -/
def Entry.key (e : Entry) : SlotKey := (e.name, e.value)

/-- The id of the record that is the `n`th to be made. -/
def recordId (n : Nat) : String := "mem-" ++ toString n

theorem recordId_injective {n n' : Nat} (h : recordId n = recordId n') : n = n' := by
  have hchars := congrArg String.toList h
  rw [recordId, recordId, String.toList_append, String.toList_append] at hchars
  have hdigits := congrArg (Nat.ofDigitChars 10 · 0) (List.append_cancel_left hchars)
  simpa [Nat.toString_eq_ofList_toDigits] using hdigits

variable {d d' d'' : MemoryDns} {name value : String} {result : Except DnsError String}

/-- What one or more tries to make a record come to: a failure that was asked for, or a record. -/
inductive Attempt (d : MemoryDns) (name value : String) : Except DnsError String → MemoryDns → Prop
  | failed {e : DnsError} {d' : MemoryDns} (disturbed : d.failingCreates ≠ 0 ∨ d.refusal ≠ none)
    (entries : d'.entries = d.entries) (made : d'.made = d.made) :
    Attempt d name value (.error e) d'
  | done {d' : MemoryDns} (entries : d'.entries = d.entries ++
      [{ name := Text.lower name, id := recordId (d.made + 1), value }])
    (made : d'.made = d.made + 1) : Attempt d name value (.ok (recordId (d.made + 1))) d'

theorem attempt_create :
    d.Attempt name value (d.create name value).1.1 (d.create name value).2 := by
  rw [create]
  by_cases hfails : d.failingCreates = 0
  · simp only [hfails]
    cases hrefusal : d.refusal with
    | some reason => exact .failed (.inr (by rw [hrefusal]; exact Option.some_ne_none _)) rfl rfl
    | none => cases d.createDelay <;> exact .done rfl rfl
  · simp only [ne_eq, hfails, not_false_eq_true, if_true]
    exact .failed (.inl hfails) rfl rfl

/-- A try after one that has failed. -/
theorem Attempt.again {e : DnsError} (h : d.Attempt name value (.error e) d')
    (h' : d'.Attempt name value result d'') : d.Attempt name value result d'' := by
  cases h with
  | failed disturbed entries made =>
    cases h' with
    | failed _ entries' made' =>
      exact .failed disturbed (entries'.trans entries) (made'.trans made)
    | done entries' made' =>
      rw [made] at entries' made' ⊢
      exact .done (entries ▸ entries') made'

theorem Attempt.settle (h : d.Attempt name value result d') :
    d.Attempt name value result d'.settle := by
  cases h with
  | failed disturbed entries made => exact .failed disturbed entries made
  | done entries made => exact .done entries made

end MemoryDns

/-! ### Slots and the service -/

namespace World

variable {w : World} {d : MemoryDns} {t : MutexTable SlotKey (Option String)} {c : Nat}
variable {k : SlotKey}

/-- The surroundings with other slots. -/
def withSlots (w : World) (t : MutexTable SlotKey (Option String)) : World := { w with slots := t }

theorem eval?_slotStep {a : TableAct SlotKey (Option String)} {answer : a.Answer}
    (h : w.slots.apply none a = ((answer, none), t)) :
    w.eval? (slotStep a) = some (answer, w.withSlots t) := by
  rw [slotStep, eval?_perform, reply?, h]
  rfl

theorem eval?_share : w.eval? (slotStep (.share c)) = some ((), w.withSlots
    (w.slots.modify c fun cell => { cell with users := cell.users + 1 })) :=
  rfl

theorem eval?_release : w.eval? (slotStep (.release c)) = some ((), w.withSlots
    (w.slots.modify c fun cell => { cell with users := cell.users - 1 })) :=
  rfl

theorem eval?_put {v : Option String} : w.eval? (slotStep (.put c v)) = some ((), w.withSlots
    (w.slots.modify c fun cell => { cell with value := v })) :=
  rfl

theorem eval?_discard :
    w.eval? (slotStep (.discard k c)) = some ((), w.withSlots (w.slots.discard k c)) :=
  rfl

theorem eval?_remove : w.eval? (slotStep (.remove k)) = some ((), w.withSlots (w.slots.remove k)) :=
  rfl

theorem eval?_leave (h : w.slots.line c = []) : w.eval? (slotStep (.leave c)) =
    some ((), w.withSlots (w.slots.modify c fun cell => { cell with isHeld := false })) := by
  refine eval?_slotStep ?_
  rw [MutexTable.apply, MutexTable.leave_of_nil h]

theorem reply?_slot (h : w.slots.isHeld c = false) : w.reply? (.wait (.slot c)) =
    some (some (), w.withSlots (w.slots.modify c fun cell => { cell with isHeld := true })) := by
  rw [reply?, h, MutexTable.enter_of_not_isHeld h]
  rfl

theorem reply?_create (h : w.dns = .memory d) (name value : String) :
    w.reply? (.dns (.create name value)) = some ((d.create name value).1, { w with
      dns := .memory (d.create name value).2 }) := by
  rw [reply?, askDns, h]
  rfl

theorem reply?_settle (h : w.dns = .memory d) :
    w.reply? (.dns .settle) = some ((), { w with dns := .memory d.settle }) := by
  rw [reply?, askDns, h]
  rfl

theorem reply?_delete (h : w.dns = .memory d) (name id : String) :
    w.reply? (.dns (.delete name id)) = some ((d.delete name id).1, { w with
      dns := .memory (d.delete name id).2 }) := by
  rw [reply?, askDns, h]
  rfl

/-- A call that does not wait is made once, if it succeeds or fails for good. -/
theorem eval?_retry {ε α : Type} {policy : BackoffPolicy} {retries : Nat} {again : ε → Bool}
    {call : Watched (Except ε α)} {result : Except ε α} {w' : World}
    (h : w.eval? call.run = some (some result, w'))
    (hfinal : ∀ e, result = .error e → again e = false) :
    w.eval? (retry policy retries again call).run = some (some result, w') := by
  have hnow : w.eval? (liftM (perform .now) : Watched Duration).run = some (some w.clock, w) := rfl
  rw [retry, eval?_run_bind_of hnow]
  cases retries with
  | zero => exact h
  | succ retries =>
    rw [retryFrom, eval?_run_bind_of h]
    cases result with
    | ok a => rfl
    | error e =>
      simp only [hfinal e rfl]
      rfl

end World

/-! ### The job that makes a record -/

open Machine (Works)

variable {w : World} {d : MemoryDns} {name value : String}

/-- One try comes to an end. -/
theorem works_createOnce (h : w.dns = .memory d) (name value : String) :
    ∃ result w' d', Works 3 (DnsPractice.createOnce name value).run w (some result) w' ∧
      w'.dns = .memory d' ∧ w'.slots = w.slots ∧ d.Attempt name value result d' := by
  have hattempt : d.Attempt name value _ _ := MemoryDns.attempt_create
  have hask := World.reply?_create h name value
  generalize d.create name value = created at hattempt hask
  obtain ⟨⟨result, time⟩, d'⟩ := created
  let asked : World := { w with dns := .memory d' }
  have hcreate : w.eval? (liftM (perform (.dns (.create name value))) :
      Watched (Except DnsError String × Option Duration)).run =
      some (some (result, time), asked) := by
    rw [World.eval?_run_lift ((World.eval?_perform _).trans hask)]
  cases time with
  | none =>
    refine ⟨result, asked, d', Works.mono (.of_eval? ?_) (Nat.zero_le 3), rfl, rfl, hattempt⟩
    rw [DnsPractice.createOnce, World.eval?_run_bind_of hcreate]
    rfl
  | some time =>
    let settled : World := { asked.slept time with dns := .memory d'.settle }
    have hsettle : (asked.slept time).eval?
        (do perform (.dns .settle); return result : Watched (Except DnsError String)).run =
        some (some result, settled) := by
      rw [World.eval?_run_bind_of (World.eval?_run_lift
        ((World.eval?_perform _).trans (World.reply?_settle (d := d') rfl)))]
      rfl
    refine ⟨result, settled, d'.settle, ?_, rfl, rfl, hattempt.settle⟩
    rw [DnsPractice.createOnce]
    exact Works.mono (n := 0 + (3 + 0)) ((Works.of_eval? hcreate).run_bind
      (Works.run_bind (Works.sleep time) (.of_eval? hsettle))) (Nat.le_refl 3)

/-- The tries together come to an end. -/
theorem works_retryFrom (h : w.dns = .memory d) (name value : String) (start : Duration)
    (retries : Nat) (b : Backoff) :
    ∃ result w' d', Works (6 * retries + 3) (retryFrom DnsError.isRetryable
        (DnsPractice.createOnce name value) start retries b).run w (some result) w' ∧
      w'.dns = .memory d' ∧ w'.slots = w.slots ∧ d.Attempt name value result d' := by
  induction retries generalizing w d b with
  | zero => exact works_createOnce h name value
  | succ retries ih =>
    obtain ⟨result, w₁, d₁, hworks, hdns, hslots, hattempt⟩ := works_createOnce h name value
    have hnow : w₁.eval? (liftM (perform .now) : Watched Duration).run =
        some (some w₁.clock, w₁) := rfl
    by_cases hagain : ∃ e delay b', result = .error e ∧ e.isRetryable = true ∧
        b.next? (w₁.clock - start) = some (delay, b')
    · obtain ⟨e, delay, b', rfl, hretryable, hnext⟩ := hagain
      obtain ⟨result, w₂, d₂, hrest, hdns₂, hslots₂, hattempt₂⟩ := ih (w := w₁.slept delay) hdns b'
      refine ⟨result, w₂, d₂, ?_, hdns₂, hslots₂.trans hslots, hattempt.again hattempt₂⟩
      rw [retryFrom]
      refine Works.mono (n := 3 + (0 + (3 + (6 * retries + 3)))) (hworks.run_bind ?_) (by omega)
      simp only [hretryable, if_true]
      refine Works.run_bind (.of_eval? hnow) ?_
      rw [hnext]
      exact Works.run_bind (Works.sleep delay) hrest
    · refine ⟨result, w₁, d₁, ?_, hdns, hslots, hattempt⟩
      rw [retryFrom]
      refine Works.mono (n := 3 + 0) (hworks.run_bind (.of_eval? ?_)) (by omega)
      cases result with
      | ok id => rfl
      | error e =>
        cases hretryable : e.isRetryable with
        | false =>
          simp only [hretryable]
          rfl
        | true =>
          have hnone : b.next? (w₁.clock - start) = none := by
            cases hnext : b.next? (w₁.clock - start) with
            | none => rfl
            | some x => exact absurd ⟨e, x.1, x.2, rfl, hretryable, hnext⟩ hagain
          simp only [hretryable, if_true]
          rw [World.eval?_run_bind_of hnow]
          simp only [hnone]
          rfl

variable {p : DnsPractice} {t : MutexTable SlotKey (Option String)} {k : SlotKey}

/-- The job that makes a record for a new slot lets the slot go, with what has come of it. -/
theorem works_createRecord (h : w.dns = .memory d) (name value : String)
    (hslots : w.slots = t.extend k { value := none, isHeld := true, users := 2 }) :
    ∃ result w' d', Works (6 * p.retries + 3) (p.createRecord t.cells.size name value) w result w' ∧
      w'.dns = .memory d' ∧ w'.slots = t.extend k { value := result.toOption, users := 1 } ∧
      d.Attempt name value result d' := by
  obtain ⟨result, w₁, d₁, hworks, hdns, hslots₁, hattempt⟩ :=
    works_retryFrom h name value w.clock p.retries (.start p.delays)
  rw [hslots] at hslots₁
  let w₂ := w₁.withSlots (t.extend k { value := result.toOption, users := 1 })
  refine ⟨result, w₂, d₁, ?_, hdns, rfl, hattempt⟩
  have hnow : w.eval? (liftM (perform .now) : Watched Duration).run = some (some w.clock, w) := rfl
  have hretry : Works (0 + (6 * p.retries + 3)) (retry p.delays p.retries DnsError.isRetryable
      (DnsPractice.createOnce name value)).run w (some result) w₁ :=
    Works.run_bind (.of_eval? hnow) hworks
  rw [DnsPractice.createRecord]
  refine Works.mono (hretry.bind (.of_eval? ?_)) (by omega)
  simp only [Option.getD_some]
  have hline : w₁.slots.line t.cells.size = [] := by rw [hslots₁, MutexTable.line_extend_self]
  cases result with
  | ok id =>
    let u := w₁.withSlots (w₁.slots.modify t.cells.size fun cell => { cell with value := some id })
    have hput : w₁.eval? (slotStep (.put t.cells.size (some id))) = some ((), u) := World.eval?_put
    have hline' : u.slots.line t.cells.size = [] := (MutexTable.line_put (v := some id)).trans hline
    rw [World.eval?_bind_of hput, World.eval?_bind_of (World.eval?_leave hline'),
      World.eval?_bind_of World.eval?_release]
    have htable : ((w₁.slots.modify t.cells.size fun cell => { cell with value := some id }).modify
        t.cells.size fun cell => { cell with isHeld := false }).modify t.cells.size
        (fun cell => { cell with users := cell.users - 1 }) =
          t.extend k { value := some id, users := 1 } := by
      rw [hslots₁, MutexTable.modify_extend, MutexTable.modify_extend, MutexTable.modify_extend]
      rfl
    exact congrArg (fun t => some (Except.ok id, w₁.withSlots t)) htable
  | error e =>
    rw [World.eval?_bind_of (World.eval?_leave hline), World.eval?_bind_of World.eval?_release]
    have htable : (w₁.slots.modify t.cells.size fun cell => { cell with isHeld := false }).modify
        t.cells.size (fun cell => { cell with users := cell.users - 1 }) =
          t.extend k { value := none, users := 1 } := by
      rw [hslots₁, MutexTable.modify_extend, MutexTable.modify_extend]
      rfl
    exact congrArg (fun t => some (Except.error e, w₁.withSlots t)) htable

/-! ### Asking for a record -/

variable {q : RenewalPractice}

/-- What whoever holds a slot makes of the outcome of the job. -/
def DnsPractice.conclude (slot : Nat) (name value : String) :
    Outcome → Watched (Except DnsError DnsHandle)
  | .created (.ok id) => return .ok { name, value, id }
  | outcome => do
    slotStep (.discard (slotKey name value) slot)
    match outcome with
    | .created (.error e) => return .error e
    | _ => return .error givenUp

theorem DnsPractice.provisionHeld_eq (slot : Nat) : provisionHeld slot name value = (do
    slotStep (.share slot)
    let job ← perform (.spawn (.createRecord slot name value))
    conclude slot name value (← await (.join job))) := by
  rw [provisionHeld]
  congr 1
  funext _
  congr 1
  funext job
  congr 1
  funext outcome
  cases outcome with
  | created result => cases result <;> rfl
  | _ => rfl

/-- The slot that has come of tries to make a record is that of a record, or is removed. -/
def slotOf (t : MutexTable SlotKey (Option String)) (k : SlotKey) (users : Nat) :
    Except DnsError String → MutexTable SlotKey (Option String)
  | .ok id => t.extend k { value := some id, users }
  | .error _ => (t.extend k { value := none, users }).remove k

theorem modify_slotOf {users : Nat} {result : Except DnsError String} :
    (slotOf t k users result).modify t.cells.size
        (fun cell => { cell with users := cell.users - 1 }) = slotOf t k (users - 1) result := by
  cases result with
  | ok id => exact MutexTable.modify_extend
  | error e => rw [slotOf, MutexTable.modify_remove, MutexTable.modify_extend, slotOf]

/-- Whoever holds a new slot waits for the job that makes the record. -/
theorem yields_provisionHeld (h : w.dns = .memory d)
    (hslots : w.slots = t.extend (slotKey name value) { value := none, isHeld := true, users := 1 })
    (hk : t.index.lookup (slotKey name value) = none) (hq : q.issuance.dns.retries < 2 ^ 32) :
    ∃ result w' d', Yields q.program (DnsPractice.provisionHeld t.cells.size name value).run w
        (some (result.map fun id => { name, value, id })) w' ∧
      w'.dns = .memory d' ∧ w'.slots = slotOf t (slotKey name value) 1 result ∧
      d.Attempt name value result d' := by
  let w₀ := w.withSlots
    (t.extend (slotKey name value) { value := none, isHeld := true, users := 2 })
  have hshare : w.eval? (liftM (slotStep (.share t.cells.size)) : Watched Unit).run =
      some (some (), w₀) := by
    rw [World.eval?_run_lift World.eval?_share, hslots, MutexTable.modify_extend]
  obtain ⟨result, w₁, d', hworks, hdns, hslots₁, hattempt⟩ :=
    works_createRecord (p := q.issuance.dns) (w := w₀) h name value rfl
  have hjob : Works (6 * q.issuance.dns.retries + 3 + 0)
      (q.program (.createRecord t.cells.size name value)) w₀ (.created result) w₁ :=
    hworks.bind (.of_eval? rfl)
  have hrounds : 6 * q.issuance.dns.retries + 3 + 0 + 4 ≤ Program.manyRounds := by
    change _ ≤ 2 ^ 60
    omega
  rw [DnsPractice.provisionHeld_eq]
  cases result with
  | ok id =>
    refine ⟨.ok id, w₁, d', ?_, hdns, hslots₁, hattempt⟩
    exact Yields.run_bind (.of_eval? hshare) (.run_job hjob hrounds (.of_eval? rfl))
  | error e =>
    let w₂ : World := { w₁ with slots := slotOf t (slotKey name value) 1 (.error e) }
    refine ⟨.error e, w₂, d', ?_, hdns, rfl, hattempt⟩
    refine Yields.run_bind (.of_eval? hshare) (.run_job hjob hrounds (.of_eval? ?_))
    -- nobody else uses the slot
    have hdiscard : w₁.slots.discard (slotKey name value) t.cells.size =
        slotOf t (slotKey name value) 1 (.error e) := by
      rw [hslots₁, MutexTable.discard, if_pos ⟨MutexTable.lookup_extend_self hk, by simp⟩]
      rfl
    rw [DnsPractice.conclude, World.eval?_run_bind_of (World.eval?_run_lift World.eval?_discard),
      hdiscard]
    rfl

/-- Whoever asks for a record that has no slot waits for the job that makes it. If that fails, the
slot is removed. -/
theorem yields_provision (h : w.dns = .memory d)
    (hk : w.slots.index.lookup (slotKey name value) = none) (hq : q.issuance.dns.retries < 2 ^ 32) :
    ∃ result w' d', Yields q.program (DnsPractice.provision name value).run w
        (some (result.map fun id => { name, value, id })) w' ∧
      w'.dns = .memory d' ∧ w'.slots = slotOf w.slots (slotKey name value) 0 result ∧
      d.Attempt name value result d' := by
  let t := w.slots
  let k := slotKey name value
  let w₁ := w.withSlots (t.extend k { value := none, users := 1 })
  have hobtain : w.eval? (slotStep (.obtain k)) = some (t.cells.size, w₁) := by
    refine World.eval?_slotStep ?_
    rw [MutexTable.apply, MutexTable.obtain_of_none hk]
    rfl
  let w₂ := w.withSlots (t.extend k { value := none, isHeld := true, users := 1 })
  have hslot : w₁.eval? (await (.slot t.cells.size)).run = some (some (), w₂) := by
    have hfree : w₁.slots.isHeld t.cells.size = false := MutexTable.isHeld_extend_self
    refine ((World.eval?_perform _).trans (World.reply?_slot hfree)).trans ?_
    exact congrArg (fun t => some (some (), w.withSlots t)) MutexTable.modify_extend
  have hvalue : w₂.eval? (slotStep (.value t.cells.size)) = some (some none, w₂) :=
    congrArg (fun v => some (v, w₂)) MutexTable.value?_extend_self
  obtain ⟨result, w₃, d', hheld, hdns, hslots, hattempt⟩ :=
    yields_provisionHeld (w := w₂) (t := t) h rfl hk hq
  let w₄ := w₃.withSlots (slotOf t k 0 result)
  have hrelease : w₃.eval? (slotStep (.release t.cells.size)) = some ((), w₄) := by
    rw [World.eval?_release, hslots, modify_slotOf]
  refine ⟨result, w₄, d', ?_, hdns, rfl, hattempt⟩
  have hin : Yields q.program (DnsPractice.provisionIn t.cells.size name value).run w₁ _ w₃ :=
    Yields.run_bind (.of_eval? hslot)
      (Yields.run_bind (.of_eval? (World.eval?_run_lift hvalue)) hheld)
  rw [DnsPractice.provision]
  exact Yields.bind (.of_eval? hobtain)
    (Yields.bind hin (.of_eval? (World.eval?_bind_of hrelease)))

end CertSteward
