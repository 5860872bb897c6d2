import CertSteward.Proofs.Issuance.Runs
import CertSteward.Proofs.Issuance.Tenure
import CertSteward.Proofs.Run.Custody
import CertSteward.Proofs.Run.Strides

/-!
# Runs that contend for a domain

Runs that go on at the same time come between each other at every request: one may look a domain up
while another lets it go, and a third may remove its key. What keeps them apart is that a key is
removed only when nobody uses its cell. So as long as anybody uses the cell of a domain, the key
leads to this cell, and whoever comes later finds the same one. And a cell is held by one run at a
time.

All of this is so for any programs whose strands heed what they may ask about domains. Runs for
requests do, and so does whatever is made of such runs.

## Main definitions

* `Weave.tenure` — how far a strand is with its domain
* `Weave.Heeds` — strands ask about domains what they may
* `Weave.KeyDeed` — what a stride does to keys and to those who use their cells
* `Weave.Housed` — the key of a domain leads to the cell that its strands use
* `Weave.DomainsGuarded` — domains are held by one strand at a time

## Main results

* `Weave.housed_of_strides`, `Weave.domainsGuarded_of_strides` — the two invariants
* `Contending.mayHold` — what a run asks for belongs to its tenure
* `Contending.heeds` — runs for requests ask only for what the invariants allow
-/

namespace CertSteward

/-- The cell of a domain that is waited for. -/
def Wait.lock? : Wait → Option Nat
  | .lock c => some c
  | _ => none

namespace Weave

variable {β : Type}

/-- How far a strand is with its domain. -/
def tenure (w : Weave β) (i : Nat) : Tenure :=
  (w.path i).foldl (fun t h => t.next h.1 h.2) .before

/-- The cell of a domain that a strand waits for. -/
def awaitsDomain (w : Weave β) (i : Nat) : Option Nat := (w.wait? i).bind Wait.lock?

variable {w u : Weave β} {i j : Nat} {s : Strand β} {a : Act} {answer : a.Answer}

theorem tenure_congr (h : u.log = w.log) (j : Nat) : u.tenure j = w.tenure j := by
  rw [tenure, tenure, path_congr h]

theorem Answered.tenure (h : w.Answered u i s a answer) :
    u.tenure i = (w.tenure i).next a answer := by
  rw [Weave.tenure, Weave.tenure, path_append h.log, if_pos rfl, List.foldl_append]
  rfl

theorem Answered.tenure_of_ne (h : w.Answered u i s a answer) (hj : j ≠ i) :
    u.tenure j = w.tenure j := by
  rw [Weave.tenure, Weave.tenure, path_append h.log, if_neg (Ne.symm hj)]

/-- Who tidies up stays where it is. -/
theorem Answered.tenure_of_tidy {k : String} {answer : Unit}
    (h : w.Answered u i s (.locks (.tidy k)) answer) (j : Nat) : u.tenure j = w.tenure j := by
  by_cases hj : j = i
  · rw [hj, h.tenure]
    rfl
  · exact h.tenure_of_ne hj

/-- Strands ask about domains, and of the authority, what they may: strand `i` looks up a domain in
`K i`. -/
def Heeds (K : Nat → String → Prop) (w : Weave β) : Prop :=
  ∀ i s a next, w.strands[i]? = some s → s.program = .ask a next → (w.tenure i).Allows (K i) a

theorem awaitsDomain_congr (h : u.wait? j = w.wait? j) : u.awaitsDomain j = w.awaitsDomain j := by
  rw [awaitsDomain, awaitsDomain, h]

theorem Answered.awaitsDomain (h : w.Answered u i s a answer) : u.awaitsDomain i = none := by
  rw [Weave.awaitsDomain, h.after]
  rfl

theorem Answered.awaitsDomain_of_ne (h : w.Answered u i s a answer) (j : Nat) (hj : j ≠ i) :
    u.awaitsDomain j = w.awaitsDomain j :=
  awaitsDomain_congr (h.others j hj)

end Weave

/-! ### Where keys lead -/

/-- Whether a request leaves the keys of domains, and who uses their cells, as they are. -/
def Act.KeepsKeys : Act → Prop
  | .locks (.tryEnter _) | .locks (.leave _) => True
  | .locks _ => False
  | _ => True

namespace Tenure

variable {t : Tenure} {a : Act} {answer : a.Answer}

/-- Who holds a cell or lets it go uses the cell that it used. -/
theorem cell?_next (h : a.KeepsKeys) : (t.next a answer).cell? = t.cell? := by
  have henter : ∀ got, (t.enter got).cell? = t.cell? := by
    intro got
    cases t <;> cases got <;> rfl
  cases a with
  | locks b =>
    cases b with
    | tryEnter c => exact henter answer
    | leave c => cases t <;> rfl
    | _ => exact h.elim
  | wait v =>
    cases v with
    | lock c => exact henter _
    | _ => rfl
  | _ => rfl

end Tenure

namespace Weave

variable {β : Type}

/-- The users of a cell are the strands that use it. -/
def CountsUsers (w : Weave β) (c : Nat) : Prop :=
  ∃ l : List Nat, l.Nodup ∧ l.length = w.locks.users c ∧ ∀ i, i ∈ l ↔ (w.tenure i).cell? = some c

/-- The key of a domain leads to the cell that its strands use, other keys lead to other cells, and
the cell knows of all its strands. -/
structure Housed (K : Nat → String → Prop) (w : Weave β) : Prop where
  bound : ∀ k c, w.locks.index.lookup k = some c → c < w.locks.cells.size
  distinct : w.locks.Distinct
  leads : ∀ i c, (w.tenure i).cell? = some c → ∃ k, K i k ∧ w.locks.index.lookup k = some c
  users : ∀ c, w.CountsUsers c

variable {program : Job → Steward Outcome} {K : Nat → String → Prop} {w u : Weave β} {i c : Nat}
variable {k : String} {s : Strand β}

/-! #### Users -/

theorem CountsUsers.congr (h : w.CountsUsers c) (users : u.locks.users c = w.locks.users c)
    (cell : ∀ i, (u.tenure i).cell? = some c ↔ (w.tenure i).cell? = some c) : u.CountsUsers c := by
  obtain ⟨l, hnodup, hlen, hl⟩ := h
  exact ⟨l, hnodup, by rw [users]; exact hlen, fun i => by rw [cell]; exact hl i⟩

/-- One more strand uses the cell. -/
theorem CountsUsers.more (h : w.CountsUsers c) (users : u.locks.users c = w.locks.users c + 1)
    (before : (w.tenure i).cell? ≠ some c) (after : (u.tenure i).cell? = some c)
    (others : ∀ j, j ≠ i → u.tenure j = w.tenure j) : u.CountsUsers c := by
  obtain ⟨l, hnodup, hlen, hl⟩ := h
  refine ⟨i :: l, List.nodup_cons.mpr ⟨fun hi => before ((hl i).mp hi), hnodup⟩, ?_, fun j => ?_⟩
  · rw [users, List.length_cons, hlen]
  · rw [List.mem_cons]
    by_cases hj : j = i
    · simp only [hj, after, true_or]
    · rw [others j hj, ← hl, or_iff_right hj]

/-- One strand uses the cell no more. -/
theorem CountsUsers.fewer (h : w.CountsUsers c) (users : u.locks.users c = w.locks.users c - 1)
    (before : (w.tenure i).cell? = some c) (after : (u.tenure i).cell? ≠ some c)
    (others : ∀ j, j ≠ i → u.tenure j = w.tenure j) : u.CountsUsers c := by
  obtain ⟨l, hnodup, hlen, hl⟩ := h
  refine ⟨l.erase i, hnodup.erase i, ?_, fun j => ?_⟩
  · rw [users, List.length_erase_of_mem ((hl i).mpr before), hlen]
  · rw [hnodup.mem_erase_iff, hl]
    by_cases hj : j = i
    · rw [hj]
      exact ⟨fun h => absurd rfl h.1, fun h => absurd h after⟩
    · rw [others j hj]
      exact and_iff_right hj

/-- A cell with users is used by some strand. -/
theorem CountsUsers.exists_of_ne_zero (h : w.CountsUsers c) (hne : w.locks.users c ≠ 0) :
    ∃ i, (w.tenure i).cell? = some c := by
  obtain ⟨l, -, hlen, hl⟩ := h
  cases l with
  | nil => exact absurd hlen.symm hne
  | cons i l => exact ⟨i, (hl i).mp List.mem_cons_self⟩

theorem CountsUsers.ne_zero (h : w.CountsUsers c) (hcell : (w.tenure i).cell? = some c) :
    w.locks.users c ≠ 0 := by
  obtain ⟨l, -, hlen, hl⟩ := h
  rw [← hlen]
  exact Nat.ne_of_gt (List.length_pos_of_mem ((hl i).mpr hcell))

/-! #### Keys -/

theorem Housed.lt (hw : w.Housed K) (h : (w.tenure i).cell? = some c) :
    c < w.locks.cells.size := by
  obtain ⟨_, -, hlook⟩ := hw.leads i c h
  exact hw.bound _ c hlook

/-- The domain of a strand is the one whose key leads to the cell that it uses. -/
theorem Housed.mine (hw : w.Housed K) (hcell : (w.tenure i).cell? = some c)
    (hlook : w.locks.index.lookup k = some c) : K i k := by
  obtain ⟨l, hl, hlead⟩ := hw.leads i c hcell
  rw [hw.distinct k l c hlook hlead]
  exact hl

/-- If a strand has one domain, it is the key of this domain that leads to the cell that it uses. -/
theorem Housed.lookup_of_cell? (hw : w.Housed K) (hsame : ∀ l, K i l → k = l)
    (hcell : (w.tenure i).cell? = some c) : w.locks.index.lookup k = some c := by
  obtain ⟨l, hl, hlead⟩ := hw.leads i c hcell
  rw [hsame l hl]
  exact hlead

/-- Nothing happens that has to do with keys and users. -/
theorem Housed.of_same (hw : w.Housed K) (same : u.locks.SameKeys w.locks)
    (cell : ∀ i, (u.tenure i).cell? = (w.tenure i).cell?) : u.Housed K where
  bound k c h := by
    rw [same.index] at h
    rw [same.size]
    exact hw.bound k c h
  distinct k l c hk hl := by
    rw [same.index] at hk hl
    exact hw.distinct k l c hk hl
  leads i c h := by
    rw [cell] at h
    rw [same.index]
    exact hw.leads i c h
  users c := (hw.users c).congr (same.users c) fun i => by rw [cell]

/-- A strand looks its domain up. -/
theorem Housed.obtain (hw : w.Housed K) (hk : K i k)
    (locks : u.locks = (w.locks.obtain k ()).2) (before : w.tenure i = .before)
    (found : u.tenure i = .found (w.locks.obtain k ()).1)
    (others : ∀ j, j ≠ i → u.tenure j = w.tenure j) : u.Housed K := by
  have hlook : ∀ l, u.locks.index.lookup l = if l == k
      then some (w.locks.obtain k ()).1 else w.locks.index.lookup l := by
    intro l
    rw [locks, MutexTable.lookup_obtain]
  have husers : ∀ d, u.locks.users d =
      w.locks.users d + if (w.locks.obtain k ()).1 = d then 1 else 0 := by
    intro d
    rw [locks, MutexTable.users_obtain (hw.bound k)]
  have hnone : ∀ d, (w.tenure i).cell? ≠ some d := by
    rw [before]
    exact nofun
  refine ⟨fun l d h => ?_, ?_, fun j d h => ?_, fun d => ?_⟩
  · rw [locks]
    rw [hlook] at h
    split at h
    · cases h
      exact MutexTable.lt_obtain (hw.bound k)
    · exact Nat.lt_of_lt_of_le (hw.bound l d h) MutexTable.size_le_obtain
  · rw [locks]
    exact hw.distinct.obtain hw.bound
  · by_cases hj : j = i
    · subst hj
      rw [found] at h
      cases h
      exact ⟨k, hk, by rw [hlook, if_pos (beq_self_eq_true _)]⟩
    · rw [others j hj] at h
      obtain ⟨l, hl, hold⟩ := hw.leads j d h
      refine ⟨l, hl, ?_⟩
      rw [hlook]
      split
      · rename_i heq
        -- the key led there before, so it was not made anew
        rw [eq_of_beq heq] at hold
        rw [MutexTable.obtain_of_some hold]
      · exact hold
  · by_cases hd : (w.locks.obtain k ()).1 = d
    · refine (hw.users d).more (by rw [husers, if_pos hd]) (hnone d) ?_ others
      rw [found, ← hd]
      rfl
    · refine (hw.users d).congr (by rw [husers, if_neg hd]; rfl) fun j => ?_
      by_cases hj : j = i
      · rw [hj, found]
        exact ⟨fun h => absurd (Option.some.inj h) hd, fun h => absurd h (hnone d)⟩
      · rw [others j hj]

/-- A strand uses its cell no more. -/
theorem Housed.release (hw : w.Housed K) (before : w.tenure i = .out c)
    (locks : u.locks = w.locks.release c) (after : u.tenure i = .after)
    (others : ∀ j, j ≠ i → u.tenure j = w.tenure j) : u.Housed K := by
  have hcell : (w.tenure i).cell? = some c := by
    rw [before]
    rfl
  have hnone : ∀ d, (u.tenure i).cell? ≠ some d := by
    rw [after]
    exact nofun
  refine ⟨fun k d h => ?_, ?_, fun j d h => ?_, fun d => ?_⟩
  · rw [locks] at h ⊢
    rw [MutexTable.release, MutexTable.size_modify]
    exact hw.bound k d h
  · rw [locks]
    exact hw.distinct
  · rw [locks]
    rw [others j (by rintro rfl; exact hnone d h)] at h
    exact hw.leads j d h
  · have husers : u.locks.users d = w.locks.users d - if c = d then 1 else 0 := by
      rw [locks, MutexTable.users_release]
    by_cases hd : c = d
    · subst hd
      exact (hw.users c).fewer (by rw [husers, if_pos rfl]) hcell (hnone c) others
    · refine (hw.users d).congr (by rw [husers, if_neg hd]; rfl) fun j => ?_
      by_cases hj : j = i
      · rw [hj, hcell]
        exact ⟨fun h => absurd h (hnone d), fun h => absurd (Option.some.inj h) hd⟩
      · rw [others j hj]

/-- A key is removed whose cell nobody uses. -/
theorem Housed.tidy (hw : w.Housed K) (locks : u.locks = w.locks.tidy k)
    (same : ∀ j, u.tenure j = w.tenure j) : u.Housed K := by
  have hlook : ∀ l d, u.locks.index.lookup l = some d ↔
      w.locks.index.lookup l = some d ∧ (l = k → w.locks.users d ≠ 0) := by
    intro l d
    rw [locks, MutexTable.lookup_tidy]
  refine ⟨fun l d h => ?_, ?_, fun j d h => ?_, fun d => ?_⟩
  · rw [locks, MutexTable.size_tidy]
    exact hw.bound l d ((hlook l d).mp h).1
  · rw [locks]
    exact hw.distinct.tidy
  · rw [same] at h
    obtain ⟨l, hl, hold⟩ := hw.leads j d h
    exact ⟨l, hl, (hlook l d).mpr ⟨hold, fun _ => (hw.users d).ne_zero h⟩⟩
  · exact (hw.users d).congr (by rw [locks, MutexTable.users_tidy]) fun j => by rw [same]

/-! #### What strides do -/

/-- A wait changes no key. -/
theorem sameKeys_enter (v : Wait) : (w.enter i v).locks.SameKeys w.locks := by
  cases v with
  | lock c => exact .enter
  | _ => exact .rfl

theorem sameKeys_withdraw (v : Wait) : (w.withdraw i v).locks.SameKeys w.locks := by
  cases v with
  | lock c =>
    change (if i ∈ w.locks.line c then _ else _ : MutexTable String Unit).SameKeys _
    split
    · exact .withdraw
    · exact .leave
  | _ => exact .rfl

/-- A request that has nothing to do with domains changes nothing about them. -/
theorem locks_serve {a : Act} (h : ∀ b, a ≠ .locks b) :
    (w.serve program s a).locks = w.locks := by
  cases a with
  | locks b => exact absurd rfl (h b)
  | _ => rfl

/-- What a stride does to keys and to those who use their cells. -/
inductive KeyDeed (K : Nat → String → Prop) (w u : Weave β) : Prop
  | same (keys : u.locks.SameKeys w.locks) (cell : ∀ i, (u.tenure i).cell? = (w.tenure i).cell?)
    (log : u.log = w.log ∨ ∃ e, u.log = w.log ++ [e] ∧ e.act.KeepsKeys)
  | obtain {i : Nat} {s : Strand β} {k : String}
    (answered : w.Answered u i s (.locks (.obtain k)) (w.locks.obtain k ()).1) (mine : K i k)
    (before : w.tenure i = .before) (locks : u.locks = (w.locks.obtain k ()).2)
  | release {i : Nat} {s : Strand β} {c : Nat}
    (answered : w.Answered u i s (.locks (.release c)) ()) (before : w.tenure i = .out c)
    (locks : u.locks = w.locks.release c)
  | tidy {i : Nat} {s : Strand β} {k : String}
    (answered : w.Answered u i s (.locks (.tidy k)) ()) (before : w.tenure i = .after)
    (locks : u.locks = w.locks.tidy k)

/-- **What a stride does to keys.** Of all requests three have to do with them. -/
theorem Stride.keyDeed (stride : Stride program w u) (h : w.Heeds K) : KeyDeed K w u := by
  -- a strand that goes on uses the cell that it used
  have hgoes : ∀ {i : Nat} {s : Strand β} {a : Act} {answer : a.Answer},
      w.Answered u i s a answer → a.KeepsKeys → u.locks.SameKeys w.locks → KeyDeed K w u := by
    intro i s a answer answered hkeeps keys
    refine .same keys (fun j => ?_) (.inr ⟨_, answered.log, hkeeps⟩)
    by_cases hj : j = i
    · rw [hj, answered.tenure, Tenure.cell?_next hkeeps]
    · rw [answered.tenure_of_ne hj]
  have hrests : u.log = w.log → u.locks.SameKeys w.locks → KeyDeed K w u := fun log keys =>
    .same keys (fun j => by rw [Weave.tenure_congr log]) (.inl log)
  cases stride.deed with
  | calm waits log shares => exact hrests log (shares.locks ▸ .rfl)
  | @enter i s v next here asks before after others log shares =>
    refine hrests log ?_
    rw [shares.locks]
    exact sameKeys_enter v
  | goOn answered _ _ shares => exact hgoes answered trivial (shares.locks ▸ .rfl)
  | @interrupt i s v answered before shares =>
    refine hgoes answered trivial ?_
    rw [shares.locks]
    exact sameKeys_withdraw v
  | refuse answered _ shares => exact hgoes answered trivial (shares.locks ▸ .rfl)
  | @act i s a answer answered before fits shares =>
    by_cases ha : ∃ b, a = .locks b
    · obtain ⟨b, rfl⟩ := ha
      obtain ⟨next, asks⟩ := answered.asks
      have hmay := h i s _ next answered.here asks
      have hlocks : u.locks = (w.locks.apply () b).2 := shares.locks
      cases b with
      | obtain k =>
        obtain rfl : answer = (w.locks.obtain k ()).1 := fits
        exact .obtain answered hmay.2 hmay.1 hlocks
      | release c => exact .release answered hmay hlocks
      | tidy k => exact .tidy answered hmay hlocks
      | tryEnter c => exact hgoes answered trivial (hlocks ▸ .tryEnter)
      | leave c => exact hgoes answered trivial (hlocks ▸ .leave)
      | _ => exact hmay.elim
    · have hno : ∀ b, a ≠ .locks b := fun b hb => ha ⟨b, hb⟩
      have hkeeps : a.KeepsKeys := by
        cases a with
        | locks b => exact absurd rfl (hno b)
        | _ => trivial
      refine hgoes answered hkeeps ?_
      rw [shares.locks, locks_serve hno]
      exact .rfl

theorem Housed.stride (hw : w.Housed K) (h : w.Heeds K) (stride : Stride program w u) :
    u.Housed K := by
  cases stride.keyDeed h with
  | same keys cell => exact hw.of_same keys cell
  | obtain answered mine before locks =>
    exact hw.obtain mine locks before answered.tenure fun j hj => answered.tenure_of_ne hj
  | release answered before locks =>
    have hafter := answered.tenure
    rw [before] at hafter
    exact hw.release before locks hafter fun j hj => answered.tenure_of_ne hj
  | tidy answered _ locks => exact hw.tidy locks answered.tenure_of_tidy

end Weave

/-! ### Who holds a domain -/

namespace Tenure

variable {t : Tenure} {a : Act} {answer : a.Answer} {K : String → Prop}

/-- What is held changes only by holding the domain and letting it go. -/
theorem holds?_next (may : t.Allows K a) (hwait : ∀ c, a ≠ .wait (.lock c))
    (htry : ∀ c, a ≠ .locks (.tryEnter c)) (hleave : ∀ c, a ≠ .locks (.leave c)) :
    (t.next a answer).holds? = t.holds? := by
  cases a with
  | locks b =>
    cases b with
    | obtain k =>
      obtain ⟨rfl, -⟩ := may
      rfl
    | release c =>
      obtain rfl : t = .out c := may
      rfl
    | tryEnter c => exact absurd rfl (htry c)
    | leave c => exact absurd rfl (hleave c)
    | _ => rfl
  | wait v =>
    cases v with
    | lock c => exact absurd rfl (hwait c)
    | _ => rfl
  | _ => rfl

end Tenure

namespace Weave

variable {β : Type} {program : Job → Steward Outcome} {K : Nat → String → Prop} {w u : Weave β}
variable {i j : Nat} {s : Strand β}

/-- Domains are held by one strand at a time. -/
abbrev DomainsGuarded (w : Weave β) : Prop :=
  w.locks.Custody w.awaitsDomain fun i => (w.tenure i).holds?

/-- A wait for anything else leaves domains as they are. -/
theorem locks_enter {v : Wait} (h : ∀ c, v ≠ .lock c) : (w.enter i v).locks = w.locks := by
  cases v with
  | lock c => exact absurd rfl (h c)
  | _ => rfl

theorem locks_withdraw {v : Wait} (h : ∀ c, v ≠ .lock c) : (w.withdraw i v).locks = w.locks := by
  cases v with
  | lock c => exact absurd rfl (h c)
  | _ => rfl

theorem leavesDomains_wait {v : Wait} (h : ∀ c, v ≠ .lock c) : (Act.wait v).LeavesDomains := by
  cases v with
  | lock c => exact absurd rfl (h c)
  | _ => trivial

theorem lock?_of_ne {v : Wait} (h : ∀ c, v ≠ .lock c) : v.lock? = none := by
  cases v with
  | lock c => exact absurd rfl (h c)
  | _ => rfl

/-- A strand goes on that did not wait for a domain, and holds what it held. -/
theorem guarded_of_answered {a : Act} {answer : a.Answer} (hw : w.DomainsGuarded)
    (answered : w.Answered u i s a answer) (before : w.awaitsDomain i = none)
    (line : ∀ c, u.locks.line c = w.locks.line c)
    (held : ∀ c, u.locks.isHeld c = w.locks.isHeld c)
    (holds : ((w.tenure i).next a answer).holds? = (w.tenure i).holds?) : u.DomainsGuarded := by
  refine hw.of_same line held (fun j => ?_) fun j => ?_
  · by_cases hj : j = i
    · rw [hj, answered.awaitsDomain, before]
    · exact answered.awaitsDomain_of_ne j hj
  · by_cases hj : j = i
    · rw [hj, answered.tenure, holds]
    · rw [answered.tenure_of_ne hj]

/-- A strand does one step on the table of domains. -/
theorem guarded_locks {b : TableAct String Unit} {answer : b.Answer}
    (hw : w.DomainsGuarded) (hh : w.Housed K)
    (answered : w.Answered u i s (.locks b) answer) (before : w.awaitsDomain i = none)
    (fits : answer = (w.locks.apply () b).1.1) (locks : u.locks = (w.locks.apply () b).2)
    (may : (w.tenure i).Allows (K i) (.locks b)) : u.DomainsGuarded := by
  have hothers : ∀ j, j ≠ i → (u.tenure j).holds? = (w.tenure j).holds? :=
    fun j hj => by rw [answered.tenure_of_ne hj]
  have hawaits : ∀ j, u.awaitsDomain j = w.awaitsDomain j := by
    intro j
    by_cases hj : j = i
    · rw [hj, answered.awaitsDomain, before]
    · exact answered.awaitsDomain_of_ne j hj
  have hsame : (∀ c, b ≠ .tryEnter c) → (∀ c, b ≠ .leave c) →
      (∀ c, u.locks.line c = w.locks.line c) → (∀ c, u.locks.isHeld c = w.locks.isHeld c) →
      u.DomainsGuarded := fun htry hleave line held =>
    guarded_of_answered hw answered before line held (Tenure.holds?_next may nofun
      (fun c hc => htry c (by cases hc; rfl)) fun c hc => hleave c (by cases hc; rfl))
  cases b with
  | obtain k =>
    refine hsame nofun nofun (fun c => ?_) fun c => ?_
    · rw [locks]
      exact MutexTable.line_obtain
    · rw [locks]
      exact MutexTable.isHeld_obtain
  | release c =>
    refine hsame nofun nofun (fun d => ?_) fun d => ?_
    · rw [locks]
      exact MutexTable.line_release
    · rw [locks]
      exact MutexTable.isHeld_release
  | tidy k =>
    have hlocks : u.locks = w.locks.tidy k := locks
    obtain h | ⟨_, -, -, h⟩ := MutexTable.tidy_cases (t := w.locks) (k := k)
    · rw [h] at hlocks
      exact hsame nofun nofun (fun _ => by rw [hlocks]) fun _ => by rw [hlocks]
    · rw [h] at hlocks
      exact hsame nofun nofun (fun _ => by rw [hlocks]; rfl) fun _ => by rw [hlocks]; rfl
  | tryEnter c =>
    have hfound : w.tenure i = .found c := may
    have htenure := answered.tenure
    rw [hfound] at htenure
    have hlocks : u.locks = (w.locks.tryEnter c).2 := locks
    obtain rfl : answer = (w.locks.tryEnter c).1 := fits
    cases hc : w.locks.isHeld c with
    | true =>
      -- somebody else holds it, and nothing happens
      have hno : w.locks.tryEnter c = (false, w.locks) := by
        rw [MutexTable.tryEnter, if_pos hc]
      rw [hno] at hlocks
      refine guarded_of_answered hw answered before (fun _ => by rw [hlocks])
        (fun _ => by rw [hlocks]) ?_
      rw [hfound, hno]
      rfl
    | false =>
      have hyes : (w.locks.tryEnter c).1 = true := by
        rw [MutexTable.tryEnter, if_neg (by rw [hc]; exact Bool.false_ne_true)]
      rw [Weave.DomainsGuarded, hlocks]
      refine hw.tryEnter (hh.lt (i := i) (by rw [hfound]; rfl)) hc before ?_ hawaits hothers
      rw [htenure]
      change ((Tenure.found c).enter (w.locks.tryEnter c).1).holds? = some c
      rw [hyes]
      rfl
  | leave c =>
    have hinside : w.tenure i = .inside c := may
    have htenure := answered.tenure
    rw [hinside] at htenure
    rw [Weave.DomainsGuarded, locks]
    refine hw.leave (.inl ?_) answered.awaitsDomain ?_ answered.awaitsDomain_of_ne hothers
      (hw.not_mem_line before)
    · change (w.tenure i).holds? = some c
      rw [hinside]
      rfl
    · rw [htenure]
      rfl
  | _ => exact may.elim

theorem DomainsGuarded.stride (hw : w.DomainsGuarded) (h : w.Heeds K) (hh : w.Housed K)
    (stride : Stride program w u) : u.DomainsGuarded := by
  have hawaits : ∀ {i : Nat} {v : Option Wait}, w.wait? i = v →
      w.awaitsDomain i = v.bind Wait.lock? := by
    rintro i _ rfl
    rfl
  -- a strand that asks for a domain has found it
  have hfound : ∀ {i c : Nat} {s : Strand β} {next : Option Unit → Steward (Outcome ⊕ β)},
      w.strands[i]? = some s → s.program = .ask (.wait (.lock c)) next →
      w.tenure i = .found c := by
    intro i c s next here asks
    exact h i s (.wait (.lock c)) next here asks
  cases stride.deed with
  | calm waits log shares =>
    exact hw.of_same (fun _ => by rw [shares.locks]) (fun _ => by rw [shares.locks])
      (fun j => Weave.awaitsDomain_congr (waits j)) fun j => by rw [Weave.tenure_congr log]
  | @enter i s v next here asks before after others log shares =>
    have hothers : ∀ j, j ≠ i → u.awaitsDomain j = w.awaitsDomain j :=
      fun j hj => Weave.awaitsDomain_congr (others j hj)
    by_cases hv : ∃ c, v = .lock c
    · obtain ⟨c, rfl⟩ := hv
      have hat := hfound here asks
      have hafter : u.awaitsDomain i = some c := by
        rw [Weave.awaitsDomain, after]
        rfl
      have henter := hw.enter (hh.lt (i := i) (by rw [hat]; rfl)) (hawaits before) hafter
        hothers (by rw [hat]; rfl)
      have hlocks : u.locks = (w.locks.enter c i).2 := shares.locks
      rw [← hlocks] at henter
      exact henter.of_same (fun _ => rfl) (fun _ => rfl) (fun _ => rfl)
        fun j => by rw [Weave.tenure_congr log]
    · have hno : ∀ c, v ≠ .lock c := fun c hc => hv ⟨c, hc⟩
      have hlocks : u.locks = w.locks := shares.locks.trans (locks_enter hno)
      refine hw.of_same (fun _ => by rw [hlocks]) (fun _ => by rw [hlocks]) (fun j => ?_)
        fun j => by rw [Weave.tenure_congr log]
      by_cases hj : j = i
      · rw [hj, hawaits before, Weave.awaitsDomain, after]
        exact lock?_of_ne hno
      · exact hothers j hj
  | @goOn i s v answer answered before isOver shares =>
    by_cases hv : ∃ c, v = .lock c
    · obtain ⟨c, rfl⟩ := hv
      obtain ⟨next, asks⟩ := answered.asks
      have hgranted : i ∉ w.locks.line c := by
        obtain ⟨_, hjobs⟩ | hover := isOver
        · cases hjobs
        · exact hover
      rw [Weave.DomainsGuarded, shares.locks]
      exact hw.got (hawaits before) hgranted answered.awaitsDomain
        (by rw [answered.tenure, hfound answered.here asks]; rfl) answered.awaitsDomain_of_ne
        fun j hj => by rw [answered.tenure_of_ne hj]
    · have hno : ∀ c, v ≠ .lock c := fun c hc => hv ⟨c, hc⟩
      refine guarded_of_answered hw answered ((hawaits before).trans (lock?_of_ne hno))
        (fun _ => by rw [shares.locks]) (fun _ => by rw [shares.locks]) ?_
      rw [Tenure.next_of_leavesDomains (leavesDomains_wait hno)]
  | @interrupt i s v answered before shares =>
    by_cases hv : ∃ c, v = .lock c
    · obtain ⟨c, rfl⟩ := hv
      obtain ⟨next, asks⟩ := answered.asks
      rw [Weave.DomainsGuarded, shares.locks]
      exact hw.gaveUp (hawaits before) answered.awaitsDomain
        (by rw [answered.tenure, hfound answered.here asks]; rfl) answered.awaitsDomain_of_ne
        fun j hj => by rw [answered.tenure_of_ne hj]
    · have hno : ∀ c, v ≠ .lock c := fun c hc => hv ⟨c, hc⟩
      have hlocks : u.locks = w.locks := shares.locks.trans (locks_withdraw hno)
      refine guarded_of_answered hw answered ((hawaits before).trans (lock?_of_ne hno))
        (fun _ => by rw [hlocks]) (fun _ => by rw [hlocks]) ?_
      rw [Tenure.next_of_leavesDomains (leavesDomains_wait hno)]
  | @refuse i s v answered before shares =>
    refine guarded_of_answered hw answered (hawaits before) (fun _ => by rw [shares.locks])
      (fun _ => by rw [shares.locks]) ?_
    by_cases hv : ∃ c, v = .lock c
    · obtain ⟨c, rfl⟩ := hv
      obtain ⟨next, asks⟩ := answered.asks
      rw [hfound answered.here asks]
      rfl
    · have hno : ∀ c, v ≠ .lock c := fun c hc => hv ⟨c, hc⟩
      rw [Tenure.next_of_leavesDomains (leavesDomains_wait hno)]
  | @act i s a answer answered before fits shares =>
    by_cases ha : ∃ b, a = .locks b
    · obtain ⟨b, rfl⟩ := ha
      obtain ⟨next, asks⟩ := answered.asks
      have hmay := h i s _ next answered.here asks
      exact guarded_locks hw hh answered (hawaits before) fits shares.locks hmay
    · have hno : ∀ b, a ≠ .locks b := fun b hb => ha ⟨b, hb⟩
      have hlocks : u.locks = w.locks := shares.locks.trans (locks_serve hno)
      refine guarded_of_answered hw answered (hawaits before) (fun _ => by rw [hlocks])
        (fun _ => by rw [hlocks]) ?_
      have hleaves : a.LeavesDomains := by
        cases a with
        | locks b => exact absurd rfl (hno b)
        | wait v => exact fits.elim
        | _ => trivial
      rw [Tenure.next_of_leavesDomains hleaves]

section Started

variable {mains : List (Steward β)}

/-- **The key of a domain leads to the cell that its strands use.** -/
theorem housed_of_strides (heeds : ∀ v, Strides program (start mains) v → v.Heeds K)
    (h : Strides program (start mains) w) : w.Housed K := by
  induction h with
  | refl =>
    exact ⟨nofun, nofun, nofun, fun c => ⟨[], List.nodup_nil, rfl, fun i => ⟨nofun, nofun⟩⟩⟩
  | step hlead hstride ih => exact ih.stride (heeds _ hlead) hstride

/-- **Domains are held by one strand at a time.** -/
theorem domainsGuarded_of_strides (heeds : ∀ v, Strides program (start mains) v → v.Heeds K)
    (h : Strides program (start mains) w) : w.DomainsGuarded := by
  induction h with
  | refl =>
    refine .of_nobody (fun _ => rfl) (fun i => ?_) fun _ => rfl
    rw [awaitsDomain, wait?]
    cases here : (start mains).strands[i]? with
    | none => rfl
    | some s =>
      obtain ⟨q, -, rfl⟩ := start_here here
      rfl
  | step hlead hstride ih =>
    exact ih.stride (heeds _ hlead) (housed_of_strides heeds hlead) hstride

end Started

end Weave

/-! ### What runs keep to -/

/-- The conduct of a strand with respect to domains. -/
def holding (requests : List (IssuanceRequest × LockMode)) (run : Nat) (job : Option Job) :
    Conduct Tenure where
  may _ t a := job = none → ∃ r mode, requests[run]? = some (r, mode) ∧ t.May r a
  next t a answer := t.next a answer

/-- What runs that contend for domains and their jobs keep to. -/
def contentionRules (p : IssuancePractice) (requests : List (IssuanceRequest × LockMode)) :
    Rules Issued (Journal × Tenure) where
  conduct run job := ((issuanceRules p requests).conduct run job).both (holding requests run job)
  start job := ((issuanceRules p requests).start job, .before)
  ends run job b s x := (issuanceRules p requests).ends run job b s.1 x

namespace Contending

variable {p : RenewalPractice} {requests : List (IssuanceRequest × LockMode)} {run : Nat}
variable {w u : Weave Issued} {i j : Nat} {s t : Strand Issued}

/-- A job has nothing to keep to with respect to domains. -/
theorem contention_admits {b : Bool} {j : Job}
    (h : (issuanceRules p.issuance requests).Admits p.program run b j) :
    (contentionRules p.issuance requests).Admits p.program run b j := by
  have hfree : ∀ (q : Steward (Outcome ⊕ Issued)) (b : Bool) (t : Tenure),
      (holding requests run (some j)).Keeps (fun _ _ _ => True) b t q := by
    intro q
    induction q with
    | done a => exact fun _ _ => trivial
    | ask a next ih => exact fun _ _ => ⟨nofun, fun answer _ => ih answer _ _⟩
  exact (Conduct.Keeps.both h (hfree _ _ _)).mono fun _ _ _ hends => hends.1

theorem contention_covers : (contentionRules p.issuance requests).Covers p.program where
  spawn hmay := contention_admits (covers.spawn hmay.1)
  divide hmay j hj := contention_admits (covers.divide hmay.1 j hj)

/-- All strands keep to the rules. -/
theorem contention_holds (h : Contending p requests w) : (contentionRules p.issuance requests).Holds w := by
  refine Rules.holds_of_leads (fun i q hq => ?_) contention_covers (fun _ _ => Weave.Stride.turn) h
  rw [List.getElem?_map, Option.map_eq_some_iff] at hq
  obtain ⟨⟨r, mode⟩, hr, rfl⟩ := hq
  have hruns := keeps_main (p := p) hr
  have htenancy := keeps_tenancy (b := false) p.issuance r mode
  dsimp only
  generalize issueCertificate p.issuance r mode = q at hruns htenancy ⊢
  have hholds : (holding requests i none).Keeps (fun _ _ _ => True) false .before
      (.inr <$> q : Steward (Outcome ⊕ Issued)) := by
    refine Conduct.keeps_map.mpr ?_
    refine Conduct.Keeps.comap (C := tenancy r) (f := fun t => t) ?_ (fun _ _ _ => rfl)
      (htenancy.mono fun _ _ _ _ => trivial)
    exact fun _ _ _ hmay _ => ⟨r, mode, hr, hmay⟩
  exact (hruns.both hholds).mono fun _ _ _ hends => hends.1

/-- A strand that is its own run has no job. -/
theorem main_of_run (h : Contending p requests w) (here : w.strands[i]? = some s)
    (hrun : s.run = i) : s.job = none := by
  unfold Contending at h
  suffices hjobs : s.job.isSome → s.run < i by
    cases hjob : s.job with
    | none => rfl
    | some j => exact absurd hrun (Nat.ne_of_lt (hjobs (by rw [hjob]; rfl)))
  clear hrun
  induction h generalizing i s with
  | refl =>
    obtain ⟨q, -, rfl⟩ := Weave.start_here here
    intro hjob
    cases hjob
  | @step v u hlead hstep ih =>
    -- a strand that is new comes after all runs
    have hlt : ∀ {k : Nat} {t : Strand Issued}, v.strands[k]? = some t → t.run < v.strands.length := by
      intro k t ht
      have hk := Weave.lt_of_here ht
      cases hjob : t.job with
      | none =>
        rw [((kinds hlead).main k t ht hjob).1]
        exact hk
      | some j => exact Nat.lt_trans (ih ht (by rw [hjob]; rfl)) hk
    cases hstep.turn.origin here with
    | old here job _ run =>
      rw [job, run]
      exact ih here
    | part here _ _ new _ _ _ run =>
      intro _
      rw [run]
      exact Nat.lt_of_lt_of_le (hlt here) new
    | started here _ new _ _ _ run =>
      intro _
      rw [run]
      exact Nat.lt_of_lt_of_le (hlt here) new

/-- The state that the rules speak of is the tenure. -/
theorem state_tenure (job : Option Job) :
    ((contentionRules p.issuance requests).state w i run job).2 = w.tenure i := by
  have h : ∀ (path : List Happening) (x : Journal × Tenure),
      (path.foldl (fun x e => ((contentionRules p.issuance requests).conduct run job).next x e.1 e.2)
        x).2 = path.foldl (fun t e => t.next e.1 e.2) x.2 := by
    intro path
    induction path with
    | nil => exact fun _ => rfl
    | cons e path ih => exact fun x => ih _
  exact h (w.path i) _

/-- What a run asks for belongs to its tenure. -/
theorem mayHold (h : Contending p requests w) (here : w.strands[i]? = some s) (hmain : s.job = none)
    {a : Act} {next : a.Answer → Steward (Outcome ⊕ Issued)} (asks : s.program = .ask a next) :
    ∃ r mode, requests[i]? = some (r, mode) ∧ (w.tenure i).May r a := by
  have hgov := h.contention_holds i s here
  rw [Rules.Governs, asks] at hgov
  obtain ⟨r, mode, hr, hmay⟩ := hgov.1.2 hmain
  rw [(h.kinds.main i s here hmain).1] at hr
  rw [state_tenure] at hmay
  exact ⟨r, mode, hr, hmay⟩

/-- Who asks the authority, or has to do with domains, is a run. -/
theorem job_eq_none (h : Contending p requests w) (here : w.strands[i]? = some s) {a : Act}
    {next : a.Answer → Steward (Outcome ⊕ Issued)} (asks : s.program = .ask a next)
    (ha : ¬ a.LeavesDomains ∨ ∃ q, a = .authority q) : s.job = none := by
  have hgov := h.contention_holds i s here
  rw [Rules.Governs, asks] at hgov
  have hmay := hgov.1.1.1
  obtain ha | ⟨q, rfl⟩ := ha
  · cases a with
    | locks => exact hmay
    | wait v =>
      cases v with
      | lock => exact hmay.2
      | _ => exact absurd trivial ha
    | _ => exact absurd trivial ha
  · exact hmay

/-- The domains of the runs for these requests. -/
def domainOf (requests : List (IssuanceRequest × LockMode)) (i : Nat) (k : String) : Prop :=
  ∃ r mode, requests[i]? = some (r, mode) ∧ r.HasDomain k

/-- **Runs for requests heed** what they may ask about domains, and their jobs ask nothing. -/
theorem heeds (h : Contending p requests w) : w.Heeds (domainOf requests) := by
  intro i s a next here asks
  cases hjob : s.job with
  | none =>
    obtain ⟨r, mode, hr, hmay⟩ := h.mayHold here hjob asks
    exact hmay.allows.mono fun k hk => ⟨r, mode, hr, hk⟩
  | some j =>
    have hneither : ¬ (¬ a.LeavesDomains ∨ ∃ q, a = .authority q) := fun ha =>
      nomatch hjob.symm.trans (h.job_eq_none here asks ha)
    exact Tenure.allows_of_leavesDomains (Classical.byContradiction fun hd => hneither (.inl hd))
      fun q hq => hneither (.inr ⟨q, hq⟩)

end Contending

end CertSteward
