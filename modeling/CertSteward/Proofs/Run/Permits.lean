import CertSteward.Proofs.Run.Courses
import Mathlib.Data.List.Perm.Subperm

/-!
# Who holds a permit

Permits know how many of them are left, not who has the others. Who holds one can be told from what
strands were answered, and together with those to whom one was passed, who do not know of it yet,
there are never more holders than permits. This needs that a strand gives back only what it holds.

## Main definitions

* `Permits.Custody` — no more strands hold a permit than there are permits
* `Act.permit?`, `Weave.permit?` — the permits of which a strand holds one
* `Act.IsFair` — requests that give back only what is held
* `Weave.PermitsKept` — all permits are kept like that

## Main results

* `Permits.Custody.take`, `giveBack`, `got`, `gaveUp` — what strands do keeps it so
* `Weave.PermitsKept.stride` — a stride of a fair strand does
* `Weave.PermitsKept.length_le` — no more strands hold a permit than there are
-/

namespace CertSteward

namespace Permits

variable {q : Permits} {n i : Nat} {awaits A holds H : Nat → Prop}

/-- Of `n` permits no more are held, known or not, than are not left, and who is in line for one
waits for it. -/
structure Custody (n : Nat) (q : Permits) (awaits holds : Nat → Prop) : Prop where
  line : ∀ i ∈ q.waiting, awaits i
  taken : ∃ l : List Nat, l.length + q.free = n ∧ ∀ i, holds i ∨ awaits i ∧ i ∉ q.waiting → i ∈ l

namespace Custody

/-- Nobody waits for new permits and nobody holds one. -/
theorem of_nobody (awaits_ : ∀ i, ¬ awaits i) (holds_ : ∀ i, ¬ holds i) :
    Custody n { free := n } awaits holds where
  line i hi := absurd hi List.not_mem_nil
  taken := by
    refine ⟨[], Nat.zero_add n, ?_⟩
    rintro i (h | ⟨h, -⟩)
    · exact absurd h (holds_ i)
    · exact absurd h (awaits_ i)

theorem congr (h : Custody n q awaits holds) (awaits_ : ∀ i, A i ↔ awaits i)
    (holds_ : ∀ i, H i ↔ holds i) : Custody n q A H := by
  obtain rfl : A = awaits := funext fun i => propext (awaits_ i)
  obtain rfl : H = holds := funext fun i => propext (holds_ i)
  exact h

/-- A strand takes a permit or gets in line. -/
theorem take (h : Custody n q awaits holds) (after : A i)
    (others : ∀ j, j ≠ i → (A j ↔ awaits j)) (none_ : ¬ holds i) :
    Custody n (q.take i).2 A holds := by
  obtain ⟨l, hlen, hl⟩ := h.taken
  have hwaits : ∀ j, awaits j → A j := fun j hj => by
    by_cases hji : j = i
    · exact hji ▸ after
    · exact (others j hji).mpr hj
  unfold Permits.take
  split
  · refine ⟨fun j hj => ?_, l, hlen, ?_⟩
    · obtain hj | hj := List.mem_append.mp hj
      · exact hwaits j (h.line j hj)
      · exact List.mem_singleton.mp hj ▸ after
    · rintro j (hj | ⟨hj, hnot⟩)
      · exact hl j (.inl hj)
      · have hji : j ≠ i := by
          rintro rfl
          exact hnot (List.mem_append_right _ List.mem_cons_self)
        exact hl j (.inr ⟨(others j hji).mp hj, fun hin => hnot (List.mem_append_left _ hin)⟩)
  · rename_i hfree
    refine ⟨fun j hj => hwaits j (h.line j hj), i :: l, ?_, ?_⟩
    · rw [List.length_cons]
      show l.length + 1 + (q.free - 1) = n
      omega
    · rintro j (hj | ⟨hj, hnot⟩)
      · exact List.mem_cons_of_mem _ (hl j (.inl hj))
      · by_cases hji : j = i
        · rw [hji]
          exact List.mem_cons_self
        · exact List.mem_cons_of_mem _ (hl j (.inr ⟨(others j hji).mp hj, hnot⟩))

/-- A permit passes from a strand to the first in line, or is left. -/
theorem giveBack (h : Custody n q awaits holds) (grips : holds i ∨ awaits i ∧ i ∉ q.waiting)
    (none_ : ¬ H i) (after : ¬ A i) (notIn : i ∉ q.waiting)
    (others : ∀ j, j ≠ i → (A j ↔ awaits j)) (apart : ∀ j, j ≠ i → (H j ↔ holds j)) :
    Custody n q.giveBack.2 A H := by
  obtain ⟨l, hlen, hl⟩ := h.taken
  have hi := hl i grips
  have herase : (l.erase i).length + 1 = l.length := by
    rw [List.length_erase_of_mem hi]
    have := List.length_pos_of_mem hi
    omega
  have hkept : ∀ j, j ≠ i → j ∈ l → j ∈ l.erase i := fun j hji hj =>
    (List.mem_erase_of_ne hji).mpr hj
  have hne : ∀ j, H j ∨ A j → j ≠ i := by
    rintro j hj rfl
    exact hj.elim none_ after
  have hline : ∀ j ∈ q.waiting, A j := fun j hj =>
    (others j fun hji => notIn (hji ▸ hj)).mpr (h.line j hj)
  unfold Permits.giveBack
  split
  · rename_i first rest hwaiting
    rw [hwaiting] at hline
    refine ⟨fun j hj => hline j (List.mem_cons_of_mem _ hj), first :: l.erase i, ?_, fun j hj => ?_⟩
    · rw [List.length_cons, herase]
      exact hlen
    · by_cases hfirst : j = first
      · rw [hfirst]
        exact List.mem_cons_self
      have hji : j ≠ i := hne j (hj.imp_right And.left)
      refine List.mem_cons_of_mem _ (hkept j hji (hl j ?_))
      obtain hj | ⟨hj, hnot⟩ := hj
      · exact .inl ((apart j hji).mp hj)
      · refine .inr ⟨(others j hji).mp hj, ?_⟩
        rw [hwaiting]
        exact List.not_mem_cons_of_ne_of_not_mem hfirst hnot
  · rename_i hwaiting
    refine ⟨hline, l.erase i, ?_, fun j hj => ?_⟩
    · show (l.erase i).length + (q.free + 1) = n
      omega
    · have hji : j ≠ i := hne j (hj.imp_right And.left)
      refine hkept j hji (hl j ?_)
      exact hj.imp (apart j hji).mp fun ⟨hj, hnot⟩ => ⟨(others j hji).mp hj, hnot⟩

/-- A strand learns that it has the permit that it waited for. -/
theorem got (h : Custody n q awaits holds) (before : awaits i) (granted : i ∉ q.waiting)
    (others : ∀ j, j ≠ i → (A j ↔ awaits j)) (apart : ∀ j, j ≠ i → (H j ↔ holds j)) :
    Custody n q A H := by
  obtain ⟨l, hlen, hl⟩ := h.taken
  refine ⟨fun j hj => ?_, l, hlen, fun j hj => ?_⟩
  · exact (others j fun hji => granted (hji ▸ hj)).mpr (h.line j hj)
  · by_cases hji : j = i
    · exact hji ▸ hl i (.inr ⟨before, granted⟩)
    · exact hl j (hj.imp (apart j hji).mp fun ⟨hj, hnot⟩ => ⟨(others j hji).mp hj, hnot⟩)

/-- A strand gives up on the permit that it waited for, and passes it on if it was given one. -/
theorem gaveUp (h : Custody n q awaits holds) (before : awaits i) (none_ : ¬ holds i)
    (after : ¬ A i) (others : ∀ j, j ≠ i → (A j ↔ awaits j)) :
    Custody n (if i ∈ q.waiting then q.withdraw i else q.giveBack.2) A holds := by
  by_cases hin : i ∈ q.waiting
  · rw [if_pos hin]
    obtain ⟨l, hlen, hl⟩ := h.taken
    have hmem : ∀ j, j ∈ (q.withdraw i).waiting ↔ j ∈ q.waiting ∧ j ≠ i := fun j => by
      rw [Permits.withdraw, List.mem_filter, decide_eq_true_iff]
    refine ⟨fun j hj => ?_, l, hlen, fun j hj => hl j ?_⟩
    · obtain ⟨hj, hji⟩ := (hmem j).mp hj
      exact (others j hji).mpr (h.line j hj)
    · obtain hj | ⟨hj, hnot⟩ := hj
      · exact .inl hj
      · have hji : j ≠ i := by
          rintro rfl
          exact after hj
        exact .inr ⟨(others j hji).mp hj, fun hin => hnot ((hmem j).mpr ⟨hin, hji⟩)⟩
  · rw [if_neg hin]
    exact h.giveBack (.inr ⟨before, hin⟩) none_ after hin others fun _ _ => .rfl

/-- No more strands hold a permit than there are. -/
theorem length_le (h : Custody n q awaits holds) {l : List Nat} (nodup : l.Nodup)
    (hl : ∀ i ∈ l, holds i) : l.length ≤ n := by
  obtain ⟨m, hlen, hm⟩ := h.taken
  have hle : l.length ≤ m.length := List.Subperm.length_le
    (List.subperm_of_subset nodup fun i hi => hm i (.inl (hl i hi)))
  omega

end Custody

end Permits

/-! ### Permits of strands -/

/-- The permits of which a strand holds one, after an answer. -/
def Act.permit? (held : Option Nat) : (a : Act) → a.Answer → Option Nat
  | .wait (.permit p), some () => some p
  | .givePermit _, _ => none
  | _, _ => held

/-- A strand that holds one of the permits `held`, if any, gives back only what it holds, and waits
for one only if it holds none. -/
def Act.IsFair (held : Option Nat) : Act → Prop
  | .givePermit p => held = some p
  | .wait (.permit _) => held = none
  | _ => True

/-- The permits that are waited for. -/
def Wait.permit? : Wait → Option Nat
  | .permit p => some p
  | _ => none

namespace Weave

variable {β : Type} {program : Job → Steward Outcome} {w u : Weave β} {i j : Nat} {s : Strand β}
variable {a : Act} {answer : a.Answer}

/-- The permits of which a strand holds one. -/
def permit? (w : Weave β) (i : Nat) : Option Nat :=
  (w.path i).foldl (fun held e => e.1.permit? held e.2) none

/-- The permits for one of which a strand waits. -/
def awaitsPermit? (w : Weave β) (i : Nat) : Option Nat := (w.wait? i).bind Wait.permit?

theorem permit?_congr (h : u.log = w.log) (j : Nat) : u.permit? j = w.permit? j := by
  rw [permit?, permit?, path_congr h]

theorem Answered.permit? (h : w.Answered u i s a answer) :
    u.permit? i = a.permit? (w.permit? i) answer := by
  rw [Weave.permit?, Weave.permit?, path_append h.log, if_pos rfl, List.foldl_append]
  rfl

theorem Answered.permit?_of_ne (h : w.Answered u i s a answer) (hj : j ≠ i) :
    u.permit? j = w.permit? j := by
  rw [Weave.permit?, Weave.permit?, path_append h.log, if_neg (Ne.symm hj)]

theorem awaitsPermit?_congr (h : u.wait? j = w.wait? j) :
    u.awaitsPermit? j = w.awaitsPermit? j := by
  rw [awaitsPermit?, awaitsPermit?, h]

theorem Answered.awaitsPermit? (h : w.Answered u i s a answer) : u.awaitsPermit? i = none := by
  rw [Weave.awaitsPermit?, h.after]
  rfl

theorem Answered.awaitsPermit?_of_ne (h : w.Answered u i s a answer) (hj : j ≠ i) :
    u.awaitsPermit? j = w.awaitsPermit? j :=
  awaitsPermit?_congr (h.others j hj)

/-- No permits are held by more strands than there are. -/
structure PermitsKept (w : Weave β) : Prop where
  bound : ∀ i p, w.permit? i = some p ∨ w.awaitsPermit? i = some p → p < w.permits.size
  custody : ∀ i n p, ⟨.newPermits n, p⟩ ∈ w.path i → ∃ q, w.permits[p]? = some q ∧
    q.Custody n (fun j => w.awaitsPermit? j = some p) (fun j => w.permit? j = some p)

namespace PermitsKept

theorem length_le (hw : w.PermitsKept) {n p : Nat} (hnew : ⟨.newPermits n, p⟩ ∈ w.path i)
    {l : List Nat} (nodup : l.Nodup) (hl : ∀ j ∈ l, w.permit? j = some p) : l.length ≤ n := by
  obtain ⟨q, -, hq⟩ := hw.custody i n p hnew
  exact hq.length_le nodup hl

theorem start {mains : List (Steward β)} : (Weave.start mains).PermitsKept where
  bound i p h := by
    have hwait : (Weave.start mains).wait? i = none := by
      rw [wait?]
      cases hs : (Weave.start mains).strands[i]? with
      | none => rfl
      | some s =>
        obtain ⟨q, -, rfl⟩ := start_here hs
        rfl
    obtain h | h := h
    · cases h
    · rw [awaitsPermit?, hwait] at h
      cases h
  custody i n p h := absurd h List.not_mem_nil

/-- Nothing happens that has to do with permits. -/
theorem of_same (hw : w.PermitsKept) (permits : u.permits = w.permits)
    (held : ∀ j, u.permit? j = w.permit? j) (awaits : ∀ j, u.awaitsPermit? j = w.awaitsPermit? j)
    (old : ∀ i n p, ⟨.newPermits n, p⟩ ∈ u.path i → ⟨.newPermits n, p⟩ ∈ w.path i) :
    u.PermitsKept where
  bound i p h := by
    rw [permits]
    rw [held, awaits] at h
    exact hw.bound i p h
  custody i n p h := by
    rw [permits]
    obtain ⟨q, hq, hcustody⟩ := hw.custody i n p (old i n p h)
    exact ⟨q, hq, hcustody.congr (fun j => by rw [awaits]) fun j => by rw [held]⟩

/-- Permits `p` change, and no others do. -/
theorem of_change {p : Nat} {f : Permits → Permits} (hw : w.PermitsKept)
    (size : u.permits.size = w.permits.size)
    (permits : ∀ p', u.permits[p']? = if p = p' then w.permits[p']?.map f else w.permits[p']?)
    (bound : ∀ i p', u.permit? i = some p' ∨ u.awaitsPermit? i = some p' →
      (w.permit? i = some p' ∨ w.awaitsPermit? i = some p') ∨ p' < w.permits.size)
    (others : ∀ i p', p' ≠ p → (u.permit? i = some p' ↔ w.permit? i = some p') ∧
      (u.awaitsPermit? i = some p' ↔ w.awaitsPermit? i = some p'))
    (change : ∀ n q, w.permits[p]? = some q → q.Custody n (fun j => w.awaitsPermit? j = some p)
      (fun j => w.permit? j = some p) → (f q).Custody n (fun j => u.awaitsPermit? j = some p)
      (fun j => u.permit? j = some p))
    (old : ∀ i n p, ⟨.newPermits n, p⟩ ∈ u.path i → ⟨.newPermits n, p⟩ ∈ w.path i) :
    u.PermitsKept where
  bound i p' h := by
    rw [size]
    exact (bound i p' h).elim (hw.bound i p') id
  custody i n p' h := by
    obtain ⟨q, hq, hcustody⟩ := hw.custody i n p' (old i n p' h)
    rw [permits, hq]
    by_cases hp : p = p'
    · subst hp
      exact ⟨f q, if_pos rfl, change n q hq hcustody⟩
    · exact ⟨q, if_neg hp, hcustody.congr (fun j => (others j p' (Ne.symm hp)).2)
        fun j => (others j p' (Ne.symm hp)).1⟩

/-- Permits `p` are changed. -/
theorem of_modify {p : Nat} {f : Permits → Permits} (permits : u.permits = w.permits.modify p f) :
    u.permits.size = w.permits.size ∧
      ∀ p', u.permits[p']? = if p = p' then w.permits[p']?.map f else w.permits[p']? := by
  rw [permits]
  exact ⟨Array.size_modify, fun p' => Array.getElem?_modify⟩

/-- An answer that makes no new permits is not about any. -/
theorem old_of_answered (h : w.Answered u i s a answer) (ha : ∀ n, a ≠ .newPermits n) :
    ∀ j n p, ⟨.newPermits n, p⟩ ∈ u.path j → ⟨.newPermits n, p⟩ ∈ w.path j := by
  intro j n p hmem
  rw [path_append h.log] at hmem
  split at hmem
  · obtain hmem | hmem := List.mem_append.mp hmem
    · exact hmem
    · cases List.mem_singleton.mp hmem
      exact absurd rfl (ha n)
  · exact hmem

/-- An answer that has nothing to do with permits. -/
theorem of_answered (hw : w.PermitsKept) (h : w.Answered u i s a answer)
    (permits : u.permits = w.permits) (held : a.permit? (w.permit? i) answer = w.permit? i)
    (awaits : w.awaitsPermit? i = none) (ha : ∀ n, a ≠ .newPermits n) : u.PermitsKept := by
  refine hw.of_same permits (fun j => ?_) (fun j => ?_) (old_of_answered h ha)
  · by_cases hj : j = i
    · rw [hj, h.permit?, held]
    · exact h.permit?_of_ne hj
  · by_cases hj : j = i
    · rw [hj, h.awaitsPermit?, awaits]
    · exact h.awaitsPermit?_of_ne hj

/-- A strand is answered, which has to do with permits `p` and no others. -/
theorem of_answered_change {p : Nat} {f : Permits → Permits} (hw : w.PermitsKept)
    (h : w.Answered u i s a answer) (size : u.permits.size = w.permits.size)
    (permits : ∀ p', u.permits[p']? = if p = p' then w.permits[p']?.map f else w.permits[p']?)
    (only : ∀ p', p' ≠ p → w.permit? i ≠ some p' ∧ w.awaitsPermit? i ≠ some p' ∧
      u.permit? i ≠ some p')
    (known : u.permit? i = some p → p < w.permits.size)
    (change : ∀ n q, w.permits[p]? = some q → q.Custody n (fun j => w.awaitsPermit? j = some p)
      (fun j => w.permit? j = some p) → (f q).Custody n (fun j => u.awaitsPermit? j = some p)
      (fun j => u.permit? j = some p)) (ha : ∀ n, a ≠ .newPermits n) : u.PermitsKept := by
  have hafter : ∀ p', u.awaitsPermit? i ≠ some p' := fun p' => by
    rw [h.awaitsPermit?]
    nofun
  refine hw.of_change size permits (fun j p' hj => ?_) (fun j p' hp => ?_) change
    (old_of_answered h ha)
  · by_cases hji : j = i
    · rw [hji] at hj
      have hheld := hj.resolve_right (hafter p')
      by_cases hp : p' = p
      · exact .inr (hp ▸ known (hp ▸ hheld))
      · exact absurd hheld (only p' hp).2.2
    · rw [h.permit?_of_ne hji, h.awaitsPermit?_of_ne hji] at hj
      exact .inl hj
  · by_cases hji : j = i
    · obtain ⟨hholds, hwaits, hH⟩ := only p' hp
      rw [hji]
      exact ⟨iff_of_false hH hholds, iff_of_false (hafter p') hwaits⟩
    · rw [h.permit?_of_ne hji, h.awaitsPermit?_of_ne hji]
      exact ⟨.rfl, .rfl⟩

/-- A strand begins to wait. -/
theorem enter {v : Wait} (hw : w.PermitsKept) (before : w.wait? i = none)
    (after : u.wait? i = some v) (others : ∀ j, j ≠ i → u.wait? j = w.wait? j)
    (log : u.log = w.log) (permits : u.permits = (w.enter i v).permits)
    (fair : (Act.wait v).IsFair (w.permit? i))
    (known : ∀ p, v = .permit p → p < w.permits.size) : u.PermitsKept := by
  have hold : ∀ i n p, ⟨.newPermits n, p⟩ ∈ u.path i → ⟨.newPermits n, p⟩ ∈ w.path i :=
    fun i n p h => path_congr log i ▸ h
  have hnone : w.awaitsPermit? i = none := by
    rw [awaitsPermit?, before]
    rfl
  have hafter : u.awaitsPermit? i = v.permit? := by
    rw [awaitsPermit?, after]
    rfl
  have hothers : ∀ j, j ≠ i → u.awaitsPermit? j = w.awaitsPermit? j := fun j hj =>
    awaitsPermit?_congr (others j hj)
  have hcalm : v.permit? = none → u.permits = w.permits → u.PermitsKept := fun hv hpermits => by
    refine hw.of_same hpermits (permit?_congr log) (fun j => ?_) hold
    by_cases hj : j = i
    · rw [hj, hafter, hnone, hv]
    · exact hothers j hj
  cases v with
  | permit p =>
    have hheld : w.permit? i = none := fair
    obtain ⟨hsize, hchange⟩ := of_modify (f := fun q => (q.take i).2) permits
    refine hw.of_change hsize hchange (fun j p' h => ?_) (fun j p' hp => ?_)
      (fun n q _ hq => ?_) hold
    · rw [permit?_congr log] at h
      by_cases hj : j = i
      · rw [hj, hafter] at h
        obtain h | h := h
        · exact .inl (.inl (hj ▸ h))
        · cases h
          exact .inr (known p rfl)
      · exact .inl (h.imp_right fun h => hothers j hj ▸ h)
    · rw [permit?_congr log]
      refine ⟨.rfl, ?_⟩
      by_cases hj : j = i
      · rw [hj, hafter, hnone]
        exact ⟨fun h => absurd (Option.some.inj h).symm hp, nofun⟩
      · rw [hothers j hj]
    · refine (hq.take (A := fun j => u.awaitsPermit? j = some p) hafter (fun j hj => ?_)
        ?_).congr (fun _ => .rfl) fun j => ?_
      · rw [hothers j hj]
      · rw [hheld]
        nofun
      · rw [permit?_congr log]
  | _ => exact hcalm rfl permits

/-- The wait of a strand is over. -/
theorem goOn {v : Wait} {answer : v.Answer} (hw : w.PermitsKept)
    (answered : w.Answered u i s (.wait v) (some answer)) (before : w.wait? i = some v)
    (isOver : (∃ jobs, v = .all jobs) ∨ w.IsOver i v answer) (permits : u.permits = w.permits)
    (fair : (Act.wait v).IsFair (w.permit? i)) : u.PermitsKept := by
  have hawaits : w.awaitsPermit? i = v.permit? := by
    rw [awaitsPermit?, before]
    rfl
  cases v with
  | permit p =>
    have hheld : w.permit? i = none := fair
    have hgot : u.permit? i = some p := answered.permit?
    have hsame : ∀ p', u.permits[p']? = if p = p' then w.permits[p']?.map id else w.permits[p']? := by
      intro p'
      rw [permits, Option.map_id]
      exact (ite_self _).symm
    refine hw.of_answered_change answered (by rw [permits]) hsame (fun p' hp => ?_)
      (fun _ => hw.bound i p (.inr hawaits)) (fun n q hq hcustody => ?_) nofun
    · have hne : some p ≠ some p' := fun h => hp (Option.some.inj h).symm
      rw [hheld, hgot, hawaits]
      exact ⟨nofun, hne, hne⟩
    · obtain ⟨_, h⟩ | hover := isOver
      · cases h
      · refine hcustody.got hawaits (hover q hq) (fun j hj => ?_) fun j hj => ?_
        · rw [answered.awaitsPermit?_of_ne hj]
        · rw [answered.permit?_of_ne hj]
  | _ => exact hw.of_answered answered permits rfl hawaits nofun

/-- A strand gives up its wait. -/
theorem interrupt {v : Wait} (hw : w.PermitsKept) (answered : w.Answered u i s (.wait v) none)
    (before : w.wait? i = some v) (permits : u.permits = (w.withdraw i v).permits)
    (fair : (Act.wait v).IsFair (w.permit? i)) : u.PermitsKept := by
  have hawaits : w.awaitsPermit? i = v.permit? := by
    rw [awaitsPermit?, before]
    rfl
  cases v with
  | permit p =>
    have hheld : w.permit? i = none := fair
    have hafter : u.permit? i = none := answered.permit?.trans hheld
    obtain ⟨hsize, hchange⟩ :=
      of_modify (f := fun q => if i ∈ q.waiting then q.withdraw i else q.giveBack.2) permits
    refine hw.of_answered_change answered hsize hchange (fun p' hp => ?_) (fun h => ?_)
      (fun n q _ hcustody => ?_) nofun
    · rw [hheld, hafter, hawaits]
      exact ⟨nofun, fun h => hp (Option.some.inj h).symm, nofun⟩
    · rw [hafter] at h
      cases h
    · refine (hcustody.gaveUp (A := fun j => u.awaitsPermit? j = some p) hawaits ?_ ?_
        fun j hj => ?_).congr (fun _ => .rfl) fun j => ?_
      · rw [hheld]
        nofun
      · rw [answered.awaitsPermit?]
        nofun
      · rw [answered.awaitsPermit?_of_ne hj]
      · by_cases hj : j = i
        · rw [hj, hafter, hheld]
        · rw [answered.permit?_of_ne hj]
  | _ => exact hw.of_answered answered permits rfl hawaits nofun

/-- A strand gives a permit back. -/
theorem givePermit {p : Nat} (hw : w.PermitsKept)
    (answered : w.Answered u i s (.givePermit p) ()) (before : w.wait? i = none)
    (permits : u.permits = w.permits.modify p fun q => q.giveBack.2)
    (fair : w.permit? i = some p) : u.PermitsKept := by
  have hnone : w.awaitsPermit? i = none := by
    rw [awaitsPermit?, before]
    rfl
  have hafter : u.permit? i = none := answered.permit?
  obtain ⟨hsize, hchange⟩ := of_modify permits
  refine hw.of_answered_change answered hsize hchange (fun p' hp => ?_) (fun h => ?_)
    (fun n q _ hcustody => ?_) nofun
  · rw [fair, hafter, hnone]
    exact ⟨fun h => hp (Option.some.inj h).symm, nofun, nofun⟩
  · rw [hafter] at h
    cases h
  · refine hcustody.giveBack (i := i) (.inl fair) ?_ ?_ (fun hin => ?_) (fun j hj => ?_) fun j hj => ?_
    · rw [hafter]
      nofun
    · rw [answered.awaitsPermit?]
      nofun
    · cases hnone.symm.trans (hcustody.line i hin)
    · rw [answered.awaitsPermit?_of_ne hj]
    · rw [answered.permit?_of_ne hj]

/-- There are new permits. -/
theorem newPermits {n : Nat} (hw : w.PermitsKept)
    (answered : w.Answered u i s (.newPermits n) w.permits.size) (before : w.wait? i = none)
    (permits : u.permits = w.permits.push { free := n }) : u.PermitsKept := by
  have hnone : w.awaitsPermit? i = none := by
    rw [awaitsPermit?, before]
    rfl
  have hheld : ∀ j, u.permit? j = w.permit? j := fun j => by
    by_cases hj : j = i
    · rw [hj, answered.permit?]
      rfl
    · exact answered.permit?_of_ne hj
  have hawaits : ∀ j, u.awaitsPermit? j = w.awaitsPermit? j := fun j => by
    by_cases hj : j = i
    · rw [hj, answered.awaitsPermit?, hnone]
    · exact answered.awaitsPermit?_of_ne hj
  refine ⟨fun j p h => ?_, fun j m p h => ?_⟩
  · rw [hheld, hawaits] at h
    rw [permits, Array.size_push]
    exact Nat.lt_succ_of_lt (hw.bound j p h)
  · rw [permits, Array.getElem?_push]
    have hold : ⟨.newPermits m, p⟩ ∈ w.path j ∨ (m = n ∧ p = w.permits.size) := by
      rw [path_append answered.log] at h
      split at h
      · obtain h | h := List.mem_append.mp h
        · exact .inl h
        · cases List.mem_singleton.mp h
          exact .inr ⟨rfl, rfl⟩
      · exact .inl h
    obtain hold | ⟨rfl, rfl⟩ := hold
    · obtain ⟨q, hq, hcustody⟩ := hw.custody j m p hold
      have hlt : p < w.permits.size := (Array.getElem?_eq_some_iff.mp hq).1
      rw [if_neg (Nat.ne_of_lt hlt)]
      exact ⟨q, hq, hcustody.congr (fun j => by rw [hawaits]) fun j => by rw [hheld]⟩
    · rw [if_pos rfl]
      refine ⟨_, rfl, .of_nobody (fun k hk => ?_) fun k hk => ?_⟩
      · rw [hawaits] at hk
        exact Nat.lt_irrefl _ (hw.bound k _ (.inr hk))
      · rw [hheld] at hk
        exact Nat.lt_irrefl _ (hw.bound k _ (.inl hk))

/-- **Permits are kept** by strands that are fair, and wait only for permits that there are. -/
theorem stride (hw : w.PermitsKept)
    (fair : ∀ (i : Nat) (s : Strand β) (a : Act) (next : a.Answer → Steward (Outcome ⊕ β)),
      w.strands[i]? = some s → s.program = .ask a next → a.IsFair (w.permit? i))
    (known : ∀ (i : Nat) (s : Strand β) (p : Nat) (next : Option Unit → Steward (Outcome ⊕ β)),
      w.strands[i]? = some s → s.program = .ask (.wait (.permit p)) next → p < w.permits.size)
    (h : Stride program w u) : u.PermitsKept := by
  cases h.deed with
  | calm waits log shares =>
    exact hw.of_same shares.permits (permit?_congr log) (fun j => awaitsPermit?_congr (waits j))
      fun i n p h => path_congr log i ▸ h
  | enter here asks before after others log shares =>
    refine hw.enter before after others log shares.permits (fair _ _ _ _ here asks) ?_
    rintro p rfl
    exact known _ _ p _ here asks
  | goOn answered before isOver shares =>
    obtain ⟨next, asks⟩ := answered.asks
    exact hw.goOn answered before isOver shares.permits (fair _ _ _ _ answered.here asks)
  | interrupt answered before shares =>
    obtain ⟨next, asks⟩ := answered.asks
    exact hw.interrupt answered before shares.permits (fair _ _ _ _ answered.here asks)
  | @refuse i s v answered before shares =>
    refine hw.of_answered answered shares.permits (by cases v <;> rfl) ?_ nofun
    rw [awaitsPermit?, before]
    rfl
  | @act i s a answer answered before fits shares =>
    obtain ⟨next, asks⟩ := answered.asks
    have hnone : w.awaitsPermit? i = none := by
      rw [awaitsPermit?, before]
      rfl
    cases a with
    | newPermits n =>
      obtain rfl : answer = w.permits.size := fits
      exact hw.newPermits answered before shares.permits
    | givePermit p =>
      exact hw.givePermit answered before shares.permits (fair _ _ _ _ answered.here asks)
    | wait v => exact fits.elim
    | _ => exact hw.of_answered answered shares.permits rfl hnone nofun

end PermitsKept

end Weave

end CertSteward
