import CertSteward.Proofs.Dns.Scene
import CertSteward.Proofs.Run.Following
import Mathlib.Data.List.Perm.Subperm

/-!
# Records are made beside each other

The parts of a run are polled one after the other. Each of them finds its record, gets in line for a
slot that another part holds, or holds a new slot and has its record made. Then the jobs have their
turns: they make their records at once, or all of them sleep until the service is done and are woken
together. At last the parts learn of their records, and the main program collects the outcomes.

## Main definitions

* `Seat.maker`, `Maker.followedBy` — a part that has its record made, and one that follows it
* `Machine.Turns` — jobs that have their turns, each from one stage to another

## Main results

* `Machine.Scene.all_arrive` — all parts come to their slots
* `Machine.Scene.all_make` — all records are made
* `Machine.Scene.all_learn`, `collects` — all parts come to their ends, and the main program goes on
-/

namespace CertSteward

open Machine

/-- The maker of a part that has its record made. -/
def Seat.maker (s : Seat) (job cell : Nat) : Maker := { lead := s, job, cell }

/-- A maker with a part that follows. -/
def Maker.followedBy (k : Maker) (s : Seat) : Maker := { k with follower := some s }

namespace Layout

variable {seats todo : List Seat} {ks before after : List Maker} {k : Maker} {s : Seat} {g : Nat}

/-- A part that begins has its record made. -/
theorem leads (h : Layout seats ks (s :: todo)) {cell : Nat}
    (hg : g ∉ 0 :: (seats.map (·.part) ++ ks.map (·.job))) :
    Layout seats (ks ++ [s.maker g cell]) todo where
  fibers := by
    have happend : 0 :: (seats.map (·.part) ++ (ks ++ [s.maker g cell]).map (·.job)) =
        (0 :: (seats.map (·.part) ++ ks.map (·.job))) ++ [g] := by simp [Seat.maker]
    rw [happend]
    exact List.nodup_append.mpr ⟨h.fibers, List.nodup_singleton g, fun f hf f' hf' heq =>
      hg (List.mem_singleton.mp hf' ▸ heq ▸ hf)⟩
  subset k hk s' hs' := by
    obtain hk | hk := List.mem_append.mp hk
    · exact h.subset k hk s' hs'
    · rw [List.mem_singleton.mp hk] at hs'
      obtain rfl : s' = s := by simpa [Maker.seats, Seat.maker] using hs'
      exact h.todo_subset List.mem_cons_self
  todo_subset s' hs' := h.todo_subset (List.mem_cons_of_mem s hs')
  apart := by
    have happend : todo ++ (ks ++ [s.maker g cell]).flatMap Maker.seats =
        (todo ++ ks.flatMap Maker.seats) ++ [s] := by simp [Maker.seats, Seat.maker]
    rw [happend]
    exact (List.perm_append_singleton s _).nodup_iff.mpr h.apart

/-- A part that begins follows another. -/
theorem follows (h : Layout seats (before ++ k :: after) (s :: todo)) (hk : k.follower = none) :
    Layout seats (before ++ k.followedBy s :: after) todo where
  fibers := by simpa [Maker.followedBy] using h.fibers
  subset k' hk' s' hs' := by
    obtain hbefore | hk' := List.mem_append.mp hk'
    · exact h.subset k' (List.mem_append_left _ hbefore) s' hs'
    · obtain rfl | hafter := List.mem_cons.mp hk'
      · obtain rfl | hs' := List.mem_cons.mp hs'
        · exact h.lead_mem (k := k) (List.mem_append_right _ List.mem_cons_self)
        · obtain rfl : s' = s := by simpa [Maker.followedBy] using hs'
          exact h.todo_subset List.mem_cons_self
      · exact h.subset k' (List.mem_append_right _ (List.mem_cons_of_mem k hafter)) s' hs'
  todo_subset s' hs' := h.todo_subset (List.mem_cons_of_mem s hs')
  apart := by
    have hold : (s :: todo) ++ (before ++ k :: after).flatMap Maker.seats =
        s :: ((todo ++ before.flatMap Maker.seats ++ [k.lead]) ++ after.flatMap Maker.seats) := by
      simp [Maker.seats, hk]
    have hnew : todo ++ (before ++ k.followedBy s :: after).flatMap Maker.seats =
        (todo ++ before.flatMap Maker.seats ++ [k.lead]) ++ s :: after.flatMap Maker.seats := by
      simp [Maker.seats, Maker.followedBy]
    rw [hnew]
    exact List.perm_middle.nodup_iff.mpr (hold ▸ h.apart)

end Layout

namespace Slots

variable {t₀ t : MutexTable SlotKey (Option String)} {ks before after : List Maker} {k : Maker}
variable {s : Seat} {job : Nat} {cell : MutexTable.Cell (Option String)}

theorem leads (h : Slots t₀ t ks) (hk : t.index.lookup s.key = none) :
    Slots t₀ (t.extend s.key cell) (ks ++ [s.maker job t.cells.size]) where
  index := by
    rw [MutexTable.extend, h.index]
    simp [Seat.maker]
  keys := by
    rw [MutexTable.extend, List.map_append, List.map_singleton]
    refine List.nodup_append.mpr ⟨h.keys, List.nodup_singleton _, fun a ha b hb heq => ?_⟩
    have heq' : a = s.key := heq.trans (List.mem_singleton.mp hb)
    exact MutexTable.lookup_eq_none_iff.mp hk (heq' ▸ ha)
  cells := by
    rw [List.map_append, h.cells, List.length_append, List.length_singleton, List.range'_1_concat,
      ← h.size]
    rfl
  size := by
    rw [MutexTable.extend, Array.size_push, h.size, List.length_append]
    rfl
  old c hc := by
    have hsize := h.size
    rw [MutexTable.extend, Array.getElem?_push, if_neg (by omega)]
    exact h.old c hc

theorem follows (h : Slots t₀ t (before ++ k :: after)) :
    Slots t₀ (t.set k.cell cell) (before ++ k.followedBy s :: after) := by
  have hset := h.set (List.mem_append_right before (List.mem_cons_self (l := after))) cell
  exact ⟨by simpa [Maker.followedBy] using hset.index, hset.keys,
    by simpa [Maker.followedBy] using hset.cells, by simpa using hset.size, hset.old⟩

end Slots

namespace Machine.Scene

variable {m m' : Machine} {q : RenewalPractice} {token : Nat} {isWatching : Bool} {w₀ : World}
variable {seats todo : List Seat} {ks : List Maker} {k : Maker} {s : Seat} {c : Nat} {id : String}
variable {stage : Maker → Stage}

/-- Everybody in a scene is there. -/
theorem size_not_mem (h : m.Scene q token isWatching w₀ seats ks (fun _ => .asked) todo) :
    m.fibers.size ∉ 0 :: (seats.map (·.part) ++ ks.map (·.job)) := by
  have hlt : ∀ {f : Nat} {fiber : Fiber}, m.fibers[f]? = some fiber → f ≠ m.fibers.size :=
    fun hfiber => Nat.ne_of_lt (Array.getElem?_eq_some_iff.mp hfiber).choose
  intro hmem
  obtain hmain | hmem := List.mem_cons.mp hmem
  · obtain ⟨main, hfiber, -⟩ := h.main
    exact hlt hfiber hmain.symm
  obtain hpart | hjob := List.mem_append.mp hmem
  · obtain ⟨s, hs, heq⟩ := List.mem_map.mp hpart
    obtain htodo | ⟨id, his⟩ | ⟨k, hk, hsk⟩ := h.placed s hs
    · exact (h.ready s htodo).ne_size heq
    · exact his.ne_size heq
    · have hstands := h.stands k hk
      obtain rfl | hsk := List.mem_cons.mp hsk
      · obtain ⟨_, -, his⟩ := hstands.lead
        exact his.ne_size heq
      · obtain ⟨_, -, his⟩ := hstands.follower s (Option.mem_toList.mp hsk)
        exact his.ne_size heq
  · obtain ⟨k, hk, heq⟩ := List.mem_map.mp hjob
    obtain ⟨_, his⟩ := (h.stands k hk).job.is
    exact his.ne_size heq

/-- Whoever is still to come is ready after the next part came, too. -/
theorem ready_rest (h : m.Scene q token isWatching w₀ seats ks stage (s :: todo))
    (hseat : ∀ s' ∈ seats, s' ≠ s → m'.fibers[s'.part]? = m.fibers[s'.part]?)
    (hcancelled : m'.cancelled = m.cancelled) :
    ∀ s' ∈ todo, m'.Is s'.part 0 token (.ready (q.program s'.job)) := by
  intro s' hs'
  have hne : s' ≠ s := by
    rintro rfl
    exact (List.nodup_cons.mp h.layout.apart).1 (List.mem_append_left _ hs')
  have hrest : s' ∈ s :: todo := List.mem_cons_of_mem s hs'
  exact (h.ready s' hrest).congr (hseat s' (h.layout.todo_subset hrest) hne) hcancelled

/-- If at most two parts have a key, nobody follows before the second one comes. -/
theorem follower_eq_none (h : m.Scene q token isWatching w₀ seats ks stage (s :: todo)) (hk : k ∈ ks)
    (hkey : k.lead.key = s.key) (hkeys : ∀ s ∈ k.follower, s.key = k.lead.key)
    (hpairs : (seats.filter (·.key = s.key)).length ≤ 2) : k.follower = none := by
  cases hfollower : k.follower with
  | none => rfl
  | some s' =>
    have hs' := h.layout.follower_mem hk hfollower
    have hnot := h.layout.todo_not_mem_seats hk (List.mem_cons_self (a := s) (l := todo))
    rw [Maker.seats, hfollower] at hnot
    have hne : s' ≠ k.lead := fun heq =>
      h.layout.follower_part_ne hk hfollower (congrArg Seat.part heq)
    have hthree : [s, k.lead, s'].Nodup := by
      simp only [Option.toList_some, List.mem_cons, List.not_mem_nil, or_false, not_or] at hnot
      simp [hnot, Ne.symm hne]
    have hsub : [s, k.lead, s'] ⊆ seats.filter (·.key = s.key) := by
      intro x hx
      simp only [List.mem_cons, List.not_mem_nil, or_false] at hx
      refine List.mem_filter.mpr ?_
      obtain rfl | rfl | rfl := hx
      · exact ⟨h.layout.todo_subset List.mem_cons_self, decide_eq_true rfl⟩
      · exact ⟨h.layout.lead_mem hk, decide_eq_true hkey⟩
      · exact ⟨hs', decide_eq_true ((hkeys _ hfollower).trans hkey)⟩
    have hle := (hthree.subperm hsub).length_le
    rw [List.length_cons, List.length_cons, List.length_singleton] at hle
    omega

/-- A part whose slot is new starts a job. -/
theorem leads (h : m.Scene q token isWatching w₀ seats ks (fun _ => .asked) (s :: todo))
    (hk : m.world.slots.index.lookup s.key = none) (hqueue : m.queue = ks.map (·.job)) :
    ∃ m' : Machine, m.visit (.poll s.part) = m' ∧
      m'.Scene q token isWatching w₀ seats
        (ks ++ [s.maker m.fibers.size m.world.slots.cells.size]) (fun _ => .asked) todo ∧
      m'.agenda = m.agenda ∧ m'.queue = m.queue ++ [m.fibers.size] ∧ m'.timers = m.timers ∧
      m'.isMainWoken = m.isMainWoken ∧ m'.world.dns = m.world.dns ∧
      m'.world.clock = m.world.clock := by
  have hsize := h.size_not_mem
  have his := h.ready s List.mem_cons_self
  have hnot : m.fibers.size ∉ m.queue := fun hmem =>
    hsize (List.mem_cons_of_mem _ (List.mem_append_right _ (hqueue ▸ hmem)))
  obtain ⟨next, hnext, hrun⟩ := runFiber_of_new (q := q) his hk hnot
  let w := m.world.withSlots (m.world.slots.extend s.key
    { value := none, isHeld := true, users := 2 })
  let j : Job := .createRecord m.world.slots.cells.size s.name s.value
  let started : Machine := (m.within w).started token j
  let m' : Machine := started.becomes w s.part (.waiting (.wait (.join m.fibers.size)) next false)
  have hpart : s ∈ seats := h.layout.todo_subset List.mem_cons_self
  have hne : s.part ≠ m.fibers.size := his.ne_size
  have hsame : ∀ f, f ≠ s.part → f ≠ m.fibers.size → m'.fibers[f]? = m.fibers[f]? :=
    fun f hf hf' => (getElem?_becomes.trans (if_neg (Ne.symm hf))).trans
      (getElem?_started (m := m.within w) hf')
  have hjob : m'.Is m.fibers.size m.fibers.size token
      (.ready (q.program (.createRecord m.world.slots.cells.size s.name s.value))) := by
    have hstarted := is_started (m := m.within w) h.live j
    rw [show (m.within w).program = q.program from h.program] at hstarted
    exact hstarted.congr (getElem?_becomes.trans (if_neg hne)) rfl
  have hothers : ∀ s' ∈ seats, s' ≠ s → m'.fibers[s'.part]? = m.fibers[s'.part]? := by
    intro s' hs' heq
    refine hsame _ (fun hpart' => heq (h.layout.eq_of_part hs' hpart hpart')) fun hpart' => ?_
    exact hsize (List.mem_cons_of_mem _ (List.mem_append_left _
      (hpart' ▸ List.mem_map_of_mem hs')))
  refine ⟨m', (visit_of_ready his).trans hrun, ?_, rfl, rfl, rfl, rfl, rfl, rfl⟩
  refine ⟨h.layout.leads hsize, h.slots.leads hk, congrArg (World.withSlots · _) h.world,
    h.program, ?_, h.live, h.ready_rest hothers rfl, fun s' hs' => ?_, fun k hk' => ?_,
    fun f fiber hf hpart' hjob' hfiber => ?_⟩
  · rw [hsame 0 (Ne.symm (h.layout.part_ne hpart)) fun h0 => hsize (h0 ▸ List.mem_cons_self)]
    exact h.main
  · by_cases hs : s' = s
    · subst hs
      exact .inr (.inr ⟨_, List.mem_append_right _ List.mem_cons_self, List.mem_cons_self⟩)
    obtain htodo | hserved | ⟨k, hk', hsk⟩ := h.placed s' hs'
    · exact .inl ((List.mem_cons.mp htodo).resolve_left hs)
    · exact .inr (.inl (hserved.congr (hothers s' hs' hs) rfl))
    · exact .inr (.inr ⟨k, List.mem_append_left _ hk', hsk⟩)
  · obtain hk' | hk' := List.mem_append.mp hk'
    · refine (h.stands k hk').congr (fun f hf => hsame f ?_ ?_) ?_ rfl
      · rintro rfl
        exact h.layout.seat_not_mem_fibers hk' hpart
          (h.layout.todo_not_mem_seats hk' List.mem_cons_self) hf
      · rintro rfl
        refine hsize (List.mem_cons_of_mem _ (List.mem_append.mpr ?_))
        obtain hjob | hseat := List.mem_cons.mp hf
        · exact .inr (hjob ▸ List.mem_map_of_mem hk')
        · obtain ⟨s', hs', heq⟩ := List.mem_map.mp hseat
          exact .inl (heq ▸ List.mem_map_of_mem (h.layout.subset k hk' s' hs'))
      · have hcell := (h.stands k hk').cell
        have hlt : k.cell < m.world.slots.cells.size := (Array.getElem?_eq_some_iff.mp hcell).choose
        exact (Array.getElem?_push ..).trans (if_neg (Nat.ne_of_lt hlt))
    · rw [List.mem_singleton.mp hk']
      exact ⟨Array.getElem?_push_size, ⟨next, hnext, (his.congr rfl rfl : (m.within w).Is ..).started j
        |>.becomes w _⟩, nofun, hjob⟩
  · have hjob'' : f ∉ ks.map (·.job) ∧ f ≠ m.fibers.size := by
      simpa [Seat.maker] using hjob'
    refine h.others f fiber hf hpart' hjob''.1 (hsame f (fun heq => hpart' ?_) hjob''.2 ▸ hfiber)
    exact heq ▸ List.mem_map_of_mem hpart

/-- A part whose slot another part holds gets in line. -/
theorem follows {before after : List Maker} (h : m.Scene q token isWatching w₀ seats
      (before ++ k :: after) (fun _ => .asked) (s :: todo))
    (hk : m.world.slots.index.lookup s.key = some k.cell) (hfollower : k.follower = none) :
    ∃ m' : Machine, m.visit (.poll s.part) = m' ∧
      m'.Scene q token isWatching w₀ seats (before ++ k.followedBy s :: after) (fun _ => .asked)
        todo ∧
      m'.agenda = m.agenda ∧ m'.queue = m.queue ∧ m'.timers = m.timers ∧
      m'.isMainWoken = m.isMainWoken ∧ m'.world.dns = m.world.dns ∧
      m'.world.clock = m.world.clock := by
  have hmem : k ∈ before ++ k :: after := List.mem_append_right _ List.mem_cons_self
  have his := h.ready s List.mem_cons_self
  have hstands := h.stands k hmem
  have hcell : m.world.slots.cells[k.cell]? =
      some { value := none, isHeld := true, users := 2 } := by
    rw [hstands.cell]
    simp [Maker.cellAt, hfollower]
  obtain ⟨next, hnext, hrun⟩ := runFiber_of_held (q := q) his hk hcell
  let w := m.world.withSlots (m.world.slots.set k.cell
    { value := none, isHeld := true, waiting := [s.part], users := 3 })
  let m' : Machine := m.becomes w s.part (.waiting (.wait (.slot k.cell)) next false)
  have hpart : s ∈ seats := h.layout.todo_subset List.mem_cons_self
  have hsame : ∀ f, f ≠ s.part → m'.fibers[f]? = m.fibers[f]? := fun f hf =>
    getElem?_becomes.trans (if_neg (Ne.symm hf))
  have hseat : ∀ s' ∈ seats, s' ≠ s → m'.fibers[s'.part]? = m.fibers[s'.part]? :=
    fun s' hs' hne => hsame _ fun heq => hne (h.layout.eq_of_part hs' hpart heq)
  have hfibers : ∀ k' ∈ before ++ k :: after, ∀ f ∈ k'.fibers, m'.fibers[f]? = m.fibers[f]? := by
    rintro k' hk' f hf
    refine hsame f fun heq => ?_
    subst heq
    exact h.layout.seat_not_mem_fibers hk' hpart
      (h.layout.todo_not_mem_seats hk' List.mem_cons_self) hf
  have hkept : ∀ k' ∈ before ++ k :: after, k' ≠ k → m'.Stands q token k' .asked := by
    intro k' hk' hne
    refine (h.stands k' hk').congr (hfibers k' hk') ?_ rfl
    exact MutexTable.cells_set_of_ne fun heq => hne (h.slots.eq_of_cell hk' hmem heq.symm)
  refine ⟨m', (visit_of_ready his).trans hrun, ?_, rfl, rfl, rfl, rfl, rfl, rfl⟩
  have hnodup : (before ++ k :: after).Nodup :=
    (List.nodup_append.mp (List.nodup_cons.mp h.layout.fibers).2).2.1.of_map
  refine ⟨h.layout.follows hfollower, h.slots.follows,
    congrArg (World.withSlots · _) h.world, h.program, ?_, h.live, h.ready_rest hseat rfl,
    fun s' hs' => ?_, fun k' hk' => ?_, fun f fiber hf hpart' hjob hfiber => ?_⟩
  · rw [hsame 0 (Ne.symm (h.layout.part_ne hpart))]
    exact h.main
  · by_cases hs : s' = s
    · refine .inr (.inr ⟨_, List.mem_append_right _ List.mem_cons_self, ?_⟩)
      rw [hs]
      exact List.mem_cons_of_mem _ (Option.mem_toList.mpr rfl)
    obtain htodo | hserved | ⟨k', hk', hsk⟩ := h.placed s' hs'
    · exact .inl ((List.mem_cons.mp htodo).resolve_left hs)
    · exact .inr (.inl (hserved.congr (hseat s' hs' hs) rfl))
    · refine .inr (.inr ?_)
      obtain hbefore | hk' := List.mem_append.mp hk'
      · exact ⟨k', List.mem_append_left _ hbefore, hsk⟩
      obtain rfl | hafter := List.mem_cons.mp hk'
      · rw [Maker.seats, hfollower] at hsk
        rw [List.mem_singleton.mp hsk]
        exact ⟨_, List.mem_append_right _ List.mem_cons_self, List.mem_cons_self⟩
      · exact ⟨k', List.mem_append_right _ (List.mem_cons_of_mem _ hafter), hsk⟩
  · obtain hbefore | hk' := List.mem_append.mp hk'
    · refine hkept k' (List.mem_append_left _ hbefore) ?_
      rintro rfl
      exact (List.nodup_append.mp hnodup).2.2 k' hbefore k' List.mem_cons_self rfl
    obtain rfl | hafter := List.mem_cons.mp hk'
    · refine ⟨MutexTable.cells_set hcell, ?_, fun s' hs' => ?_, ?_⟩
      · exact Awaits.congr hstands.lead (hfibers k hmem _
          (List.mem_cons_of_mem _ List.mem_cons_self)) rfl
      · obtain rfl : s = s' := Option.some.inj hs'
        exact ⟨next, hnext, his.becomes w _⟩
      · exact Is.congr hstands.job (hfibers k hmem _ List.mem_cons_self) rfl
    · refine hkept k' (List.mem_append_right _ (List.mem_cons_of_mem k hafter)) ?_
      rintro rfl
      exact (List.nodup_cons.mp (List.nodup_append.mp hnodup).2.1).1 hafter
  · refine h.others f fiber hf hpart' ?_ (hsame f (fun heq => hpart' ?_) ▸ hfiber)
    · simpa [Maker.followedBy] using hjob
    · exact heq ▸ List.mem_map_of_mem hpart

/-- A part whose record is there has it at once. -/
theorem finds (h : m.Scene q token isWatching w₀ seats ks (fun _ => .asked) (s :: todo))
    (hk : m.world.slots.index.lookup s.key = some c)
    (hc : m.world.slots.cells[c]? = some { value := some id }) :
    ∃ m' : Machine, m.visit (.poll s.part) = m' ∧
      m'.Scene q token isWatching w₀ seats ks (fun _ => .asked) todo ∧
      m'.agenda = m.agenda ∧ m'.queue = m.queue ∧ m'.timers = m.timers ∧
      m'.isMainWoken = m.isMainWoken ∧ m'.world = m.world := by
  have his := h.ready s List.mem_cons_self
  have hpart : s ∈ seats := h.layout.todo_subset List.mem_cons_self
  have hrun := h.runFiber_part hpart his (eval?_of_found (q := q) hk hc)
  let m' : Machine := m.becomes m.world s.part (.finished (s.given id))
  have hsame : ∀ f, f ≠ s.part → m'.fibers[f]? = m.fibers[f]? := fun f hf =>
    getElem?_becomes.trans (if_neg (Ne.symm hf))
  have hseat : ∀ s' ∈ seats, s' ≠ s → m'.fibers[s'.part]? = m.fibers[s'.part]? :=
    fun s' hs' hne => hsame _ fun heq => hne (h.layout.eq_of_part hs' hpart heq)
  refine ⟨m', (visit_of_ready his).trans hrun, ?_, rfl, rfl, rfl, rfl, rfl⟩
  refine ⟨⟨h.layout.fibers, h.layout.subset, fun s' hs' => h.layout.todo_subset
    (List.mem_cons_of_mem s hs'), (List.nodup_cons.mp h.layout.apart).2⟩, h.slots, h.world,
    h.program, ?_, h.live, h.ready_rest hseat rfl, fun s' hs' => ?_, fun k hk' => ?_,
    fun f fiber hf hpart' hjob hfiber => ?_⟩
  · rw [hsame 0 (Ne.symm (h.layout.part_ne hpart))]
    exact h.main
  · by_cases hs : s' = s
    · rw [hs]
      exact .inr (.inl ⟨id, his.becomes _ _⟩)
    obtain htodo | hserved | hmade := h.placed s' hs'
    · exact .inl ((List.mem_cons.mp htodo).resolve_left hs)
    · exact .inr (.inl (hserved.congr (hseat s' hs' hs) rfl))
    · exact .inr (.inr hmade)
  · refine (h.stands k hk').congr (fun f hf => hsame f fun heq => ?_) rfl rfl
    exact h.layout.seat_not_mem_fibers hk' hpart
      (h.layout.todo_not_mem_seats hk' List.mem_cons_self) (heq ▸ hf)
  · refine h.others f fiber hf hpart' hjob (hsame f (fun heq => hpart' ?_) ▸ hfiber)
    exact heq ▸ List.mem_map_of_mem hpart

/-- The next part comes to its slot. -/
theorem arrives (h : m.Scene q token isWatching w₀ seats ks (fun _ => .asked) (s :: todo))
    (hqueue : m.queue = ks.map (·.job))
    (hfound : ∀ k c, w₀.slots.index.lookup k = some c →
      ∃ id, w₀.slots.cells[c]? = some { value := some id })
    (hkeys : ∀ k ∈ ks, ∀ s ∈ k.follower, s.key = k.lead.key)
    (hpairs : ∀ k, (seats.filter (·.key = k)).length ≤ 2) :
    ∃ (m' : Machine) (ks' : List Maker), m.visit (.poll s.part) = m' ∧
      m'.Scene q token isWatching w₀ seats ks' (fun _ => .asked) todo ∧
      (∀ k ∈ ks', ∀ s ∈ k.follower, s.key = k.lead.key) ∧ ks'.length ≤ ks.length + 1 ∧
      m'.agenda = m.agenda ∧ m'.queue = ks'.map (·.job) ∧ m'.timers = m.timers ∧
      m'.isMainWoken = m.isMainWoken ∧ m'.world.dns = m.world.dns ∧
      m'.world.clock = m.world.clock := by
  cases hk : m.world.slots.index.lookup s.key with
  | none =>
    obtain ⟨m', hvisit, hscene, hagenda, hqueue', hrest⟩ := h.leads hk hqueue
    refine ⟨m', _, hvisit, hscene, fun k hk s hs => ?_, by simp, hagenda, ?_, hrest⟩
    · obtain hk | hk := List.mem_append.mp hk
      · exact hkeys k hk s hs
      · rw [List.mem_singleton.mp hk] at hs
        cases hs
    · rw [hqueue', hqueue, List.map_append]
      rfl
  | some c =>
    have hindex := hk
    rw [h.slots.index, List.lookup_append] at hindex
    cases hold : w₀.slots.index.lookup s.key with
    | some c' =>
      rw [hold] at hindex
      obtain rfl : c' = c := Option.some.inj hindex
      obtain ⟨id, hid⟩ := hfound _ _ hold
      have hlt := (Array.getElem?_eq_some_iff.mp hid).choose
      obtain ⟨m', hvisit, hscene, hagenda, hqueue', htimers, hwoken, hworld⟩ :=
        h.finds hk ((h.slots.old _ hlt).trans hid)
      exact ⟨m', ks, hvisit, hscene, hkeys, Nat.le_succ _, hagenda, hqueue'.trans hqueue, htimers,
        hwoken, by rw [hworld], by rw [hworld]⟩
    | none =>
      rw [hold, Option.none_or] at hindex
      obtain ⟨before, after, hsplit, -⟩ := List.lookup_eq_some_iff.mp hindex
      obtain ⟨k, hmem, heq⟩ := List.mem_map.mp
        (hsplit ▸ List.mem_append_right before (List.mem_cons_self (a := (s.key, c)) (l := after)))
      obtain ⟨hkey, rfl⟩ := Prod.mk.inj heq
      have hfollower := h.follower_eq_none hmem hkey (hkeys k hmem) (hpairs s.key)
      obtain ⟨before, after, rfl⟩ := List.append_of_mem hmem
      obtain ⟨m', hvisit, hscene, hagenda, hqueue', hrest⟩ := h.follows hk hfollower
      refine ⟨m', _, hvisit, hscene, fun k' hk' s' hs' => ?_, by simp, hagenda, ?_, hrest⟩
      · obtain hbefore | hk' := List.mem_append.mp hk'
        · exact hkeys k' (List.mem_append_left _ hbefore) s' hs'
        · obtain rfl | hafter := List.mem_cons.mp hk'
          · obtain rfl : s = s' := Option.some.inj hs'
            exact hkey.symm
          · exact hkeys k' (List.mem_append_right _ (List.mem_cons_of_mem _ hafter)) s' hs'
      · rw [hqueue', hqueue]
        simp [Maker.followedBy]

/-- All parts come to their slots. -/
theorem all_arrive (h : m.Scene q token isWatching w₀ seats [] (fun _ => .asked) seats)
    (hagenda : m.agenda = seats.map (fun s => .poll s.part) ++ [.collect 0]) (hqueue : m.queue = [])
    (htimers : m.timers = []) (hunwoken : m.isMainWoken = false)
    (hfound : ∀ k c, w₀.slots.index.lookup k = some c →
      ∃ id, w₀.slots.cells[c]? = some { value := some id })
    (hpairs : ∀ k, (seats.filter (·.key = k)).length ≤ 2) :
    ∃ (m' : Machine) (ks : List Maker), Leads seats.length m m' ∧
      m'.Scene q token isWatching w₀ seats ks (fun _ => .asked) [] ∧ ks.length ≤ seats.length ∧
      m'.agenda = [.collect 0] ∧ m'.queue = ks.map (·.job) ∧ m'.timers = [] ∧
      m'.isMainWoken = false ∧ m'.world.dns = m.world.dns ∧ m'.world.clock = m.world.clock := by
  let Inv (done todo : List Seat) (m' : Machine) : Prop := ∃ ks : List Maker,
    m'.Scene q token isWatching w₀ seats ks (fun _ => .asked) todo ∧
    (∀ k ∈ ks, ∀ s ∈ k.follower, s.key = k.lead.key) ∧ ks.length ≤ done.length ∧
    m'.agenda = todo.map (fun s => .poll s.part) ++ [.collect 0] ∧ m'.queue = ks.map (·.job) ∧
    m'.timers = [] ∧ m'.isMainWoken = false ∧ m'.world.dns = m.world.dns ∧
    m'.world.clock = m.world.clock
  obtain ⟨m', hleads, ks, hscene, -, hlength, hagenda', hrest⟩ :=
    Leads.each (n := 1) (P := Inv) (fun done s todo m' hm' => by
      obtain ⟨ks, hscene, hkeys, hlength, hagenda, hqueue, htimers, hunwoken, hdns, hclock⟩ := hm'
      let polled : Machine := { m' with agenda := todo.map (fun s => .poll s.part) ++ [.collect 0] }
      have hpolled : polled.Scene q token isWatching w₀ seats ks (fun _ => .asked) (s :: todo) :=
        hscene.congr rfl rfl rfl rfl
      obtain ⟨m'', ks', hvisit, hscene', hkeys', hlength', hagenda', hqueue', htimers', hunwoken',
        hdns', hclock'⟩ := hpolled.arrives hqueue hfound hkeys hpairs
      refine ⟨m'', hvisit ▸ leads_of_agenda hscene.outcome?_main hagenda, ks', hscene', hkeys', ?_,
        hagenda', hqueue', htimers'.trans htimers, hunwoken'.trans hunwoken, hdns'.trans hdns,
        hclock'.trans hclock⟩
      rw [List.length_append, List.length_singleton]
      omega)
      (show Inv [] seats m from ⟨[], h, nofun, Nat.le_refl _, hagenda, hqueue, htimers, hunwoken,
        rfl, rfl⟩)
  rw [Nat.one_mul] at hleads
  exact ⟨m', ks, hleads, hscene, hlength, hagenda', hrest⟩

end Machine.Scene

variable {m m' : Machine} {q : RenewalPractice} {token : Nat} {isWatching : Bool} {w₀ : World}
variable {seats todo done : List Seat} {ks : List Maker} {stage stage' : Maker → Stage} {k : Maker}
variable {s : Seat} {d d' : MemoryDns} {id : String}

namespace Machine.Scene

theorem congr_stage (h : m.Scene q token isWatching w₀ seats ks stage todo)
    (hstage : ∀ k ∈ ks, stage' k = stage k) : m.Scene q token isWatching w₀ seats ks stage' todo :=
  { h with stands := fun k hk => hstage k hk ▸ h.stands k hk }

/-! ### The jobs have their turns -/

/-- A job that does not have to wait for the service makes its record. -/
theorem makes_at_once (h : m.Scene q token isWatching w₀ seats ks stage todo) (hk : k ∈ ks)
    (hstage : stage k = .asked) (hdns : m.world.dns = .memory d) (hd : d.IsSteady)
    (hdelay : ∀ time ∈ d.createDelay,
      Duration.ceilMillis (m.world.clock + time) ≤ m.world.clock) :
    ∃ (m' : Machine) (id : String) (d' : MemoryDns), m.visit (.poll k.job) = m' ∧
      m'.Scene q token isWatching w₀ seats ks
        (Function.update stage k (.made id true k.follower.isSome)) todo ∧
      m'.agenda = m.agenda ∧ m'.queue = m.queue ∧ m'.timers = m.timers ∧ m'.isMainWoken = true ∧
      m'.world.dns = .memory d' ∧ d.Adds [k.lead.entry id] d' ∧
      m'.world.clock = m.world.clock := by
  have hjob := (h.stands k hk).job
  rw [hstage] at hjob
  obtain ⟨d', hcreate, hadds⟩ := hd.create k.lead.name k.lead.value
  cases hd : d.createDelay with
  | none =>
    rw [hd] at hcreate
    obtain ⟨m', hrun, hscene, hagenda, hqueue, htimers, hwoken, hdns', hclock⟩ :=
      (h.within (.memory d') m.world.clock).hands_in (MemoryDns.recordId (d.made + 1)) hk
        (.inl hstage)
    refine ⟨m', _, d', ?_, hscene, hagenda, hqueue, htimers, hwoken, hdns', hadds, hclock⟩
    exact (visit_of_ready hjob).trans ((runFiber_createRecord hjob hdns hcreate).trans hrun)
  | some time =>
    rw [hd] at hcreate
    obtain ⟨next, hnext, hcall⟩ := runFiber_createRecord_delayed (q := q) (c := k.cell) hjob hdns
      hcreate
    obtain ⟨m', hrun, hscene, hagenda, hqueue, htimers, hwoken, hdns', hclock⟩ :=
      (h.within (.memory d'.settle) m.world.clock).hands_in (MemoryDns.recordId (d.made + 1))
        hk (.inl hstage)
    refine ⟨m', _, d'.settle, ?_, hscene, hagenda, hqueue, htimers, hwoken, hdns', hadds.settle,
      hclock⟩
    let called : Machine := m.within { m.world with dns := .memory d' }
    have hgoes : called.isInterrupted k.job = false :=
      (hjob.congr rfl rfl : called.Is k.job k.job token _).not_isInterrupted
    have hsleep := perform_sleep_of_le (m := called) hgoes (hdelay time hd)
    refine (visit_of_ready hjob).trans (hcall.trans ((runFiber_of_perform hsleep).trans ?_))
    rw [hnext]
    refine (runFiber_of_reply? hgoes (World.reply?_settle (d := d') rfl)).trans ?_
    exact hrun

/-- A job that has to wait for the service sleeps. -/
theorem falls_asleep {time : Duration} (h : m.Scene q token isWatching w₀ seats ks stage todo)
    (hk : k ∈ ks) (hstage : stage k = .asked) (hdns : m.world.dns = .memory d) (hd : d.IsSteady)
    (hdelay : d.createDelay = some time)
    (hends : m.world.clock < Duration.ceilMillis (m.world.clock + time)) :
    ∃ (m' : Machine) (id : String) (d' : MemoryDns), m.visit (.poll k.job) = m' ∧
      m'.Scene q token isWatching w₀ seats ks (Function.update stage k (.asleep id)) todo ∧
      m'.agenda = m.agenda ∧ m'.queue = m.queue ∧
      m'.timers = m.timers ++
        [{ ends := Duration.ceilMillis (m.world.clock + time), fiber := k.job }] ∧
      m'.isMainWoken = m.isMainWoken ∧ m'.world.dns = .memory d' ∧
      d.Adds [k.lead.entry id] d' ∧ m'.world.clock = m.world.clock := by
  have hstands := h.stands k hk
  rw [hstage] at hstands
  have hjob : m.Is k.job k.job token _ := hstands.job
  obtain ⟨d', hcreate, hadds⟩ := hd.create k.lead.name k.lead.value
  rw [hdelay] at hcreate
  obtain ⟨next, hnext, hcall⟩ := runFiber_createRecord_delayed (q := q) (c := k.cell) hjob hdns
    hcreate
  let called : Machine := m.within { m.world with dns := .memory d' }
  have hcalled : called.Is k.job k.job token _ := hjob.congr rfl rfl
  have hsleep := perform_sleep_of_lt (m := called) hcalled.not_isInterrupted hends
  refine ⟨_, MemoryDns.recordId (d.made + 1), d',
    (visit_of_ready hjob).trans (hcall.trans (runFiber_of_waits hsleep)), ?_, rfl, rfl, rfl, rfl,
    rfl, hadds, rfl⟩
  have hsame : ∀ f, f ≠ k.job → (called.becomes called.world k.job
      (.waiting (.wait (.sleep time)) next false)).fibers[f]? = m.fibers[f]? :=
    fun f hf => getElem?_becomes.trans (if_neg (Ne.symm hf))
  refine h.update hk (c := k.cellAt .asked) (d := .memory d')
    (fun f hf => hsame f fun heq => hf (heq ▸ List.mem_cons_self)) rfl rfl ?_ ?_
  · rw [MutexTable.set_of_cell hstands.cell]
    rfl
  · refine ⟨hstands.cell, ?_, fun s hs => ?_, ⟨time, next, hnext, ?_⟩⟩
    · exact Awaits.congr hstands.lead (hsame _ (h.layout.part_ne_job (h.layout.lead_mem hk) hk)) rfl
    · exact Lines.congr (hstands.follower s hs)
        (hsame _ (h.layout.part_ne_job (h.layout.follower_mem hk hs) hk)) rfl
    · exact (hcalled.becomes called.world _).congr rfl rfl

/-- A job that has slept hands its record in. -/
theorem wakes_up (h : m.Scene q token isWatching w₀ seats ks stage todo) (hk : k ∈ ks)
    (hstage : stage k = .awake id) (hdns : m.world.dns = .memory d) :
    ∃ m' : Machine, m.visit (.poll k.job) = m' ∧
      m'.Scene q token isWatching w₀ seats ks
        (Function.update stage k (.made id true k.follower.isSome)) todo ∧
      m'.agenda = m.agenda ∧ m'.queue = m.queue ∧ m'.timers = m.timers ∧ m'.isMainWoken = true ∧
      m'.world.dns = .memory d.settle ∧ m'.world.clock = m.world.clock := by
  have hjob := (h.stands k hk).job
  rw [hstage] at hjob
  obtain ⟨time, next, hnext, his⟩ := hjob
  obtain ⟨fiber, hfiber, -, -, hstate⟩ := his.here
  obtain ⟨m', hrun, hscene, hrest⟩ :=
    (h.within (.memory d.settle) m.world.clock).hands_in id hk (.inr hstage)
  refine ⟨m', (visit_of_sleep hfiber his.not_isInterrupted hstate).trans ?_, hscene, hrest⟩
  rw [hnext]
  refine (runFiber_of_reply? his.not_isInterrupted (World.reply?_settle hdns)).trans ?_
  exact hrun

end Machine.Scene

/-! ### All jobs -/

theorem entries_update {ids : Maker → String} {done : List Maker} (hnot : k ∉ done) :
    (done ++ [k]).map (fun k' => k'.lead.entry (Function.update ids k id k')) =
      done.map (fun k' => k'.lead.entry (ids k')) ++ [k.lead.entry id] := by
  rw [List.map_append, List.map_singleton, Function.update_self]
  congr 1
  refine List.map_congr_left fun k' hk' => ?_
  rw [Function.update_of_ne (ne_of_mem_of_not_mem hk' hnot)]

/-- The jobs of makers have their turns, which take each of them from one stage to another. -/
structure Machine.Turns (m : Machine) (q : RenewalPractice) (token : Nat) (isWatching : Bool)
    (w₀ : World) (seats : List Seat) (ks : List Maker) (before after : String → Maker → Stage)
    (ids : Maker → String) (done todo : List Maker) : Prop where
  scene : m.Scene q token isWatching w₀ seats ks
    (fun k => if k ∈ done then after (ids k) k else before (ids k) k) []
  agenda : m.agenda = []
  queue : m.queue = todo.map (·.job)
  all : done ++ todo = ks

namespace Machine.Turns

variable {before after : String → Maker → Stage} {ids : Maker → String} {done todo : List Maker}

theorem nodup (h : m.Turns q token isWatching w₀ seats ks before after ids done todo) : ks.Nodup :=
  (List.nodup_append.mp (List.nodup_cons.mp h.scene.layout.fibers).2).2.1.of_map

/-- The next job has its turn. -/
theorem turn (h : m.Turns q token isWatching w₀ seats ks before after ids done (k :: todo)) :
    let m₁ : Machine := { m with queue := todo.map (·.job) }
    Leads 2 m (m₁.visit (.poll k.job)) ∧ k ∈ ks ∧ k ∉ done ∧
      ∃ stage, m₁.Scene q token isWatching w₀ seats ks stage [] ∧ stage k = before (ids k) k ∧
        ∀ (m' : Machine) (id : String), m'.Scene q token isWatching w₀ seats ks
          (Function.update stage k (after id k)) [] → m'.agenda = m₁.agenda →
          m'.queue = m₁.queue → m'.Turns q token isWatching w₀ seats ks before after
            (Function.update ids k id) (done ++ [k]) todo := by
  have hk : k ∈ ks := h.all ▸ List.mem_append_right _ List.mem_cons_self
  have hnot : k ∉ done := fun hmem =>
    (List.nodup_append.mp (h.all ▸ h.nodup)).2.2 k hmem k List.mem_cons_self rfl
  refine ⟨leads_of_queue h.scene.outcome?_main h.agenda h.queue, hk, hnot, _,
    h.scene.congr rfl rfl rfl rfl, if_neg hnot, fun m' id hscene hagenda hqueue => ?_⟩
  refine ⟨hscene.congr_stage fun k' _ => ?_, hagenda.trans h.agenda, hqueue, ?_⟩
  · by_cases heq : k' = k
    · subst heq
      simp
    · simp [heq]
  · rw [← h.all, List.append_assoc]
    rfl

end Machine.Turns

namespace Machine.Scene

/-- The records of all makers are made, if none of their jobs has to wait for the service. -/
theorem all_make_at_once (h : m.Scene q token isWatching w₀ seats ks (fun _ => .asked) [])
    (hagenda : m.agenda = []) (hqueue : m.queue = ks.map (·.job)) (hdns : m.world.dns = .memory d)
    (hd : d.IsSteady) (hdelay : ∀ time ∈ d.createDelay,
      Duration.ceilMillis (m.world.clock + time) ≤ m.world.clock) :
    ∃ (m' : Machine) (ids : Maker → String) (d' : MemoryDns), Leads (2 * ks.length) m m' ∧
      m'.Scene q token isWatching w₀ seats ks
        (fun k => .made (ids k) true k.follower.isSome) [] ∧
      m'.agenda = [] ∧ m'.queue = [] ∧ m'.timers = m.timers ∧
      (ks ≠ [] → m'.isMainWoken = true) ∧ m'.world.dns = .memory d' ∧
      d.Adds (ks.map fun k => k.lead.entry (ids k)) d' ∧ m'.world.clock = m.world.clock := by
  let Inv (done todo : List Maker) (m' : Machine) : Prop := ∃ (ids : Maker → String) (d' : MemoryDns),
    m'.Turns q token isWatching w₀ seats ks (fun _ _ => .asked)
      (fun id k => .made id true k.follower.isSome) ids done todo ∧ m'.timers = m.timers ∧
    (done ≠ [] → m'.isMainWoken = true) ∧ m'.world.dns = .memory d' ∧
    d.Adds (done.map fun k => k.lead.entry (ids k)) d' ∧ m'.world.clock = m.world.clock
  have hstart : Inv [] ks m := ⟨fun _ => "", d, ⟨h.congr_stage fun _ _ => by simp, hagenda, hqueue,
    rfl⟩, rfl, fun h => absurd rfl h, hdns, .refl, rfl⟩
  obtain ⟨m', hleads, ids, d', hturns, htimers, hwoken, hdns', hadds, hclock⟩ :=
    Leads.each (n := 2) (fun done k todo m₁ hm₁ => by
      obtain ⟨ids, d₁, hturns, htimers, -, hdns₁, hadds, hclock⟩ := hm₁
      obtain ⟨hleads, hk, hnot, stage, hscene, hstage, hnext⟩ := hturns.turn
      obtain ⟨m', id, d', hvisit, hscene', hagenda, hqueue, htimers', hwoken, hdns', hadds',
        hclock'⟩ := hscene.makes_at_once hk hstage hdns₁ (hadds.steady hd)
          (fun time htime => by
            rw [hadds.createDelay] at htime
            exact (congrArg (fun c => Duration.ceilMillis (c + time) ≤ c) hclock).mpr
              (hdelay time htime))
      refine ⟨m', hvisit ▸ hleads, Function.update ids k id, d', hnext m' id hscene' hagenda hqueue,
        htimers'.trans htimers, fun _ => hwoken, hdns', ?_, hclock'.trans hclock⟩
      rw [entries_update hnot]
      exact hadds.trans hadds') hstart
  refine ⟨m', ids, d', hleads, hturns.scene.congr_stage fun k hk => ?_, hturns.agenda,
    hturns.queue, htimers, hwoken, hdns', hadds, hclock⟩
  exact (if_pos hk).symm

/-- The jobs of all makers fall asleep, if they have to wait for the service. -/
theorem all_fall_asleep {time : Duration}
    (h : m.Scene q token isWatching w₀ seats ks (fun _ => .asked) [])
    (hagenda : m.agenda = []) (hqueue : m.queue = ks.map (·.job)) (htimers : m.timers = [])
    (hunwoken : m.isMainWoken = false) (hdns : m.world.dns = .memory d) (hd : d.IsSteady)
    (hdelay : d.createDelay = some time)
    (hends : m.world.clock < Duration.ceilMillis (m.world.clock + time)) :
    ∃ (m' : Machine) (ids : Maker → String) (d' : MemoryDns), Leads (2 * ks.length) m m' ∧
      m'.Scene q token isWatching w₀ seats ks (fun k => .asleep (ids k)) [] ∧
      m'.agenda = [] ∧ m'.queue = [] ∧
      m'.timers = (ks.map (·.job)).map
        (fun f => { ends := Duration.ceilMillis (m.world.clock + time), fiber := f }) ∧
      m'.isMainWoken = false ∧ m'.world.dns = .memory d' ∧
      d.Adds (ks.map fun k => k.lead.entry (ids k)) d' ∧ m'.world.clock = m.world.clock := by
  let Inv (done todo : List Maker) (m' : Machine) : Prop := ∃ (ids : Maker → String) (d' : MemoryDns),
    m'.Turns q token isWatching w₀ seats ks (fun _ _ => .asked) (fun id _ => .asleep id) ids done
      todo ∧
    m'.timers = (done.map (·.job)).map
      (fun f => { ends := Duration.ceilMillis (m.world.clock + time), fiber := f }) ∧
    m'.isMainWoken = false ∧ m'.world.dns = .memory d' ∧
    d.Adds (done.map fun k => k.lead.entry (ids k)) d' ∧ m'.world.clock = m.world.clock
  have hstart : Inv [] ks m := ⟨fun _ => "", d, ⟨h.congr_stage fun _ _ => by simp, hagenda, hqueue,
    rfl⟩, htimers, hunwoken, hdns, .refl, rfl⟩
  obtain ⟨m', hleads, ids, d', hturns, htimers, hwoken, hdns', hadds, hclock⟩ :=
    Leads.each (n := 2) (fun done k todo m₁ hm₁ => by
      obtain ⟨ids, d₁, hturns, htimers, hunwoken, hdns₁, hadds, hclock⟩ := hm₁
      obtain ⟨hleads, hk, hnot, stage, hscene, hstage, hnext⟩ := hturns.turn
      obtain ⟨m', id, d', hvisit, hscene', hagenda, hqueue, htimers', hwoken, hdns', hadds',
        hclock'⟩ := hscene.falls_asleep hk hstage hdns₁ (hadds.steady hd)
          (hadds.createDelay.trans hdelay)
          ((congrArg (fun c => c < Duration.ceilMillis (c + time)) hclock).mpr hends)
      refine ⟨m', hvisit ▸ hleads, Function.update ids k id, d', hnext m' id hscene' hagenda hqueue,
        ?_, hwoken.trans hunwoken, hdns', ?_, hclock'.trans hclock⟩
      · rw [htimers', List.map_append, List.map_append]
        change m₁.timers ++ [{ ends := Duration.ceilMillis (m₁.world.clock + time), fiber := k.job }] = _
        rw [htimers, hclock]
        rfl
      · rw [entries_update hnot]
        exact hadds.trans hadds') hstart
  refine ⟨m', ids, d', hleads, hturns.scene.congr_stage fun k hk => ?_, hturns.agenda,
    hturns.queue, htimers, hwoken, hdns', hadds, hclock⟩
  exact (if_pos hk).symm

/-- The jobs of all makers are woken together. -/
theorem all_are_woken {ids : Maker → String} {ends : Duration}
    (h : m.Scene q token isWatching w₀ seats ks (fun k => .asleep (ids k)) []) (hne : ks ≠ [])
    (hagenda : m.agenda = []) (hqueue : m.queue = [])
    (htimers : m.timers = (ks.map (·.job)).map fun f => { ends, fiber := f })
    (hunwoken : m.isMainWoken = false) :
    ∃ m' : Machine, Leads 1 m m' ∧
      m'.Scene q token isWatching w₀ seats ks (fun k => .awake (ids k)) [] ∧
      m'.agenda = [] ∧ m'.queue = ks.map (·.job) ∧ m'.timers = [] ∧ m'.isMainWoken = false ∧
      m'.world.dns = m.world.dns ∧ m'.world.clock = max m.world.clock ends := by
  let later : Machine := { m with timers := [], world.clock := max m.world.clock ends }
  have hlater : later.Scene q token isWatching w₀ seats ks (fun k => .asleep (ids k)) [] :=
    (h.within m.world.dns (max m.world.clock ends)).congr rfl rfl rfl rfl
  have hjobs : (ks.map (·.job)).Nodup :=
    (List.nodup_append.mp (List.nodup_cons.mp h.layout.fibers).2).2.1
  obtain ⟨fibers, hfold, hfibers⟩ := foldl_endWait (m := later) (l := ks.map (·.job))
    (fun f hf => by
      obtain ⟨k, hk, rfl⟩ := List.mem_map.mp hf
      obtain ⟨state, ⟨fiber, hfiber, htask, -⟩, -⟩ := (hlater.stands k hk).job.is
      exact ⟨h.layout.job_ne hk, by rw [show later.queue = [] from hqueue]; exact List.not_mem_nil,
        fiber, hfiber, htask⟩) hjobs
  let woken : Machine := { later with fibers, queue := later.queue ++ ks.map (·.job) }
  have hsame : ∀ f ∉ ks.map (·.job), woken.fibers[f]? = later.fibers[f]? := fun f hf =>
    (hfibers f).trans (if_neg hf)
  have hpart : ∀ s ∈ seats, s.part ∉ ks.map (·.job) := by
    intro s hs hmem
    obtain ⟨k, hk, heq⟩ := List.mem_map.mp hmem
    exact h.layout.part_ne_job hs hk heq.symm
  refine ⟨woken, leads_of_step h.outcome?_main ?_, ?_, hagenda, ?_, rfl, hunwoken, rfl, rfl⟩
  · rw [step, hagenda, hqueue]
    simp only [hunwoken, Bool.false_eq_true, if_false]
    rw [tick?_of_same (fun hnil => hne (List.map_eq_nil_iff.mp hnil)) htimers, hfold]
    exact congrArg some (if_neg (by rw [show later.isMainWoken = false from hunwoken]; decide))
  · refine ⟨hlater.layout, hlater.slots, hlater.world, hlater.program, ?_, hlater.live,
      fun _ hs => absurd hs List.not_mem_nil, fun s hs => ?_, fun k hk => ?_,
      fun f fiber hf hpart hjob hfiber => ?_⟩
    · have hmain : 0 ∉ ks.map (·.job) := by
        intro hmem
        obtain ⟨k, hk, heq⟩ := List.mem_map.mp hmem
        exact h.layout.job_ne hk heq
      rw [hsame 0 hmain]
      exact hlater.main
    · exact (hlater.placed s hs).imp_right (.imp_left (·.congr (hsame _ (hpart s hs)) rfl))
    · have hstands := hlater.stands k hk
      obtain ⟨time, next, hnext, his⟩ := hstands.job
      refine ⟨hstands.cell, Awaits.congr hstands.lead (hsame _ (hpart _ (h.layout.lead_mem hk))) rfl,
        fun s hs => Lines.congr (hstands.follower s hs)
          (hsame _ (hpart _ (h.layout.follower_mem hk hs))) rfl, ⟨time, next, hnext, ?_⟩⟩
      refine his.roused.congr ?_ rfl
      rw [getElem?_modify, if_pos rfl]
      exact (hfibers k.job).trans (if_pos (List.mem_map_of_mem hk))
    · exact hlater.others f fiber hf hpart hjob (hsame f hjob ▸ hfiber)
  · change m.queue ++ _ = _
    rw [hqueue]
    rfl

/-- The jobs of all makers hand their records in when they have slept. -/
theorem all_wake_up {ids : Maker → String}
    (h : m.Scene q token isWatching w₀ seats ks (fun k => .awake (ids k)) [])
    (hagenda : m.agenda = []) (hqueue : m.queue = ks.map (·.job)) (hdns : m.world.dns = .memory d) :
    ∃ (m' : Machine) (d' : MemoryDns), Leads (2 * ks.length) m m' ∧
      m'.Scene q token isWatching w₀ seats ks
        (fun k => .made (ids k) true k.follower.isSome) [] ∧
      m'.agenda = [] ∧ m'.queue = [] ∧ m'.timers = m.timers ∧
      (ks ≠ [] → m'.isMainWoken = true) ∧ m'.world.dns = .memory d' ∧ d.Adds [] d' ∧
      m'.world.clock = m.world.clock := by
  let Inv (done todo : List Maker) (m' : Machine) : Prop := ∃ d' : MemoryDns,
    m'.Turns q token isWatching w₀ seats ks (fun id _ => .awake id)
      (fun id k => .made id true k.follower.isSome) ids done todo ∧ m'.timers = m.timers ∧
    (done ≠ [] → m'.isMainWoken = true) ∧ m'.world.dns = .memory d' ∧ d.Adds [] d' ∧
    m'.world.clock = m.world.clock
  have hstart : Inv [] ks m := ⟨d, ⟨h.congr_stage fun _ _ => by simp, hagenda, hqueue, rfl⟩, rfl,
    fun h => absurd rfl h, hdns, .refl, rfl⟩
  obtain ⟨m', hleads, d', hturns, htimers, hwoken, hdns', hadds, hclock⟩ :=
    Leads.each (n := 2) (fun done k todo m₁ hm₁ => by
      obtain ⟨d₁, hturns, htimers, -, hdns₁, hadds, hclock⟩ := hm₁
      obtain ⟨hleads, hk, -, stage, hscene, hstage, hnext⟩ := hturns.turn
      obtain ⟨m', hvisit, hscene', hagenda, hqueue, htimers', hwoken, hdns', hclock'⟩ :=
        hscene.wakes_up hk hstage hdns₁
      have hturns' := hnext m' _ hscene' hagenda hqueue
      rw [Function.update_eq_self] at hturns'
      exact ⟨m', hvisit ▸ hleads, d₁.settle, hturns', htimers'.trans htimers, fun _ => hwoken, hdns',
        hadds.settle, hclock'.trans hclock⟩) hstart
  refine ⟨m', d', hleads, hturns.scene.congr_stage fun k hk => ?_, hturns.agenda,
    hturns.queue, htimers, hwoken, hdns', hadds, hclock⟩
  exact (if_pos hk).symm

/-- The records of all makers are made. -/
theorem all_make (h : m.Scene q token isWatching w₀ seats ks (fun _ => .asked) [])
    (hagenda : m.agenda = []) (hqueue : m.queue = ks.map (·.job)) (htimers : m.timers = [])
    (hunwoken : m.isMainWoken = false) (hdns : m.world.dns = .memory d) (hd : d.IsSteady) :
    ∃ (n : Nat) (m' : Machine) (ids : Maker → String) (d' : MemoryDns), n ≤ 4 * ks.length + 1 ∧
      Leads n m m' ∧ m'.Scene q token isWatching w₀ seats ks
        (fun k => .made (ids k) true k.follower.isSome) [] ∧
      m'.agenda = [] ∧ m'.queue = [] ∧ m'.timers = [] ∧ (ks ≠ [] → m'.isMainWoken = true) ∧
      m'.world.dns = .memory d' ∧ d.Adds (ks.map fun k => k.lead.entry (ids k)) d' ∧
      (m.world.clock.IsWhole → m'.world.clock.IsWhole) := by
  by_cases hdelay : ∀ time ∈ d.createDelay,
      Duration.ceilMillis (m.world.clock + time) ≤ m.world.clock
  · obtain ⟨m', ids, d', hleads, hscene, hagenda', hqueue', htimers', hwoken, hdns', hadds,
      hclock⟩ := h.all_make_at_once hagenda hqueue hdns hd hdelay
    exact ⟨_, m', ids, d', by omega, hleads, hscene, hagenda', hqueue', htimers'.trans htimers,
      hwoken, hdns', hadds, fun hwhole => hclock ▸ hwhole⟩
  · simp only [not_forall, Nat.not_le] at hdelay
    obtain ⟨time, htime, hends⟩ := hdelay
    obtain ⟨m₁, ids, d₁, hleads₁, hscene₁, hagenda₁, hqueue₁, htimers₁, hunwoken₁, hdns₁, hadds₁,
      hclock₁⟩ := h.all_fall_asleep hagenda hqueue htimers hunwoken hdns hd htime hends
    by_cases hne : ks = []
    · refine ⟨_, m₁, ids, d₁, by omega, hleads₁, hscene₁.congr_stage ?_, hagenda₁, hqueue₁, ?_,
        fun h => absurd hne h, hdns₁, hadds₁, fun hwhole => hclock₁ ▸ hwhole⟩
      · rw [hne]
        nofun
      · rw [htimers₁, hne]
        rfl
    obtain ⟨m₂, hleads₂, hscene₂, hagenda₂, hqueue₂, htimers₂, -, hdns₂, hclock₂⟩ :=
      hscene₁.all_are_woken hne hagenda₁ hqueue₁ htimers₁ hunwoken₁
    obtain ⟨m', d', hleads, hscene, hagenda', hqueue', htimers', hwoken, hdns', hadds, hclock⟩ :=
      hscene₂.all_wake_up hagenda₂ hqueue₂ (hdns₂.trans hdns₁)
    refine ⟨_, m', ids, d', ?_, (hleads₁.trans hleads₂).trans hleads, hscene, hagenda', hqueue',
      htimers'.trans htimers₂, hwoken, hdns', ?_, fun hwhole => ?_⟩
    · omega
    · rw [← List.append_nil (ks.map _)]
      exact hadds₁.trans hadds
    · rw [hclock, hclock₂, hclock₁]
      exact hwhole.max (Duration.isWhole_ceilMillis _)

end Machine.Scene

/-! ### The parts learn of their records -/

/-- The records are there, and some parts have still to learn of it. -/
def Maker.learnt (ids : Maker → String) (rest : List Seat) (k : Maker) : Stage :=
  .made (ids k) (decide (k.lead ∈ rest)) (k.follower.any (· ∈ rest))

namespace Machine.Scene

variable {ids : Maker → String} {rest : List Seat}

/-- The next part is polled. -/
theorem learns (h : m.Scene q token isWatching w₀ seats ks (Maker.learnt ids (s :: rest)) [])
    (hs : s ∈ seats) (hnot : s ∉ rest) :
    ∃ m' : Machine, m.visit (.poll s.part) = m' ∧
      m'.Scene q token isWatching w₀ seats ks (Maker.learnt ids rest) [] ∧ m'.agenda = m.agenda ∧
      m'.queue = m.queue ∧ m'.timers = m.timers ∧ m'.isMainWoken = m.isMainWoken ∧
      m'.world.dns = m.world.dns ∧ m'.world.clock = m.world.clock := by
  -- whoever has nothing to do with the part stays where it is
  have hsame : ∀ k ∈ ks, s ∉ k.seats → Maker.learnt ids rest k = Maker.learnt ids (s :: rest) k := by
    intro k _ hk
    rw [Maker.seats, List.mem_cons, Option.mem_toList, not_or] at hk
    obtain ⟨hlead, hfollower⟩ := hk
    cases hk : k.follower with
    | none => simp [Maker.learnt, hk, Ne.symm hlead]
    | some s' =>
      have hne : s' ≠ s := fun heq => hfollower (heq ▸ hk)
      simp [Maker.learnt, hk, Ne.symm hlead, hne]
  by_cases hmade : ∃ k ∈ ks, s ∈ k.seats
  · obtain ⟨k, hk, hsk⟩ := hmade
    have hothers : ∀ k' ∈ ks, k' ≠ k → Maker.learnt ids rest k' = Maker.learnt ids (s :: rest) k' :=
      fun k' hk' hne => hsame k' hk' fun hsk' => hne (h.layout.eq_of_seat hk' hk hsk' hsk)
    have hstage : ∀ st, Maker.learnt ids rest k = st → ∀ k' ∈ ks,
        Maker.learnt ids rest k' = Function.update (Maker.learnt ids (s :: rest)) k st k' := by
      rintro st rfl k' hk'
      by_cases hne : k' = k
      · rw [hne, Function.update_self]
      · rw [Function.update_of_ne hne, hothers k' hk' hne]
    obtain rfl | hsk := List.mem_cons.mp hsk
    · obtain ⟨w, hvisit, hscene, hdns, hclock⟩ := h.lead_goes (ids k)
        (k.follower.any (· ∈ k.lead :: rest)) hk (by simp [Maker.learnt])
      refine ⟨_, hvisit, hscene.congr_stage (hstage _ ?_), rfl, rfl, rfl, rfl, hdns, hclock⟩
      cases hfollower : k.follower with
      | none => simp [Maker.learnt, hfollower, hnot]
      | some s' =>
        have hne : s' ≠ k.lead := fun heq =>
          h.layout.follower_part_ne hk hfollower (congrArg Seat.part heq)
        simp [Maker.learnt, hfollower, hnot, hne]
    · have hfollower : k.follower = some s := Option.mem_toList.mp hsk
      obtain ⟨w, hvisit, hscene, hdns, hclock⟩ := h.follower_goes (ids k)
        (decide (k.lead ∈ s :: rest)) hk hfollower (by simp [Maker.learnt, hfollower])
      refine ⟨_, hvisit, hscene.congr_stage (hstage _ ?_), rfl, rfl, rfl, rfl, hdns, hclock⟩
      have hne : k.lead ≠ s := fun heq =>
        h.layout.follower_part_ne hk hfollower (congrArg Seat.part heq.symm)
      simp [Maker.learnt, hfollower, hnot, hne]
  · obtain htodo | ⟨id, his⟩ | hk := h.placed s hs
    · cases htodo
    · refine ⟨m, visit_of_finished his, h.congr_stage fun k hk => hsame k hk fun hsk => ?_, rfl, rfl,
        rfl, rfl, rfl, rfl⟩
      exact hmade ⟨k, hk, hsk⟩
    · exact absurd hk hmade

/-- Who is polled for its parts has them polled. -/
theorem visit_main (h : m.Scene q token isWatching w₀ seats ks stage todo) :
    m.visit (.poll 0) = { m with
      agenda := seats.map (fun s => .poll s.part) ++ .collect 0 :: m.agenda } := by
  obtain ⟨⟨_, _, _, parts, _⟩, hmain, -, -, -, hparts, hstate⟩ := h.main
  subst hparts hstate
  rw [visit, hmain]
  simp only [List.map_map]
  rfl

theorem not_isInterrupted_main (h : m.Scene q token isWatching w₀ seats ks stage todo) :
    m.isInterrupted 0 = false := by
  obtain ⟨fiber, hmain, -, rfl, -⟩ := h.main
  have hgoes : m.isCancelled 0 = false := by
    rw [isCancelled, hmain]
    exact h.live
  rw [isInterrupted, hgoes, Bool.false_and]

theorem exists_map_eq {α β γ : Type} {f : α → γ} {g : β → γ} {l : List α}
    (h : ∀ a ∈ l, ∃ b, f a = g b) : ∃ l' : List β, l'.length = l.length ∧ l.map f = l'.map g := by
  induction l with
  | nil => exact ⟨[], rfl, rfl⟩
  | cons a l ih =>
    obtain ⟨b, hb⟩ := h a List.mem_cons_self
    obtain ⟨l', hlength, hmap⟩ := ih fun a' ha' => h a' (List.mem_cons_of_mem a ha')
    exact ⟨b :: l', congrArg (· + 1) hlength, by rw [List.map_cons, List.map_cons, hb, hmap]⟩

/-- The main program goes on when all of its parts have their records. -/
theorem collects (h : m.Scene q token isWatching w₀ seats ks stage [])
    (hserved : ∀ s ∈ seats, m.Served token s)
    (hjobs : ∀ k ∈ ks, ∃ o, m.Is k.job k.job token (.finished o))
    (hagenda : m.agenda = [.collect 0]) (hqueue : m.queue = []) (htimers : m.timers = [])
    (hunwoken : m.isMainWoken = false) :
    ∃ (m' : Machine) (hs : List DnsHandle), Leads 1 m m' ∧ m'.IsAlone token isWatching ∧
      m'.world = m.world ∧ m'.program = m.program ∧ m'.outcome? 0 = some .finished ∧
      hs.length = seats.length ∧ m'.answerOf 0 (.all (seats.map (·.job))) =
        hs.map fun h => .provisioned (.ok h) := by
  obtain ⟨main, hmain, htask, rfl, rfl, hparts, hstate⟩ := h.main
  let collected : Machine := { m with agenda := [] }
  let ended : Machine := collected.modify 0 fun fiber => { fiber with state := .finished .finished }
  have hsame : ∀ f, f ≠ 0 → ended.fibers[f]? = m.fibers[f]? := fun f hf => by
    rw [getElem?_modify, if_neg (Ne.symm hf)]
  have hended : ended.fibers[0]? = some { main with state := .finished .finished } := by
    rw [getElem?_modify, if_pos rfl]
    exact congrArg _ hmain
  have hall : (main.parts.all fun f => (collected.outcome? f).isSome) = true := by
    rw [hparts, List.all_map, List.all_eq_true]
    intro s hs
    obtain ⟨id, his⟩ := hserved s hs
    exact (congrArg Option.isSome his.outcome?_of_finished).trans rfl
  have hvisit : collected.visit (.collect 0) = ended := by
    have hmain' : collected.fibers[0]? = some main := hmain
    have hgoes : collected.isInterrupted 0 = false := h.not_isInterrupted_main
    obtain ⟨task, token, isWatching, parts, state⟩ := main
    subst hstate
    rw [visit, hmain']
    simp only [hgoes, hall]
    refine finish_of_not_joined fun f fiber hf hfiber => Bool.eq_false_iff.mpr fun hjoins => ?_
    obtain ⟨k, hk, -, hjob⟩ := h.joins hfiber hjoins
    exact h.layout.job_ne hk hjob
  have hfinished : ∀ (f : Nat) (fiber : Fiber), ended.fibers[f]? = some fiber →
      ∃ o, fiber.state = .finished o := by
    intro f fiber hfiber
    by_cases hf : f = 0
    · subst hf
      rw [hended] at hfiber
      exact ⟨.finished, by rw [← Option.some.inj hfiber]⟩
    rw [hsame f hf] at hfiber
    by_cases hpart : f ∈ seats.map (·.part)
    · obtain ⟨s, hs, rfl⟩ := List.mem_map.mp hpart
      obtain ⟨id, his⟩ := hserved s hs
      exact ⟨_, his.state_eq hfiber⟩
    by_cases hjob : f ∈ ks.map (·.job)
    · obtain ⟨k, hk, rfl⟩ := List.mem_map.mp hjob
      obtain ⟨o, his⟩ := hjobs k hk
      exact ⟨o, his.state_eq hfiber⟩
    · exact h.others f fiber hf hpart hjob hfiber
  have hgoes : ended.isInterrupted 0 = false :=
    (isInterrupted_congr hmain hended rfl rfl rfl).trans h.not_isInterrupted_main
  -- what came of the parts
  obtain ⟨hs, hlength, hanswer⟩ : ∃ hs : List DnsHandle, hs.length = seats.length ∧
      seats.map (fun s => (ended.outcome? s.part).getD .interrupted) =
        hs.map fun h => .provisioned (.ok h) := by
    have hgiven : ∀ s ∈ seats, ∃ h : DnsHandle,
        (ended.outcome? s.part).getD .interrupted = .provisioned (.ok h) := by
      intro s hs
      obtain ⟨id, his⟩ := hserved s hs
      have his' : ended.Is s.part 0 main.token _ := his.congr (hsame _ (h.layout.part_ne hs)) rfl
      exact ⟨_, (congrArg (·.getD .interrupted) his'.outcome?_of_finished)⟩
    exact exists_map_eq hgiven
  refine ⟨ended, hs, hvisit ▸ leads_of_agenda h.outcome?_main hagenda, ⟨⟨_, ⟨rfl, hqueue, htimers,
    hunwoken, hended, htask, hgoes, hfinished⟩, rfl, rfl⟩, h.live⟩, rfl, rfl,
    outcome?_of_state hended, hlength, ?_⟩
  rw [answerOf, hended, Option.map_some, Option.getD_some, ← hanswer, hparts, List.map_map]
  rfl

/-- When the records of all makers are there, the parts learn of it and come to their ends. -/
theorem all_learn (h : m.Scene q token isWatching w₀ seats ks
      (fun k => .made (ids k) true k.follower.isSome) [])
    (hagenda : m.agenda = []) (hqueue : m.queue = []) (htimers : m.timers = [])
    (hwoken : m.isMainWoken = true) :
    ∃ (m' : Machine) (hs : List DnsHandle), Leads (seats.length + 3) m m' ∧
      m'.IsAlone token isWatching ∧ m'.program = m.program ∧ m'.outcome? 0 = some .finished ∧
      hs.length = seats.length ∧
      m'.answerOf 0 (.all (seats.map (·.job))) = hs.map (fun h => .provisioned (.ok h)) ∧
      m'.world = { w₀ with
        slots := m'.world.slots, dns := m.world.dns, clock := m.world.clock } ∧
      Slots w₀.slots m'.world.slots ks ∧
      ∀ k ∈ ks, m'.world.slots.cells[k.cell]? = some { value := some (ids k) } := by
  have hseats : seats.Nodup :=
    (List.nodup_append.mp (List.nodup_cons.mp h.layout.fibers).2).1.of_map
  let m₁ : Machine := { m with isMainWoken := false }
  let m₂ : Machine := { m₁ with agenda := seats.map (fun s => .poll s.part) ++ [.collect 0] }
  have hm₁ : m₁.Scene q token isWatching w₀ seats ks (Maker.learnt ids seats) [] := by
    have hsame : m₁.Scene q token isWatching w₀ seats ks _ [] := h.congr rfl rfl rfl rfl
    refine hsame.congr_stage fun k hk => ?_
    have hlead := h.layout.lead_mem hk
    cases hfollower : k.follower with
    | none => simp [Maker.learnt, hfollower, hlead]
    | some s => simp [Maker.learnt, hfollower, hlead, h.layout.follower_mem hk hfollower]
  have hstart : Leads 2 m m₂ := by
    have hvisit : m₁.visit (.poll 0) = m₂ := hm₁.visit_main.trans (by
      rw [show m₁.agenda = [] from hagenda])
    exact hvisit ▸ leads_of_woken h.outcome?_main hagenda hqueue hwoken
  let Inv (done todo : List Seat) (m' : Machine) : Prop := done ++ todo = seats ∧
    m'.Scene q token isWatching w₀ seats ks (Maker.learnt ids todo) [] ∧
    m'.agenda = todo.map (fun s => .poll s.part) ++ [.collect 0] ∧ m'.queue = [] ∧
    m'.timers = [] ∧ m'.isMainWoken = false ∧ m'.world.dns = m.world.dns ∧
    m'.world.clock = m.world.clock ∧ m'.program = m.program
  obtain ⟨m₃, hleads, -, hscene, hagenda₃, hqueue₃, htimers₃, hunwoken₃, hdns, hclock, hprogram⟩ :=
    Leads.each (n := 1) (P := Inv) (fun done s todo m' hm' => by
      obtain ⟨hall, hscene, hagenda, hqueue, htimers, hunwoken, hdns, hclock, hprogram⟩ := hm'
      have hs : s ∈ seats := hall ▸ List.mem_append_right _ List.mem_cons_self
      have hnot : s ∉ todo :=
        (List.nodup_cons.mp (List.nodup_append.mp (hall ▸ hseats)).2.1).1
      let polled : Machine := { m' with agenda := todo.map (fun s => .poll s.part) ++ [.collect 0] }
      have hpolled : polled.Scene q token isWatching w₀ seats ks (Maker.learnt ids (s :: todo)) [] :=
        hscene.congr rfl rfl rfl rfl
      obtain ⟨m'', hvisit, hscene', hagenda', hqueue', htimers', hunwoken', hdns', hclock'⟩ :=
        hpolled.learns hs hnot
      refine ⟨m'', hvisit ▸ leads_of_agenda hscene.outcome?_main hagenda, ?_, hscene', hagenda',
        hqueue'.trans hqueue, htimers'.trans htimers, hunwoken'.trans hunwoken, hdns'.trans hdns,
        hclock'.trans hclock, ?_⟩
      · rw [← hall, List.append_assoc]
        rfl
      · rw [hscene'.program, h.program])
      (show Inv [] seats m₂ from ⟨rfl, hm₁.congr rfl rfl rfl rfl, rfl, hqueue, htimers, rfl, rfl, rfl,
        rfl⟩)
  have hserved : ∀ s ∈ seats, m₃.Served token s := by
    intro s hs
    obtain htodo | hserved | ⟨k, hk, hsk⟩ := hscene.placed s hs
    · cases htodo
    · exact hserved
    · have hstands := hscene.stands k hk
      have hlearnt : Maker.learnt ids [] k = .made (ids k) false false := by
        cases hfollower : k.follower <;> simp [Maker.learnt, hfollower]
      rw [hlearnt] at hstands
      obtain rfl | hsk := List.mem_cons.mp hsk
      · exact hstands.lead
      · exact hstands.follower s (Option.mem_toList.mp hsk)
  obtain ⟨m', hs, hcollect, halone, hworld, hprogram', hmain, hlength, hanswer⟩ :=
    hscene.collects hserved (fun k hk => ⟨_, (hscene.stands k hk).job⟩) hagenda₃ hqueue₃ htimers₃
      hunwoken₃
  refine ⟨m', hs, ?_, halone, hprogram'.trans hprogram, hmain, hlength, hanswer, ?_, ?_,
    fun k hk => ?_⟩
  · have hrounds : seats.length + 3 = 2 + 1 * seats.length + 1 := by omega
    rw [hrounds]
    exact (hstart.trans hleads).trans hcollect
  · rw [hworld, ← hdns, ← hclock]
    exact hscene.world
  · rw [hworld]
    exact hscene.slots
  · rw [hworld, (hscene.stands k hk).cell]
    cases hfollower : k.follower <;> simp [Maker.learnt, Maker.cellAt, hfollower]

end Machine.Scene

end CertSteward
