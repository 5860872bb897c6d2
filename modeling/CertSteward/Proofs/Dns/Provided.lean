import CertSteward.Proofs.Dns.Phases

/-!
# Records that are asked for beside each other are there

A main program asks for several records beside each other. If the service does nothing wrong, all of
them are there in the end, however long it takes to make one, and the slots are a ledger of the
records again.

## Main definitions

* `Seat.list` — the seats of the parts that ask for records
* `Ledger.Provided` — records are there, and the slots are a ledger of them

## Main results

* `Machine.Scene.all_served` — from the arrival of the last part to the end of all jobs
* `Ledger.gets_provisionAll` — what a run learns of the records that it asks for
-/

namespace CertSteward

/-- The parts for some records, which are numbered from `n` on. -/
def Seat.list (n : Nat) (records : List (String × String)) : List Seat :=
  (records.zipIdx n).map fun x => { part := x.2, name := x.1.1, value := x.1.2 }

theorem Seat.map_part_list (n : Nat) (records : List (String × String)) :
    (Seat.list n records).map (·.part) = List.range' n records.length := by
  rw [Seat.list, List.map_map]
  exact List.zipIdx_map_snd n records

theorem Seat.map_record_list (n : Nat) (records : List (String × String)) :
    (Seat.list n records).map (fun s => (s.name, s.value)) = records := by
  rw [Seat.list, List.map_map]
  exact List.zipIdx_map_fst n records

theorem Seat.length_list (n : Nat) (records : List (String × String)) :
    (Seat.list n records).length = records.length := by
  rw [Seat.list, List.length_map, List.length_zipIdx]

namespace Machine

variable {m : Machine} {main : Fiber} {q : RenewalPractice} {token : Nat} {isWatching : Bool}

/-- The main program starts its parts. -/
theorem Calm.gathers (h : m.Calm main) (jobs : List Job) (hjobs : jobs ≠ []) :
    ∃ m₁ : Machine, m.perform 0 (.wait (.all jobs)) = (none, m₁) ∧
      m₁.agenda = (List.range' m.fibers.size jobs.length).map .poll ++ [.collect 0] ∧
      m₁.queue = [] ∧ m₁.timers = [] ∧ m₁.isMainWoken = false ∧ m₁.world = m.world ∧
      m₁.program = m.program ∧ m₁.cancelled = m.cancelled ∧
      m₁.fibers[0]? = some { main with parts := List.range' m.fibers.size jobs.length } ∧
      (∀ (i : Nat) (j : Job), jobs[i]? = some j →
        m₁.fibers[m.fibers.size + i]? = some (main.part (m.program j))) ∧
      ∀ (f : Nat) (fiber : Fiber), f ≠ 0 → f ∉ List.range' m.fibers.size jobs.length →
        m₁.fibers[f]? = some fiber → m.fibers[f]? = some fiber :=
  ⟨m.gathering main jobs, perform_all h.here h.goes h.agenda hjobs, rfl, h.queue, h.timers,
    h.unwoken, rfl, rfl, rfl, main_gathering h.here,
    fun _ _ => part_gathering (Array.getElem?_eq_some_iff.mp h.here).choose,
    fun _ _ => getElem?_of_gathering⟩

/-- The main program waits for parts that ask for its records, and none of them has begun. -/
theorem IsAlone.scene (hm : m.IsAlone token isWatching) (hprogram : m.program = q.program)
    (hrests : m.world.slots.Rests) {records : List (String × String)} (hne : records ≠ []) :
    ∃ (seats : List Seat) (m₁ m₂ : Machine), seats.map (fun s => (s.name, s.value)) = records ∧
      m.perform 0 (.wait (.all (seats.map (·.job)))) = (none, m₁) ∧
      m₁.agenda.length = seats.length + 1 ∧
      (m₁.modify 0 fun fiber => { fiber with
        state := .waiting (.wait (.all (seats.map (·.job))))
          (mainWait (.wait (.all (seats.map (·.job))))) false }) = m₂ ∧
      m₂.Scene q token isWatching m.world seats [] (fun _ => .asked) seats ∧
      m₂.agenda = seats.map (fun s => .poll s.part) ++ [.collect 0] ∧ m₂.queue = [] ∧
      m₂.timers = [] ∧ m₂.isMainWoken = false ∧ m₂.world = m.world := by
  obtain ⟨⟨main, hcalm, rfl, rfl⟩, hlive⟩ := hm
  let n := m.fibers.size
  let seats := Seat.list n records
  have hparts : seats.map (·.part) = List.range' n records.length := Seat.map_part_list n records
  have hlength : (seats.map (·.job)).length = records.length := by
    rw [List.length_map, Seat.length_list]
  obtain ⟨m₁, hperform, hagenda, hqueue, htimers, hunwoken, hworld, hprogram₁, hcancelled, hmain,
    hpart, hold⟩ := hcalm.gathers (seats.map (·.job)) (by
      rw [← List.length_pos_iff, hlength]
      exact List.length_pos_iff.mpr hne)
  rw [hlength] at hagenda hmain hold
  have hpos : 0 < n := (Array.getElem?_eq_some_iff.mp hcalm.here).choose
  let m₂ : Machine := m₁.modify 0 fun fiber => { fiber with
    state := .waiting (.wait (.all (seats.map (·.job))))
      (mainWait (.wait (.all (seats.map (·.job))))) false }
  have hsame : ∀ f, f ≠ 0 → m₂.fibers[f]? = m₁.fibers[f]? := fun f hf =>
    getElem?_modify.trans (if_neg (Ne.symm hf))
  have hfibers : (0 :: (seats.map (·.part) ++ ([] : List Maker).map (·.job))).Nodup := by
    rw [List.map_nil, List.append_nil, hparts]
    refine List.nodup_cons.mpr ⟨fun h0 => ?_, List.nodup_range'⟩
    have := (List.mem_range'_1.mp h0).1
    omega
  have hseats : seats.Nodup := List.Nodup.of_map _ (hparts ▸ List.nodup_range')
  refine ⟨seats, m₁, m₂, Seat.map_record_list n records, hperform, ?_, rfl, ?_, ?_, hqueue, htimers,
    hunwoken, hworld⟩
  · simp [hagenda, seats, Seat.length_list]
  · refine ⟨⟨hfibers, nofun, fun s hs => hs, by simpa using hseats⟩, ?_, ?_,
      hprogram₁.trans hprogram, ?_, hcancelled ▸ hlive, fun s hs => ?_, fun s hs => .inl hs, nofun,
      fun f fiber hf hnotin _ hfiber => ?_⟩
    · rw [show m₂.world = m.world from hworld]
      exact ⟨by simp, hrests.keys, rfl, rfl, fun _ _ => rfl⟩
    · rw [show m₂.world = m.world from hworld]
    · refine ⟨_, (getElem?_modify.trans (if_pos rfl)).trans (congrArg _ hmain), hcalm.task, rfl, rfl,
        hparts.symm, rfl⟩
    · obtain ⟨i, hi⟩ := List.mem_iff_getElem?.mp hs
      have hpart' : s.part = n + i := by
        have hi' : (seats.map (·.part))[i]? = some s.part := by rw [List.getElem?_map, hi]; rfl
        rw [hparts] at hi'
        obtain ⟨hlt, heq⟩ := List.getElem?_eq_some_iff.mp hi'
        rw [List.getElem_range', Nat.one_mul] at heq
        exact heq.symm
      have hjob : (seats.map (·.job))[i]? = some s.job := by rw [List.getElem?_map, hi]; rfl
      refine ⟨⟨main.part (m.program s.job), ?_, hcalm.task, rfl, ?_⟩, hcancelled ▸ hlive⟩
      · rw [hsame _ (by omega), hpart']
        exact hpart i s.job hjob
      · rw [hprogram]
        rfl
    · rw [hsame f hf] at hfiber
      rw [hparts] at hnotin
      exact hcalm.finished f fiber (hold f fiber hf hnotin hfiber)
  · change m₁.agenda = _
    rw [hagenda, ← hparts, List.map_map]
    rfl

end Machine

/-- What is left when parts have been given their records. -/
structure Ledger.Provided (w : World) (d : MemoryDns) (records : List (String × String)) (w' : World)
    (d' : MemoryDns) : Prop where
  ledger : Ledger w' d'
  world : w' = { w with slots := w'.slots, dns := w'.dns, clock := w'.clock }
  whole : w.clock.IsWhole → w'.clock.IsWhole
  failsDeletes : d'.failsDeletes = d.failsDeletes
  entries : ∀ e ∈ d'.entries, e ∈ d.entries ∨ ∃ r ∈ records, e.key = slotKey r.1 r.2

namespace Ledger

variable {w : World} {d : MemoryDns} {q : RenewalPractice} {isWatching : Bool}

/-- A ledger with the slots of makers whose records are there is a ledger. -/
theorem of_slots (hw : Ledger w d) {w' : World} {d' : MemoryDns} {ks : List Maker}
    {ids : Maker → String} (hslots : Slots w.slots w'.slots ks)
    (hcells : ∀ k ∈ ks, w'.slots.cells[k.cell]? = some { value := some (ids k) })
    (hdns : w'.dns = .memory d') (hadds : d.Adds (ks.map fun k => k.lead.entry (ids k)) d') :
    Ledger w' d' := by
  have hold : ∀ x ∈ w.slots.index, w'.slots.cells[x.2]? = w.slots.cells[x.2]? := fun x hx =>
    hslots.old _ (hw.rests.lt x hx)
  have hcounted := hadds.counted ⟨hw.ids, hw.made⟩
  refine ⟨hdns, ⟨fun c cell hcell => ?_, hslots.keys, ?_, fun x hx => ?_⟩, ?_, hcounted.ids,
    hcounted.made⟩
  · by_cases hc : c < w.slots.cells.size
    · exact hw.rests.isFree c cell (hslots.old c hc ▸ hcell)
    · have hlt := (Array.getElem?_eq_some_iff.mp hcell).choose
      have hmem : c ∈ ks.map (·.cell) := by
        rw [hslots.cells, List.mem_range'_1, ← hslots.size]
        exact ⟨Nat.not_lt.mp hc, hlt⟩
      obtain ⟨k, hk, rfl⟩ := List.mem_map.mp hmem
      rw [Option.some.inj (hcell.symm.trans (hcells k hk))]
  · rw [hslots.index, List.map_append, List.map_map]
    refine List.nodup_append.mpr ⟨hw.rests.cells, ?_, fun a ha b hb heq => ?_⟩
    · exact hslots.cells ▸ List.nodup_range'
    · obtain ⟨x, hx, rfl⟩ := List.mem_map.mp ha
      obtain ⟨k, hk, rfl⟩ := List.mem_map.mp hb
      have hlt := hw.rests.lt x hx
      have hle := hslots.le_cell hk
      have heq' : x.2 = k.cell := heq
      omega
  · rw [hslots.index] at hx
    obtain hx | hx := List.mem_append.mp hx
    · have hlt := hw.rests.lt x hx
      have hsize := hslots.size
      omega
    · obtain ⟨k, hk, rfl⟩ := List.mem_map.mp hx
      exact (Array.getElem?_eq_some_iff.mp (hcells k hk)).choose
  · rw [MutexTable.contents, hslots.index, List.map_append, hadds.entries, List.map_append,
      ← hw.contents, MutexTable.contents, List.map_map, List.map_map]
    congr 1
    · refine List.map_congr_left fun x hx => ?_
      rw [MutexTable.value?, hold x hx]
      rfl
    · refine List.map_congr_left fun k hk => ?_
      exact congrArg (Prod.mk k.lead.key) (MutexTable.value?_of_cell (hcells k hk))

/-- The slots of a ledger hold the ids of records. -/
theorem cell_of_lookup (hw : Ledger w d) {k : SlotKey} {c : Nat}
    (hc : w.slots.index.lookup k = some c) :
    ∃ id, w.slots.cells[c]? = some { value := some id } := by
  obtain ⟨v, hv, hmem⟩ := hw.rests.value hc
  rw [hw.contents] at hmem
  obtain ⟨e, -, heq⟩ := List.mem_map.mp hmem
  obtain ⟨-, hid⟩ := Prod.mk.inj heq
  rw [MutexTable.value?] at hv
  obtain ⟨cell, hcell, hvalue⟩ := Option.map_eq_some_iff.mp hv
  refine ⟨e.id, ?_⟩
  rw [hcell, hw.rests.isFree c cell hcell, hvalue, Option.some.inj hid]

end Ledger

namespace Machine

variable {m : Machine} {q : RenewalPractice} {token : Nat} {isWatching : Bool} {w₀ : World}
variable {seats : List Seat} {ks : List Maker} {d : MemoryDns}

/-- A main program some of whose parts still wait is polled again later. -/
theorem Scene.waits_on (h : m.Scene q token isWatching w₀ seats ks (fun _ => .asked) [])
    (hne : ks ≠ []) (hagenda : m.agenda = [.collect 0]) : Leads 1 m { m with agenda := [] } := by
  let collected : Machine := { m with agenda := [] }
  have hvisit : collected.visit (.collect 0) = collected := by
    obtain ⟨main, hmain, -, -, -, hparts, hstate⟩ := h.main
    obtain ⟨k, hk⟩ := List.exists_mem_of_ne_nil ks hne
    obtain ⟨_, -, his⟩ := (h.stands k hk).lead
    have hmain' : collected.fibers[0]? = some main := hmain
    have hgoes : collected.isInterrupted 0 = false := h.not_isInterrupted_main
    have hwaits : collected.outcome? k.lead.part = none := his.outcome?_of_waiting
    have hall : (main.parts.all fun f => (collected.outcome? f).isSome) = false := by
      refine Bool.eq_false_iff.mpr fun hall => ?_
      have hlead := List.all_eq_true.mp hall k.lead.part
        (hparts ▸ List.mem_map_of_mem (h.layout.lead_mem hk))
      rw [hwaits] at hlead
      cases hlead
    obtain ⟨task, token, isWatching, parts, state⟩ := main
    subst hstate
    rw [visit, hmain']
    simp only [hgoes, hall]
    rfl
  have hleads : Leads 1 m (collected.visit (.collect 0)) :=
    leads_of_agenda h.outcome?_main hagenda
  rwa [hvisit] at hleads

/-- Once all parts have begun, they have their records in the end. -/
theorem Scene.all_served (h : m.Scene q token isWatching w₀ seats ks (fun _ => .asked) [])
    (hagenda : m.agenda = [.collect 0]) (hqueue : m.queue = ks.map (·.job)) (htimers : m.timers = [])
    (hunwoken : m.isMainWoken = false) (hdns : m.world.dns = .memory d) (hd : d.IsSteady) :
    ∃ (n : Nat) (m' : Machine) (hs : List DnsHandle) (ids : Maker → String) (d' : MemoryDns),
      n ≤ 4 * ks.length + seats.length + 5 ∧ Leads n m m' ∧ m'.IsAlone token isWatching ∧
      m'.program = q.program ∧ m'.outcome? 0 = some .finished ∧ hs.length = seats.length ∧
      m'.answerOf 0 (.all (seats.map (·.job))) = hs.map (fun h => .provisioned (.ok h)) ∧
      m'.world = { w₀ with
        slots := m'.world.slots, dns := .memory d', clock := m'.world.clock } ∧
      Slots w₀.slots m'.world.slots ks ∧
      (∀ k ∈ ks, m'.world.slots.cells[k.cell]? = some { value := some (ids k) }) ∧
      d.Adds (ks.map fun k => k.lead.entry (ids k)) d' ∧
      (m.world.clock.IsWhole → m'.world.clock.IsWhole) := by
  by_cases hne : ks = []
  · subst hne
    have hserved : ∀ s ∈ seats, m.Served token s := by
      intro s hs
      obtain htodo | hserved | ⟨k, hk, -⟩ := h.placed s hs
      · cases htodo
      · exact hserved
      · cases hk
    obtain ⟨m', hs, hleads, halone, hworld, hprogram, hmain, hlength, hanswer⟩ :=
      h.collects hserved nofun hagenda hqueue htimers hunwoken
    refine ⟨1, m', hs, fun _ => "", d, by omega, hleads, halone, hprogram.trans h.program, hmain,
      hlength, hanswer, ?_, by rw [hworld]; exact h.slots, nofun, .refl, fun hwhole => hworld ▸ hwhole⟩
    rw [hworld, ← hdns]
    exact h.world
  · let begun : Machine := { m with agenda := [] }
    have hbegun : begun.Scene q token isWatching w₀ seats ks (fun _ => .asked) [] :=
      h.congr rfl rfl rfl rfl
    obtain ⟨n, m₁, ids, d', hn, hleads₁, hscene, hagenda₁, hqueue₁, htimers₁, hwoken, hdns₁, hadds,
      hwhole⟩ := hbegun.all_make rfl hqueue htimers hunwoken hdns hd
    obtain ⟨m', hs, hleads, halone, hprogram, hmain, hlength, hanswer, hworld, hslots, hcells⟩ :=
      hscene.all_learn hagenda₁ hqueue₁ htimers₁ (hwoken hne)
    have hclock : m'.world.clock = m₁.world.clock := by rw [hworld]
    refine ⟨_, m', hs, ids, d', ?_, ((h.waits_on hne hagenda).trans hleads₁).trans hleads, halone,
      hprogram.trans hscene.program, hmain, hlength, hanswer, ?_, hslots, hcells, hadds,
      fun h => hclock ▸ hwhole h⟩
    · omega
    · rw [hclock, ← hdns₁]
      exact hworld

end Machine

namespace Ledger

variable {w : World} {d : MemoryDns} {q : RenewalPractice} {isWatching : Bool}

open Machine in
/-- Parts that ask for records come to their ends, and the main program goes on. -/
theorem gets_provisions (hw : Ledger w d) (hd : d.IsSteady) {records : List (String × String)}
    (hne : records ≠ []) (hpairs : ∀ k, (records.filter fun r => slotKey r.1 r.2 = k).length ≤ 2)
    (hlength : records.length < 2 ^ 57) :
    Gets q.program isWatching
      (perform (.wait (.all (records.map fun r => .provision r.1 r.2)))) w isWatching
      fun outcomes w' => ∃ hs : List DnsHandle,
        outcomes = some (hs.map fun h => .provisioned (.ok h)) ∧ hs.length = records.length ∧
          ∃ d', Provided w d records w' d' := by
  rintro m token hm rfl hprogram
  obtain ⟨seats, m₁, m₂, rfl, hperform, hrounds, hwaits, hscene, hagenda, hqueue, htimers, hunwoken,
    hworld⟩ := hm.scene hprogram hw.rests hne
  have hpairs' : ∀ k, (seats.filter (·.key = k)).length ≤ 2 := by
    intro k
    have hle := hpairs k
    rw [List.filter_map, List.length_map] at hle
    exact hle
  obtain ⟨m₃, ks, harrive, hscene₃, hks, hagenda₃, hqueue₃, htimers₃, hunwoken₃, hdns₃, hclock₃⟩ :=
    hscene.all_arrive hagenda hqueue htimers hunwoken (fun _ _ => hw.cell_of_lookup) hpairs'
  obtain ⟨n, m', hs, ids, d', hn, hserved, halone, hprogram', hmain, hhs, hanswer, hworld', hslots,
    hcells, hadds, hwhole⟩ := hscene₃.all_served hagenda₃ hqueue₃ htimers₃ hunwoken₃
      (hdns₃.trans (by rw [hworld]; exact hw.dns)) hd
  subst hwaits
  have hjobs : (seats.map fun s => (s.name, s.value)).map (fun r => Job.provision r.1 r.2) =
      seats.map (·.job) := List.map_map
  rw [List.length_map] at hlength ⊢
  have hwait := waitMain_of_leads (harrive.trans hserved) (by
    rw [hrounds]
    change _ ≤ 2 ^ 60 + (seats.length + 1)
    omega) hmain
  refine ⟨m', _, halone, hprogram', ⟨hs, rfl, hhs, d', ?_⟩, fun next => ?_⟩
  · refine ⟨hw.of_slots hslots hcells (by rw [hworld']) hadds, ?_, fun h => hwhole ?_,
      hadds.failsDeletes, fun e he => ?_⟩
    · rw [hworld']
    · rw [hclock₃, hworld]
      exact h
    · rw [hadds.entries] at he
      obtain he | he := List.mem_append.mp he
      · exact .inl he
      · obtain ⟨k, hk, rfl⟩ := List.mem_map.mp he
        exact .inr ⟨_, List.mem_map_of_mem (hscene₃.layout.lead_mem hk), rfl⟩
  · rw [hjobs, ← hanswer]
    exact runMain_of_waitMain hperform hwait

/-- Records that are asked for beside each other are there in the end. -/
theorem gets_provisionAll (hw : Ledger w d) (hd : d.IsSteady) {records : List (String × String)}
    (hne : records ≠ []) (hpairs : ∀ k, (records.filter fun r => slotKey r.1 r.2 = k).length ≤ 2)
    (hlength : records.length < 2 ^ 57) :
    Gets q.program isWatching (DnsPractice.provisionAll records).run w isWatching
      fun results w' => ∃ hs : List DnsHandle, results = some (hs.map .ok) ∧
        hs.length = records.length ∧ ∃ d', Provided w d records w' d' := by
  refine (hw.gets_provisions hd hne hpairs hlength).bind ?_
  rintro _ w' ⟨hs, rfl, hhs, hprovided⟩
  exact Gets.of_follows? rfl ⟨hs, congrArg some List.map_map, hhs, hprovided⟩

end Ledger

end CertSteward
