import CertSteward.Proofs.Dns.Ledger

/-!
# Calls on challenge records, one after the other

Calls to make, remove and look for challenge records are made one after the other, over records in
memory. Between them anything may happen to the surroundings but to the slots and the records: time
passes, and the service is told to fail or to take its time. A call is given handles that earlier
calls have returned, fresh or stale.

Whatever comes of the calls, the slots stay a ledger of the records.

## Main definitions

* `RecordCall` — the calls
* `RecordCall.Does` — what a call does to records and slots
* `RecordHistory` — calls one after the other

## Main results

* `RecordHistory.records_match_slots` — the next call has a result, and keeps the ledger
-/

namespace CertSteward

/-- A call of whoever makes and removes challenge records. -/
inductive RecordCall
  | provision (name value : String)
  | deprovision (h : DnsHandle)
  | deprovisionAll (hs : List DnsHandle)
  | tracked (name value : String)

namespace RecordCall

/-- What a call returns; there is no result of making a record if that was interrupted. -/
@[reducible] def Reply : RecordCall → Type
  | provision .. => Option (Except DnsError DnsHandle)
  | deprovision _ => Except DnsError Unit
  | deprovisionAll _ => Nat
  | tracked .. => Option DnsHandle

def program (p : DnsPractice) : (c : RecordCall) → Steward c.Reply
  | provision name value => (DnsPractice.provision name value).run
  | deprovision h => p.deprovision h
  | deprovisionAll hs => DnsPractice.deprovisionAll hs
  | tracked name value => DnsPractice.tracked name value

/-- The handles that a call is given. -/
def given : RecordCall → List DnsHandle
  | provision .. | tracked .. => []
  | deprovision h => [h]
  | deprovisionAll hs => hs

/-- The handles that a call returns. -/
def returned : (c : RecordCall) → c.Reply → List DnsHandle
  | provision .., some (.ok h) => [h]
  | tracked .., some h => [h]
  | _, _ => []

/-- Records and slots are as they were. -/
def Unchanged (w : World) (d : MemoryDns) (w' : World) (d' : MemoryDns) : Prop :=
  d'.entries = d.entries ∧ w'.slots.contents = w.slots.contents

/-- What a call does to records and slots. -/
def Does (w : World) (d : MemoryDns) :
    (c : RecordCall) → c.Reply → (w' : World) → (d' : MemoryDns) → Prop
  | provision name value, reply, w', d' =>
    match d.entryAt? (slotKey name value) with
    -- a record that is there is not asked for again
    | some e => reply = some (.ok { name, value, id := e.id }) ∧ w' = w ∧ d' = d
    | none =>
      (∃ e, reply = some (.error e) ∧ (d.failingCreates ≠ 0 ∨ d.refusal ≠ none) ∧
        Unchanged w d w' d') ∨
      ∃ id, reply = some (.ok { name, value, id }) ∧ id ∉ d.entries.map (·.id) ∧
        d'.entries = d.entries ++ [{ name := Text.lower name, id, value }]
  | deprovision h, reply, w', d' =>
    if d.failsDeletes then (∃ e, reply = .error e) ∧ Unchanged w d w' d'
    else reply = .ok () ∧ d'.entries = d.entries.filter (·.key ≠ h.key)
  | deprovisionAll hs, reply, w', d' =>
    if d.failsDeletes then reply = hs.length ∧ Unchanged w d w' d'
    else reply = 0 ∧ d'.entries = d.entries.filter (·.key ∉ hs.map (·.key))
  | tracked name value, reply, w', d' =>
    reply = (d.entryAt? (slotKey name value)).map (fun e => { name, value, id := e.id }) ∧
      w' = w ∧ d' = d

variable {p : RenewalPractice} {w w' : World} {d d' : MemoryDns} {name value : String}

theorem unchanged_of_entries (hw : Ledger w d) (hw' : Ledger w' d') (h : d'.entries = d.entries) :
    Unchanged w d w' d' :=
  ⟨h, by rw [hw'.contents, hw.contents, h]⟩

theorem unchanged_of_fails {keys : List SlotKey} (hw : Ledger w d) (hw' : Ledger w' d')
    (h : d.Removal keys d') (hd : d.failsDeletes = true) : Unchanged w d w' d' :=
  unchanged_of_entries hw hw' (h.entries.trans (if_pos hd))

/-- What a call has come to: a result, which leaves the ledger in order, and handles that can be
given to later calls. -/
structure Concludes (c : RecordCall) (w : World) (d : MemoryDns) (reply : c.Reply) (w' : World)
    (d' : MemoryDns) : Prop where
  ledger : Ledger w' d'
  does : c.Does w d reply w' d'
  knows : ∀ h, d.Knows h → d'.Knows h
  returns : ∀ h ∈ c.returned reply, d'.Knows h

theorem concludes_tracked (hw : Ledger w d) : (tracked name value).Concludes w d
    ((d.entryAt? (slotKey name value)).map fun e => { name, value, id := e.id }) w d where
  ledger := hw
  does := ⟨rfl, rfl, rfl⟩
  knows _ hh := hh
  returns h hh := by
    obtain ⟨e, he, hk, hentry⟩ | ⟨-, hentry⟩ := hw.entryAt?_cases (slotKey name value)
    · rw [hentry] at hh
      obtain rfl := List.mem_singleton.mp hh
      exact hw.knows_of_mem he hk rfl
    · rw [hentry] at hh
      cases hh

theorem concludes_provision_of_mem (hw : Ledger w d) {e : MemoryDns.Entry} (he : e ∈ d.entries)
    (hk : e.key = slotKey name value) :
    (provision name value).Concludes w d (some (.ok { name, value, id := e.id })) w d where
  ledger := hw
  does := by
    rw [Does, ← hk, hw.entryAt?_of_mem he]
    exact ⟨rfl, rfl, rfl⟩
  knows _ hh := hh
  returns h hh := by
    obtain rfl := List.mem_singleton.mp hh
    exact hw.knows_of_mem he hk rfl

theorem concludes_provision_of_attempt (hw : Ledger w d) (hw' : Ledger w' d')
    (hk : d.entryAt? (slotKey name value) = none) {result : Except DnsError String}
    (ha : d.Attempt name value result d') : (provision name value).Concludes w d
      (some (result.map fun id => { name, value, id })) w' d' where
  ledger := hw'
  does := by
    rw [Does, hk]
    cases ha with
    | failed disturbed entries =>
      exact .inl ⟨_, rfl, disturbed, unchanged_of_entries hw hw' entries⟩
    | done entries =>
      refine .inr ⟨_, rfl, fun hmem => ?_, entries⟩
      obtain ⟨e, he, hid⟩ := List.mem_map.mp hmem
      exact hw.id_ne he hid
  knows _ hh := ha.knows hh
  returns h hh := by
    cases ha with
    | failed => cases hh
    | done entries =>
      obtain rfl := List.mem_singleton.mp hh
      refine hw'.knows_of_mem (e := { name := Text.lower name, id := _, value }) ?_ rfl rfl
      rw [entries]
      exact List.mem_append_right _ List.mem_cons_self

theorem concludes_deprovision {h : DnsHandle} (hw : Ledger w d) (hw' : Ledger w' d')
    (hd : d.Removal [h.key] d') {result : Except DnsError Unit}
    (hok : result.isOk = !d.failsDeletes) :
    (deprovision h).Concludes w d result w' d' where
  ledger := hw'
  does := by
    rw [Does]
    split
    · rename_i hfails
      rw [hfails] at hok
      cases result with
      | ok => cases hok
      | error e => exact ⟨⟨e, rfl⟩, unchanged_of_fails hw hw' hd hfails⟩
    · rename_i hfails
      rw [(Bool.not_eq_true _).mp hfails] at hok
      cases result with
      | ok => exact ⟨rfl, by simpa only [List.mem_singleton] using hd.entries.trans (if_neg hfails)⟩
      | error e => cases hok
  knows _ hh := hd.knows hh
  returns _ hh := absurd hh List.not_mem_nil

theorem concludes_deprovisionAll {hs : List DnsHandle} (hw : Ledger w d) (hw' : Ledger w' d')
    (hd : d.Removal (hs.map (·.key)) d') : (deprovisionAll hs).Concludes w d
      (if d.failsDeletes then hs.length else 0) w' d' where
  ledger := hw'
  does := by
    rw [Does]
    split
    · exact ⟨rfl, unchanged_of_fails hw hw' hd ‹_›⟩
    · exact ⟨rfl, hd.entries.trans (if_neg ‹_›)⟩
  knows _ hh := hd.knows hh
  returns _ hh := absurd hh List.not_mem_nil

/-- Every call comes to a conclusion. -/
theorem yields (c : RecordCall) (hp : p.issuance.dns.retries < 2 ^ 32) (hw : Ledger w d)
    (hc : ∀ h ∈ c.given, d.Knows h) :
    ∃ reply w' d', Yields p.program (c.program p.issuance.dns) w reply w' ∧
      c.Concludes w d reply w' d' := by
  cases c with
  | provision name value =>
    obtain ⟨e, he, hk, -⟩ | ⟨hk, hentry⟩ := hw.entryAt?_cases (slotKey name value)
    · exact ⟨_, w, d, .of_eval? (hw.eval?_provision he hk), concludes_provision_of_mem hw he hk⟩
    · obtain ⟨result, w', d', hyields, hw', hattempt⟩ := hw.yields_provision hk hp
      exact ⟨_, w', d', hyields, concludes_provision_of_attempt hw hw' hentry hattempt⟩
  | deprovision h =>
    obtain ⟨result, w', d', heval, hw', hremoval, hok⟩ :=
      hw.eval?_deprovision (hc h List.mem_cons_self) p.issuance.dns
    exact ⟨result, w', d', .of_eval? heval, concludes_deprovision hw hw' hremoval hok⟩
  | deprovisionAll hs =>
    obtain ⟨w', d', hyields, hw', hremoval⟩ := hw.yields_deprovisionAll p hc
    exact ⟨_, w', d', hyields, concludes_deprovisionAll hw hw' hremoval⟩
  | tracked name value => exact ⟨_, w, d, .of_eval? hw.eval?_tracked, concludes_tracked hw⟩

/-- Every call is run to its end by a machine that has nothing else to do. -/
theorem run (c : RecordCall) (hp : p.issuance.dns.retries < 2 ^ 32) {m : Machine} (hm : m.IsIdle)
    (hprogram : m.program = p.program) (hw : Ledger m.world d) (hc : ∀ h ∈ c.given, d.Knows h) :
    ∃ reply m' d', m.run (c.program p.issuance.dns) = (some reply, m') ∧ m'.IsIdle ∧
      m'.program = p.program ∧ c.Concludes m.world d reply m'.world d' := by
  obtain ⟨reply, w', d', hyields, hconcludes⟩ := c.yields hp hw hc
  obtain ⟨m', hrun, hidle, rfl, hprogram'⟩ := Machine.run_of_yields hm (hprogram ▸ hyields)
  exact ⟨reply, m', d', hrun, hidle, hprogram'.trans hprogram, hconcludes⟩

end RecordCall

/-! ### Calls one after the other -/

/-- Calls one after the other have led to a machine and have returned these handles. -/
inductive RecordHistory (p : RenewalPractice) : Machine → List DnsHandle → Prop
  | start {w : World} {d : MemoryDns} (dns : w.dns = .memory d) (entries : d.entries = [])
    (slots : w.slots = {}) : RecordHistory p { world := w, program := p.program } []
  /-- Between calls, neither records nor slots change, and no id is given out. -/
  | meanwhile {m : Machine} {hs : List DnsHandle} {w : World} {d d' : MemoryDns}
    (before : RecordHistory p m hs) (dns : m.world.dns = .memory d) (dns' : w.dns = .memory d')
    (slots : w.slots = m.world.slots) (entries : d'.entries = d.entries) (made : d'.made = d.made) :
    RecordHistory p (m.within w) hs
  | call {m m' : Machine} {hs : List DnsHandle} {c : RecordCall} {reply : c.Reply}
    (before : RecordHistory p m hs) (given : c.given ⊆ hs)
    (run : m.run (c.program p.issuance.dns) = (some reply, m')) :
    RecordHistory p m' (hs ++ c.returned reply)

namespace RecordHistory

variable {p : RenewalPractice} {m : Machine} {hs : List DnsHandle}

/-- Between calls the machine has nothing to do, and the ledger is in order. -/
structure InOrder (p : RenewalPractice) (m : Machine) (hs : List DnsHandle) (d : MemoryDns) :
    Prop where
  idle : m.IsIdle
  program : m.program = p.program
  ledger : Ledger m.world d
  knows : ∀ h ∈ hs, d.Knows h

theorem isIdle_start {w : World} {program : Job → Steward Outcome} :
    Machine.IsIdle { world := w, program } :=
  ⟨rfl, rfl, rfl, rfl, ⟨_, rfl, rfl, rfl⟩, fun f fiber hf => by
    cases f with
    | zero =>
      cases hf
      exact ⟨_, rfl⟩
    | succ f => simp at hf⟩

theorem ledger_start {w : World} {d : MemoryDns} (hdns : w.dns = .memory d)
    (hentries : d.entries = []) (hslots : w.slots = {}) : Ledger w d where
  dns := hdns
  rests := by
    rw [hslots]
    exact MutexTable.rests_empty
  contents := by
    rw [hslots, hentries]
    rfl
  ids := by
    rw [hentries]
    exact List.nodup_nil
  made e he := by
    rw [hentries] at he
    cases he

/-- Whatever comes of the calls, everything is in order after each of them. -/
theorem inOrder (hp : p.issuance.dns.retries < 2 ^ 32) (h : RecordHistory p m hs) :
    ∃ d, InOrder p m hs d := by
  induction h with
  | start dns entries slots =>
    exact ⟨_, isIdle_start, rfl, ledger_start dns entries slots, fun _ hh =>
      absurd hh List.not_mem_nil⟩
  | meanwhile _ dns dns' slots entries made ih =>
    obtain ⟨d, hd⟩ := ih
    obtain rfl : _ = d := DnsService.memory.inj (dns.symm.trans hd.ledger.dns)
    exact ⟨_, hd.idle.within _, hd.program, hd.ledger.congr dns' slots entries made,
      fun h hh => (hd.knows h hh).congr entries made⟩
  | call _ given hrun ih =>
    rename_i c reply _
    obtain ⟨d, hd⟩ := ih
    obtain ⟨reply', m', d', hrun', hidle, hprogram, hc⟩ :=
      c.run hp hd.idle hd.program hd.ledger fun h hh => hd.knows h (given hh)
    rw [hrun] at hrun'
    cases hrun'
    refine ⟨d', hidle, hprogram, hc.ledger, fun h hh => ?_⟩
    exact (List.mem_append.mp hh).elim (fun hh => hc.knows h (hd.knows h hh)) (hc.returns h)

/-- After any calls, and whatever failures were asked for, records and slots are one for one: every
record has the slot of its key, which remembers its id, and every slot is that of a record. The next
call has a result that fits the records, and does to them what it should and nothing else. How often
a failed call is tried again is counted in 32 bits. -/
theorem records_match_slots (hp : p.issuance.dns.retries < 2 ^ 32) (h : RecordHistory p m hs) :
    ∃ d, m.world.dns = .memory d ∧
      m.world.slots.contents = d.entries.map (fun e => (e.key, some (some e.id))) ∧
      (d.entries.map (·.key)).Nodup ∧
      ∀ c : RecordCall, c.given ⊆ hs →
        ∃ reply m' d', m.run (c.program p.issuance.dns) = (some reply, m') ∧
          m'.world.dns = .memory d' ∧
          m'.world.slots.contents = d'.entries.map (fun e => (e.key, some (some e.id))) ∧
          (d'.entries.map (·.key)).Nodup ∧ c.Does m.world d reply m'.world d' := by
  obtain ⟨d, hd⟩ := inOrder hp h
  refine ⟨d, hd.ledger.dns, hd.ledger.contents, hd.ledger.keys_nodup, fun c hc => ?_⟩
  obtain ⟨reply, m', d', hrun, -, -, hcall⟩ :=
    c.run hp hd.idle hd.program hd.ledger fun h hh => hd.knows h (hc hh)
  exact ⟨reply, m', d', hrun, hcall.ledger.dns, hcall.ledger.contents, hcall.ledger.keys_nodup,
    hcall.does⟩

/-- Surroundings in which no call was made. -/
def sampleSurroundings : World :=
  { wall := { seconds := 0, nanos := 0 }, seed := [], authority := .remote (.make "" none) }

theorem start_sample :
    RecordHistory {} { world := sampleSurroundings, program := RenewalPractice.program {} } [] :=
  .start rfl rfl rfl

/-- A record is made, the service is told not to refuse anything, and the record is removed. -/
theorem records_match_slots_made_and_removed :
    ∃ (h : DnsHandle) (m₁ : Machine) (d₁ : MemoryDns) (m₂ : Machine),
      Machine.run (DnsPractice.provision "_acme-challenge.Example.com" "digest").run
        { world := sampleSurroundings, program := RenewalPractice.program {} } =
          (some (some (.ok h)), m₁) ∧
      Machine.run (DnsPractice.deprovision {} h) (m₁.within
        { m₁.world with dns := .memory { d₁ with failsDeletes := false } }) =
          (some (.ok ()), m₂) ∧
      m₂.world.slots.contents = [] := by
  have hp : ({} : RenewalPractice).issuance.dns.retries < 2 ^ 32 := by decide
  obtain ⟨d, hdns, -, -, hcalls⟩ := records_match_slots hp start_sample
  obtain rfl : {} = d := DnsService.memory.inj hdns
  obtain ⟨reply, m₁, d₁, hmade, hdns₁, -, -, hdoes₁⟩ :=
    hcalls (.provision "_acme-challenge.Example.com" "digest") (List.nil_subset _)
  obtain ⟨e, -, hdisturbed, -⟩ | ⟨id, rfl, -, hentries₁⟩ := hdoes₁
  · exact absurd hdisturbed (by decide)
  have hhistory := (start_sample.call (List.nil_subset _) hmade).meanwhile hdns₁
    (w := { m₁.world with dns := .memory { d₁ with failsDeletes := false } }) rfl rfl rfl rfl
  obtain ⟨d, hdns, -, -, hcalls⟩ := records_match_slots hp hhistory
  obtain rfl : { d₁ with failsDeletes := false } = d := DnsService.memory.inj hdns
  obtain ⟨reply, m₂, d₂, hremoved, -, hslots₂, -, rfl, hentries₂⟩ :=
    hcalls (.deprovision { name := "_acme-challenge.Example.com", value := "digest", id })
      (List.Subset.refl _)
  refine ⟨_, m₁, d₁, m₂, hmade, hremoved, ?_⟩
  rw [hslots₂, hentries₂]
  change ((List.filter _ d₁.entries).map _) = []
  rw [hentries₁]
  simp [MemoryDns.Entry.key, DnsHandle.key, slotKey]

end RecordHistory

end CertSteward
