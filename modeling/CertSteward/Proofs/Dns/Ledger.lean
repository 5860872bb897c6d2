import CertSteward.Proofs.Dns.Making

/-!
# The ledger of challenge records

Over records in memory, and between calls, the slots are a ledger of the records: every record has
the slot of its key, which remembers its id, and there is no other slot. What a call does can then
be read off the records, and the ledger is kept whatever comes of the call.

A handle that was given out may be stale: its record is gone, and there may be another one with the
same key by now. But ids are never given twice, so that no handle leads to a record with another
key.

## Main definitions

* `Ledger` — the slots are those of the records
* `MemoryDns.Knows` — a handle that was given out
* `MemoryDns.Removal` — what calls to remove records come to

## Main results

* `Ledger.eval?_tracked`, `Ledger.eval?_provision`, `Ledger.yields_provision` — to look for a
  record, and to ask for one that is there or not
* `Ledger.eval?_deprovision`, `Ledger.yields_deprovisionAll` — to remove records
-/

namespace CertSteward

namespace MemoryDns

/-- The record with a key, if there is one. -/
def entryAt? (d : MemoryDns) (k : SlotKey) : Option Entry := d.entries.find? (·.key = k)

/-- A handle is that of a record that was made, and of no record with another key. -/
structure Knows (d : MemoryDns) (h : DnsHandle) : Prop where
  made : ∃ n ≤ d.made, h.id = recordId n
  key : ∀ e ∈ d.entries, e.id = h.id → e.key = h.key

/-- What calls to remove the records with some keys come to. -/
structure Removal (d : MemoryDns) (keys : List SlotKey) (d' : MemoryDns) : Prop where
  made : d'.made = d.made
  failsDeletes : d'.failsDeletes = d.failsDeletes
  entries : d'.entries = if d.failsDeletes then d.entries else d.entries.filter (·.key ∉ keys)

variable {d d' d'' : MemoryDns} {h : DnsHandle} {keys keys' : List SlotKey}

theorem Knows.congr (hh : d.Knows h) (entries : d'.entries = d.entries) (made : d'.made = d.made) :
    d'.Knows h where
  made := by
    rw [made]
    exact hh.made
  key := by
    rw [entries]
    exact hh.key

theorem Removal.subset (hd : d.Removal keys d') : d'.entries ⊆ d.entries := by
  rw [hd.entries]
  split
  · exact List.Subset.refl _
  · exact List.filter_sublist.subset

theorem Removal.knows (hd : d.Removal keys d') (hh : d.Knows h) : d'.Knows h where
  made := by
    rw [hd.made]
    exact hh.made
  key e he := hh.key e (hd.subset he)

theorem removal_nil : d.Removal [] d where
  made := rfl
  failsDeletes := rfl
  entries := by simp

theorem Removal.append (hd : d.Removal keys d') (hd' : d'.Removal keys' d'') :
    d.Removal (keys ++ keys') d'' where
  made := hd'.made.trans hd.made
  failsDeletes := hd'.failsDeletes.trans hd.failsDeletes
  entries := by
    rw [hd'.entries, hd.entries, hd.failsDeletes]
    split
    · rfl
    · rw [List.filter_filter]
      refine List.filter_congr fun e _ => ?_
      simp [Bool.and_comm]

/-- By a handle whose record is gone, nothing is deleted. -/
theorem filter_of_not_mem (hk : h.key ∉ d.entries.map (·.key)) (hh : d.Knows h) :
    d.entries.filter (fun e => !(e.name = Text.lower h.name ∧ e.id = h.id)) =
      d.entries.filter (·.key ∉ [h.key]) := by
  refine List.filter_congr fun e he => ?_
  have hkey : e.key ≠ h.key := fun heq => hk (heq ▸ List.mem_map_of_mem he)
  have hid : e.id ≠ h.id := fun heq => hkey (hh.key e he heq)
  simp [hkey, hid]

variable {name value id : String}

/-- A try to make a record gives out no id twice. -/
theorem Attempt.knows {result : Except DnsError String} (hd : d.Attempt name value result d')
    (hh : d.Knows h) : d'.Knows h := by
  cases hd with
  | failed _ entries made => exact hh.congr entries made
  | done entries made =>
    obtain ⟨n, hn, hid⟩ := hh.made
    refine ⟨⟨n, ?_, hid⟩, fun e he heq => ?_⟩
    · rw [made]
      exact Nat.le_succ_of_le hn
    · rw [entries] at he
      obtain he | he := List.mem_append.mp he
      · exact hh.key e he heq
      · rw [List.mem_singleton.mp he, hid] at heq
        have := recordId_injective heq
        omega

theorem delete_of_fails (hd : d.failsDeletes = true) (name id : String) : d.delete name id =
    (.error (.recordDeletion id "injected failure"), { d with deletes := d.deletes + 1 }) := by
  rw [delete]
  simp only [hd, if_true]

theorem delete_of_not_fails (hd : d.failsDeletes = false) (name id : String) : d.delete name id =
    (.ok (), { d with
      deletes := d.deletes + 1
      entries := d.entries.filter fun e => !(e.name = Text.lower name ∧ e.id = id) }) := by
  rw [delete]
  simp only [hd, Bool.false_eq_true, if_false]

/-- A call to delete a record is refused, or the record goes. -/
theorem removal_delete
    (hsame : d.entries.filter (fun e => !(e.name = Text.lower name ∧ e.id = id)) =
      d.entries.filter (·.key ∉ keys)) :
    d.Removal keys (d.delete name id).2 ∧ (d.delete name id).1.isOk = !d.failsDeletes := by
  cases hd : d.failsDeletes with
  | true =>
    rw [delete_of_fails hd]
    exact ⟨⟨rfl, rfl, (if_pos hd).symm⟩, rfl⟩
  | false =>
    rw [delete_of_not_fails hd]
    exact ⟨⟨rfl, rfl, hsame.trans (if_neg (by rw [hd]; exact Bool.false_ne_true)).symm⟩, rfl⟩

end MemoryDns

/-- The slots are those of the records, and nobody uses one. -/
structure Ledger (w : World) (d : MemoryDns) : Prop where
  dns : w.dns = .memory d
  rests : w.slots.Rests
  contents : w.slots.contents = d.entries.map fun e => (e.key, some (some e.id))
  ids : (d.entries.map (·.id)).Nodup
  made : ∀ e ∈ d.entries, ∃ n ≤ d.made, e.id = MemoryDns.recordId n

namespace Ledger

variable {w : World} {d : MemoryDns} {e : MemoryDns.Entry} {k : SlotKey} {name value : String}
variable {h : DnsHandle}

/-- Other surroundings with the same slots and records have the same ledger. -/
theorem congr (hw : Ledger w d) {w' : World} {d' : MemoryDns} (dns : w'.dns = .memory d')
    (slots : w'.slots = w.slots) (entries : d'.entries = d.entries) (made : d'.made = d.made) :
    Ledger w' d' where
  dns := dns
  rests := slots ▸ hw.rests
  contents := by
    rw [slots, entries]
    exact hw.contents
  ids := by
    rw [entries]
    exact hw.ids
  made := by
    rw [entries, made]
    exact hw.made

theorem keys (hw : Ledger w d) : w.slots.index.map (·.1) = d.entries.map (·.key) := by
  rw [← MutexTable.keys_contents, hw.contents, List.map_map]
  rfl

theorem keys_nodup (hw : Ledger w d) : (d.entries.map (·.key)).Nodup :=
  hw.keys ▸ hw.rests.keys

/-- A record that is there has a slot, which remembers its id. -/
theorem lookup_of_mem (hw : Ledger w d) (he : e ∈ d.entries) :
    ∃ c, w.slots.index.lookup e.key = some c ∧ w.slots.value? c = some (some e.id) := by
  cases hc : w.slots.index.lookup e.key with
  | none =>
    rw [MutexTable.lookup_eq_none_iff, hw.keys] at hc
    exact absurd (List.mem_map_of_mem he) hc
  | some c =>
    obtain ⟨v, hv, hmem⟩ := hw.rests.value hc
    rw [hw.contents] at hmem
    obtain ⟨e', he', heq⟩ := List.mem_map.mp hmem
    obtain ⟨hkey, hid⟩ := Prod.mk.inj heq
    obtain rfl := List.inj_on_of_nodup_map hw.keys_nodup he' he hkey
    exact ⟨c, rfl, hv.trans hid.symm⟩

theorem lookup_of_not_mem (hw : Ledger w d) (hk : k ∉ d.entries.map (·.key)) :
    w.slots.index.lookup k = none := by
  rw [MutexTable.lookup_eq_none_iff, hw.keys]
  exact hk

theorem entryAt?_of_mem (hw : Ledger w d) (he : e ∈ d.entries) : d.entryAt? e.key = some e := by
  obtain ⟨e', he'⟩ : ∃ e', d.entryAt? e.key = some e' :=
    Option.isSome_iff_exists.mp (List.find?_isSome.mpr ⟨e, he, decide_eq_true rfl⟩)
  have hkey : e'.key = e.key := by
    rw [MemoryDns.entryAt?] at he'
    simpa using List.find?_some he'
  rw [he', List.inj_on_of_nodup_map hw.keys_nodup (List.mem_of_find?_eq_some he') he hkey]

/-- The handle of a record that is there. -/
theorem knows_of_mem (hw : Ledger w d) (he : e ∈ d.entries) {h : DnsHandle} (hk : e.key = h.key)
    (hid : h.id = e.id) : d.Knows h where
  made := by
    rw [hid]
    exact hw.made e he
  key e' he' heq := by
    rw [List.inj_on_of_nodup_map hw.ids he' he (heq.trans hid)]
    exact hk

theorem id_ne (hw : Ledger w d) (he : e ∈ d.entries) : e.id ≠ MemoryDns.recordId (d.made + 1) := by
  obtain ⟨n, hn, hid⟩ := hw.made e he
  intro heq
  have := MemoryDns.recordId_injective (hid.symm.trans heq)
  omega

/-- A key has a record or none. -/
theorem entryAt?_cases (hw : Ledger w d) (k : SlotKey) :
    (∃ e ∈ d.entries, e.key = k ∧ d.entryAt? k = some e) ∨
      (k ∉ d.entries.map (·.key) ∧ d.entryAt? k = none) := by
  by_cases hk : k ∈ d.entries.map (·.key)
  · obtain ⟨e, he, rfl⟩ := List.mem_map.mp hk
    exact .inl ⟨e, he, rfl, hw.entryAt?_of_mem he⟩
  · refine .inr ⟨hk, List.find?_eq_none.mpr fun e he hkey => hk ?_⟩
    exact List.mem_map.mpr ⟨e, he, of_decide_eq_true hkey⟩

end Ledger

/-! ### One call at a time -/

section Slots

variable {w : World} {t : MutexTable SlotKey (Option String)} {c : Nat} {k : SlotKey}

theorem eval?_find_of_some (h : w.slots.index.lookup k = some c) :
    w.eval? (slotStep (.find k)) = some (some c, w.withSlots (w.slots.share c)) := by
  refine World.eval?_slotStep ?_
  rw [MutexTable.apply, MutexTable.find_of_some h]

theorem eval?_find_of_none (h : w.slots.index.lookup k = none) :
    w.eval? (slotStep (.find k)) = some (none, w) := by
  refine World.eval?_slotStep ?_
  rw [MutexTable.apply, MutexTable.find_of_none h]

theorem eval?_obtain_of_some (h : w.slots.index.lookup k = some c) :
    w.eval? (slotStep (.obtain k)) = some (c, w.withSlots (w.slots.share c)) := by
  refine World.eval?_slotStep ?_
  rw [MutexTable.apply, MutexTable.obtain_of_some h]

theorem eval?_enter (h : t.Rests) : (w.withSlots (t.share c)).eval? (await (.slot c)).run =
    some (some (), w.withSlots (t.take c)) := by
  have hfree : (w.withSlots (t.share c)).slots.isHeld c = false :=
    MutexTable.isHeld_share.trans h.isHeld
  refine ((World.eval?_perform _).trans (World.reply?_slot hfree)).trans ?_
  exact congrArg (fun t => some (some (), w.withSlots t)) MutexTable.modify_share

theorem eval?_look : (w.withSlots (t.take c)).eval? (slotStep (.value c)) =
    some (t.value? c, w.withSlots (t.take c)) := by
  exact congrArg (fun v => some (v, w.withSlots (t.take c))) MutexTable.value?_take

theorem eval?_exit (h : t.Rests) : (w.withSlots (t.take c)).eval? (slotStep (.leave c)) =
    some ((), w.withSlots (t.share c)) := by
  refine (World.eval?_leave h.line_take).trans ?_
  exact congrArg (fun t => some ((), w.withSlots t)) h.modify_take

theorem eval?_drop (h : t.Rests) : (w.withSlots (t.share c)).eval? (slotStep (.release c)) =
    some ((), w.withSlots t) := by
  exact congrArg (fun t => some ((), w.withSlots t)) h.release_share

end Slots

namespace Ledger

variable {w : World} {d : MemoryDns} {e : MemoryDns.Entry} {k : SlotKey} {name value : String}
variable {h : DnsHandle}

/-- To look for a record changes nothing. -/
theorem eval?_tracked (hw : Ledger w d) : w.eval? (DnsPractice.tracked name value) =
    some ((d.entryAt? (slotKey name value)).map fun e => { name, value, id := e.id }, w) := by
  obtain ⟨e, he, hk, hentry⟩ | ⟨hk, hentry⟩ := hw.entryAt?_cases (slotKey name value)
  · obtain ⟨c, hc, hvalue⟩ := hw.lookup_of_mem he
    have hin : (w.withSlots (w.slots.share c)).eval? (DnsPractice.recordIn c).run =
        some (some (some e.id), w.withSlots (w.slots.share c)) := by
      rw [DnsPractice.recordIn, World.eval?_run_bind_of (eval?_enter hw.rests),
        World.eval?_run_bind_of (World.eval?_run_lift eval?_look),
        World.eval?_run_bind_of (World.eval?_run_lift (eval?_exit hw.rests)), hvalue]
      rfl
    rw [DnsPractice.tracked, World.eval?_bind_of (eval?_find_of_some (hk ▸ hc)), hentry]
    exact (World.eval?_bind_of hin).trans (World.eval?_bind_of (eval?_drop hw.rests))
  · rw [DnsPractice.tracked, hentry,
      World.eval?_bind_of (eval?_find_of_none (hw.lookup_of_not_mem hk))]
    rfl

/-- To ask for a record that is there changes nothing either. -/
theorem eval?_provision (hw : Ledger w d) (he : e ∈ d.entries) (hk : e.key = slotKey name value) :
    w.eval? (DnsPractice.provision name value).run =
      some (some (.ok { name, value, id := e.id }), w) := by
  obtain ⟨c, hc, hvalue⟩ := hw.lookup_of_mem he
  have hin : (w.withSlots (w.slots.share c)).eval? (DnsPractice.provisionIn c name value).run =
      some (some (.ok { name, value, id := e.id }), w.withSlots (w.slots.share c)) := by
    rw [DnsPractice.provisionIn, World.eval?_run_bind_of (eval?_enter hw.rests),
      World.eval?_run_bind_of (World.eval?_run_lift eval?_look), hvalue]
    exact World.eval?_run_bind_of (World.eval?_run_lift (eval?_exit hw.rests))
  rw [DnsPractice.provision, World.eval?_bind_of (eval?_obtain_of_some (hk ▸ hc))]
  exact (World.eval?_bind_of hin).trans (World.eval?_bind_of (eval?_drop hw.rests))

/-- To ask for a record that is not there fails as asked, or makes it. -/
theorem yields_provision (hw : Ledger w d) (hk : slotKey name value ∉ d.entries.map (·.key))
    {p : RenewalPractice} (hp : p.issuance.dns.retries < 2 ^ 32) :
    ∃ result w' d', Yields p.program (DnsPractice.provision name value).run w
        (some (result.map fun id => { name, value, id })) w' ∧ Ledger w' d' ∧
      d.Attempt name value result d' := by
  obtain ⟨result, w', d', hyields, hdns, hslots, hattempt⟩ :=
    CertSteward.yields_provision (q := p) hw.dns (hw.lookup_of_not_mem hk) hp
  rw [← hw.keys] at hk
  refine ⟨result, w', d', hyields, ?_, hattempt⟩
  cases hattempt with
  | failed _ entries made =>
    refine ⟨hdns, ?_, ?_, ?_, ?_⟩
    · rw [hslots]
      exact (hw.rests.extend hk).remove
    · rw [hslots, entries, ← hw.contents]
      exact MutexTable.contents_extend_remove hw.rests hk
    · rw [entries]
      exact hw.ids
    · rw [entries, made]
      exact hw.made
  | done entries made =>
    refine ⟨hdns, ?_, ?_, ?_, ?_⟩
    · rw [hslots]
      exact hw.rests.extend hk
    · rw [hslots, entries, List.map_append, ← hw.contents]
      exact MutexTable.contents_extend hw.rests
    · rw [entries, List.map_append]
      refine List.nodup_append.mpr ⟨hw.ids, List.nodup_singleton _, fun a ha b hb => ?_⟩
      obtain ⟨e, he, rfl⟩ := List.mem_map.mp ha
      rw [List.mem_singleton.mp hb]
      exact hw.id_ne he
    · rw [entries, made]
      intro e he
      obtain he | he := List.mem_append.mp he
      · obtain ⟨n, hn, hid⟩ := hw.made e he
        exact ⟨n, Nat.le_succ_of_le hn, hid⟩
      · exact ⟨d.made + 1, Nat.le_refl _, by rw [List.mem_singleton.mp he]⟩

/-! ### A record that is to go -/

/-- By the id of a record, that record is deleted and no other. -/
theorem filter_of_mem (hw : Ledger w d) (he : e ∈ d.entries) (hk : e.key = h.key) :
    d.entries.filter (fun e' => !(e'.name = Text.lower h.name ∧ e'.id = e.id)) =
      d.entries.filter (·.key ∉ [h.key]) := by
  refine List.filter_congr fun e' he' => ?_
  by_cases heq : e' = e
  · have hname : e.name = Text.lower h.name := congrArg Prod.fst hk
    simp [heq, hk, hname]
  · have hid : e'.id ≠ e.id := fun h => heq (List.inj_on_of_nodup_map hw.ids he' he h)
    have hkey : e'.key ≠ h.key := fun h =>
      heq (List.inj_on_of_nodup_map hw.keys_nodup he' he (h.trans hk.symm))
    simp [hid, hkey]

/-- The slot of a record that was deleted goes along with it. -/
theorem of_removal (hw : Ledger w d) {d' : MemoryDns} {c : Nat}
    (hc : w.slots.index.lookup k = some c) (hmade : d'.made = d.made)
    (hentries : d'.entries = d.entries.filter (·.key ∉ [k])) :
    Ledger { w with dns := .memory d', slots := (w.slots.put c none).remove k } d' where
  dns := rfl
  rests := hw.rests.put.remove
  contents := by
    refine (MutexTable.contents_modify_remove hw.rests hc).trans ?_
    rw [hw.contents, hentries, List.filter_map]
    refine congrArg _ (List.filter_congr fun e _ => ?_)
    by_cases hk : e.key = k <;> simp [hk]
  ids := by
    rw [hentries]
    exact hw.ids.sublist (List.filter_sublist.map _)
  made e he := by
    rw [hentries] at he
    rw [hmade]
    exact hw.made e (List.mem_filter.mp he).1

/-- To remove a record that is there succeeds unless the service refuses to. -/
theorem eval?_deprovision_of_mem (hw : Ledger w d) (he : e ∈ d.entries) (hk : e.key = h.key)
    (p : DnsPractice) :
    ∃ result w' d', w.eval? (p.deprovision h) = some (result, w') ∧ Ledger w' d' ∧
      d.Removal [h.key] d' ∧ result.isOk = !d.failsDeletes := by
  obtain ⟨c, hc, hvalue⟩ := hw.lookup_of_mem he
  rw [hk] at hc
  obtain ⟨hremoval, hok⟩ := MemoryDns.removal_delete (hw.filter_of_mem he hk)
  have hfind : w.eval? (slotStep (.find (slotKey h.name h.value))) =
      some (some c, w.withSlots (w.slots.share c)) := eval?_find_of_some hc
  let u : World := { w with dns := .memory (d.delete h.name e.id).2 }
  have hdelete (hfinal : ∀ e', (d.delete h.name e.id).1 = .error e' → e'.isRetryable = false) :
      (w.withSlots (w.slots.take c)).eval? (retry p.delays p.retries
        DnsError.isRetryable (liftM (perform (.dns (.delete h.name e.id))))).run =
        some (some (d.delete h.name e.id).1, u.withSlots (w.slots.take c)) :=
    World.eval?_retry (World.eval?_run_lift ((World.eval?_perform _).trans
      (World.reply?_delete (w := w.withSlots (w.slots.take c)) hw.dns h.name e.id))) hfinal
  cases hd : d.failsDeletes with
  | true =>
    have hentries : (d.delete h.name e.id).2.entries = d.entries := by
      rw [hremoval.entries, if_pos hd]
    refine ⟨_, u, _, ?_, hw.congr rfl rfl hentries hremoval.made, hremoval, hd ▸ hok⟩
    have hrefused := MemoryDns.delete_of_fails hd h.name e.id
    replace hdelete := hdelete (by rw [hrefused]; rintro e' ⟨⟩; rfl)
    have hin : (w.withSlots (w.slots.share c)).eval? (p.deprovisionIn c h).run =
        some (some (d.delete h.name e.id).1, u.withSlots (w.slots.share c)) := by
      rw [DnsPractice.deprovisionIn, World.eval?_run_bind_of (eval?_enter hw.rests),
        World.eval?_run_bind_of (World.eval?_run_lift eval?_look), hvalue]
      refine (World.eval?_run_bind_of hdelete).trans ?_
      rw [hrefused]
      exact World.eval?_run_bind_of (World.eval?_run_lift (eval?_exit hw.rests))
    rw [DnsPractice.deprovision, World.eval?_bind_of hfind]
    exact (World.eval?_bind_of hin).trans (World.eval?_bind_of (eval?_drop hw.rests))
  | false =>
    have hentries : (d.delete h.name e.id).2.entries = d.entries.filter (·.key ∉ [h.key]) := by
      rw [hremoval.entries, if_neg (by rw [hd]; exact Bool.false_ne_true)]
    refine ⟨_, _, _, ?_, hw.of_removal hc hremoval.made hentries, hremoval, hd ▸ hok⟩
    have hdeleted := MemoryDns.delete_of_not_fails hd h.name e.id
    replace hdelete := hdelete (by rw [hdeleted]; nofun)
    -- the slot is emptied before it is let go, and removed before it is given up
    let t := w.slots.put c none
    have ht : t.Rests := hw.rests.put
    have hput : (u.withSlots (w.slots.take c)).eval? (slotStep (.put c none)) =
        some ((), u.withSlots (t.take c)) :=
      congrArg (fun t => some ((), u.withSlots t)) MutexTable.put_take
    have hin : (w.withSlots (w.slots.share c)).eval? (p.deprovisionIn c h).run =
        some (some (d.delete h.name e.id).1, u.withSlots ((t.share c).remove h.key)) := by
      rw [DnsPractice.deprovisionIn, World.eval?_run_bind_of (eval?_enter hw.rests),
        World.eval?_run_bind_of (World.eval?_run_lift eval?_look), hvalue]
      refine (World.eval?_run_bind_of hdelete).trans ?_
      rw [hdeleted]
      exact (World.eval?_run_bind_of (World.eval?_run_lift hput)).trans
        ((World.eval?_run_bind_of (World.eval?_run_lift (eval?_exit ht))).trans
          (World.eval?_run_bind_of (World.eval?_run_lift World.eval?_remove)))
    have hrelease : (u.withSlots ((t.share c).remove h.key)).eval? (slotStep (.release c)) =
        some ((), u.withSlots (t.remove h.key)) :=
      congrArg (fun r => some ((), u.withSlots (MutexTable.remove r h.key))) ht.release_share
    rw [DnsPractice.deprovision, World.eval?_bind_of hfind]
    exact (World.eval?_bind_of hin).trans (World.eval?_bind_of hrelease)

/-- To remove a record succeeds unless the service refuses to, whether it is there or not. -/
theorem eval?_deprovision (hw : Ledger w d) (hh : d.Knows h) (p : DnsPractice) :
    ∃ result w' d', w.eval? (p.deprovision h) = some (result, w') ∧ Ledger w' d' ∧
      d.Removal [h.key] d' ∧ result.isOk = !d.failsDeletes := by
  obtain ⟨e, he, hk, -⟩ | ⟨hk, -⟩ := hw.entryAt?_cases h.key
  · exact hw.eval?_deprovision_of_mem he hk p
  · obtain ⟨hremoval, hok⟩ := MemoryDns.removal_delete (MemoryDns.filter_of_not_mem hk hh)
    have hfind : w.eval? (slotStep (.find (slotKey h.name h.value))) = some (none, w) :=
      eval?_find_of_none (hw.lookup_of_not_mem hk)
    refine ⟨_, { w with dns := .memory _ }, _, ?_, hw.congr rfl rfl ?_ hremoval.made, hremoval, hok⟩
    · rw [DnsPractice.deprovision, World.eval?_bind_of hfind]
      exact (World.eval?_perform _).trans (World.reply?_delete hw.dns h.name h.id)
    · rw [hremoval.entries]
      split
      · rfl
      · refine List.filter_eq_self.mpr fun e he => ?_
        have hkey : e.key ≠ h.key := fun heq => hk (heq ▸ List.mem_map_of_mem he)
        simp [hkey]

/-! ### Several records that are to go -/

/-- Records are removed one after the other, and either all calls are refused or none is. -/
theorem eval?_deprovisions (p : RenewalPractice) {hs : List DnsHandle} (hw : Ledger w d)
    (hh : ∀ h ∈ hs, d.Knows h) :
    ∃ os w' d', w.eval? ((hs.map Job.deprovision).mapM p.program) = some (os, w') ∧ Ledger w' d' ∧
      d.Removal (hs.map (·.key)) d' ∧
      os.countP (fun o => !(DnsPractice.resultOf o).isOk) =
        if d.failsDeletes then hs.length else 0 := by
  induction hs generalizing w d with
  | nil => exact ⟨[], w, d, rfl, hw, MemoryDns.removal_nil, by simp⟩
  | cons h hs ih =>
    obtain ⟨result, w₁, d₁, hfirst, hw₁, hremoval, hok⟩ :=
      hw.eval?_deprovision (hh h List.mem_cons_self) p.issuance.dns
    obtain ⟨os, w₂, d₂, hrest, hw₂, hremoval₂, hcount⟩ :=
      ih hw₁ fun h' hh' => hremoval.knows (hh h' (List.mem_cons_of_mem h hh'))
    refine ⟨.dns result :: os, w₂, d₂, ?_, hw₂, hremoval.append hremoval₂, ?_⟩
    · have hjob : w.eval? (p.program (.deprovision h)) = some (.dns result, w₁) :=
        World.eval?_bind_of hfirst
      rw [List.map_cons, List.mapM_cons, World.eval?_bind_of hjob, World.eval?_bind_of hrest]
      rfl
    · rw [List.countP_cons, hcount, hremoval.failsDeletes, List.length_cons]
      change _ + (if (!result.isOk) = true then 1 else 0) = _
      rw [hok, Bool.not_not]
      split <;> rfl

/-- To remove records touches records and slots only. -/
theorem yields_deprovisionAll_within (p : RenewalPractice) {hs : List DnsHandle} (hw : Ledger w d)
    (hh : ∀ h ∈ hs, d.Knows h) :
    ∃ w' d', Yields p.program (DnsPractice.deprovisionAll hs) w
        (if d.failsDeletes then hs.length else 0) w' ∧ Ledger w' d' ∧
      d.Removal (hs.map (·.key)) d' ∧ w' = { w with dns := w'.dns, slots := w'.slots } := by
  obtain ⟨os, w', d', heval, hw', hremoval, hcount⟩ := hw.eval?_deprovisions p hh
  refine ⟨w', d', ?_, hw', hremoval, World.eq_of_eval? heval⟩
  rw [← hcount]
  exact Yields.bind (.parts heval) (.of_eval? rfl)

theorem yields_deprovisionAll (p : RenewalPractice) {hs : List DnsHandle} (hw : Ledger w d)
    (hh : ∀ h ∈ hs, d.Knows h) :
    ∃ w' d', Yields p.program (DnsPractice.deprovisionAll hs) w
        (if d.failsDeletes then hs.length else 0) w' ∧ Ledger w' d' ∧
      d.Removal (hs.map (·.key)) d' := by
  obtain ⟨w', d', hyields, hw', hremoval, -⟩ := hw.yields_deprovisionAll_within p hh
  exact ⟨w', d', hyields, hw', hremoval⟩

end Ledger

end CertSteward
