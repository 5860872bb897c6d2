import CertSteward.Proofs.Run.Weave
import CertSteward.Proofs.Store.Refinement

/-!
# What a store held, and when

The log of a weave has all requests to the store in it, in the order in which they were answered. So
what a store held at any moment can be read off the log, if it is known what it held at the
beginning. Only a save that failed leaves a choice: the record may be there after all, perhaps with
another key.

Who was told of a record was told what the store held at that moment, and no other moment.

## Main definitions

* `MemoryStore.Serves` — what becomes of a store when it is asked
* `MemoryStore.After` — what becomes of it along a log
* `MemoryStore.follow` — the same, for a store that does not fail
* `CertificateRecord.latest` — what is in the place of a record after others were saved
* `Act.reads` — the records that an answer tells of

## Main results

* `MemoryStore.After.nodup` — there is never more than one record with a name
* `MemoryStore.After.origin` — what is there was there before or was saved
* `MemoryStore.After.load?_of_reads` — what was read is what was there
* `MemoryStore.After.eq_foldl`, `foldl_save` — what there is if nothing fails and nothing is removed
-/

namespace CertSteward

instance (q : StoreRequest) : DecidableEq q.Reply := by
  cases q <;> exact inferInstance

/-- Whether an answer says that the store failed. -/
def StoreRequest.isFault : (q : StoreRequest) → q.Reply → Bool
  | .save _, .error _ | .load _, .error _ | .list, .error _ | .delete _, .error _
  | .find _, .error _ | .resolve _, .error _ => true
  | _, _ => false

/-- The records that an answer tells of. -/
def Act.reads : (a : Act) → a.Answer → List CertificateRecord
  | .records .list, .ok rs => rs
  | .records (.load _), .ok r | .records (.find _), .ok r | .records (.resolve _), .ok r => r.toList
  | _, _ => []

/-- What is in the place of a record after others were saved, at most one with its name. -/
def CertificateRecord.latest (r : CertificateRecord) (rs : List CertificateRecord) :
    CertificateRecord :=
  (rs.find? fun s => s.id == r.id).getD r

namespace MemoryStore

/-- What becomes of a store when it is asked. A save that fails may have done all of its work but
for the key. -/
inductive Serves (m : MemoryStore) : (q : StoreRequest) → q.Reply → MemoryStore → Prop
  | done {q : StoreRequest} {reply : q.Reply} {m' : MemoryStore}
    (answers : (RecordStore.memory m).answer q = (reply, .memory m')) : Serves m q reply m'
  | failed {q : StoreRequest} {reply : q.Reply} (fault : q.isFault reply = true) : Serves m q reply m
  | partly {r : CertificateRecord} {e : StoreError} (key : PrivateKey) :
    Serves m (.save r) (.error e) (m.save { r with key })

/-- What becomes of a store along a log. -/
inductive After : MemoryStore → List Event → MemoryStore → Prop
  | start (m : MemoryStore) : After m [] m
  | served {m m' m'' : MemoryStore} {i run : Nat} {q : StoreRequest} {reply : q.Reply}
    {log : List Event} (serves : m.Serves q reply m') (rest : After m' log m'') :
    After m (⟨i, run, .records q, reply⟩ :: log) m''
  | other {m m' : MemoryStore} {e : Event} {log : List Event} (differs : ∀ q, e.act ≠ .records q)
    (rest : After m log m') : After m (e :: log) m'

variable {m m' m'' : MemoryStore} {log rest : List Event} {q : StoreRequest} {reply : q.Reply}
variable {r : CertificateRecord}

theorem after_append : After m (log ++ rest) m'' ↔ ∃ m', After m log m' ∧ After m' rest m'' := by
  constructor
  · intro h
    induction log generalizing m with
    | nil => exact ⟨m, .start m, h⟩
    | cons e log ih =>
      cases h with
      | served serves h =>
        obtain ⟨m', hlog, hrest⟩ := ih h
        exact ⟨m', .served serves hlog, hrest⟩
      | other differs h =>
        obtain ⟨m', hlog, hrest⟩ := ih h
        exact ⟨m', .other differs hlog, hrest⟩
  · rintro ⟨m', hlog, hrest⟩
    induction hlog with
    | start => exact hrest
    | served serves _ ih => exact .served serves (ih hrest)
    | other differs _ ih => exact .other differs (ih hrest)

/-- What becomes of a store along a log, if the answers are those of a store that does not fail. -/
def follow (m : MemoryStore) : List Event → Option MemoryStore
  | [] => some m
  | ⟨_, _, .records q, reply⟩ :: log =>
    match (RecordStore.memory m).answer q with
    | (answer, .memory m') => if answer = reply then m'.follow log else none
    | (_, .files _) => none
  | _ :: log => m.follow log

theorem after_of_follow (h : m.follow log = some m') : m.After log m' := by
  induction log generalizing m with
  | nil =>
    cases h
    exact .start _
  | cons e log ih =>
    obtain ⟨i, run, a, answer⟩ := e
    cases a with
    | records q =>
      rw [follow] at h
      split at h
      · rename_i hanswer
        split at h
        · rename_i heq
          subst heq
          exact .served (.done hanswer) (ih h)
        · cases h
      · cases h
    | _ => exact .other (by simp) (ih h)

theorem Serves.nodup (hm : (m.records.map (·.id)).Nodup) (h : m.Serves q reply m') :
    (m'.records.map (·.id)).Nodup := by
  cases h with
  | failed => exact hm
  | partly => exact nodup_put hm
  | done answers =>
    cases q with
    | save r =>
      cases answers
      exact nodup_put hm
    | delete id =>
      cases answers
      exact hm.sublist (List.filter_sublist.map _)
    | load | list | find | resolve =>
      cases answers
      exact hm

/-- There is never more than one record with a name. -/
theorem After.nodup (hm : (m.records.map (·.id)).Nodup) (h : m.After log m') :
    (m'.records.map (·.id)).Nodup := by
  induction h with
  | start => exact hm
  | served serves _ ih => exact ih (serves.nodup hm)
  | other _ _ ih => exact ih hm

theorem load?_save {id : String} :
    (m.save r).load? id = if r.id = id then some r else m.load? id := by
  have hput : ∀ rs : List CertificateRecord, (put r rs).find? (fun s => s.id = id) =
      if r.id = id then some r else rs.find? fun s => s.id = id := by
    intro rs
    induction rs with
    | nil => by_cases hid : r.id = id <;> simp [put, hid]
    | cons x rs ih =>
      by_cases hx : x.id = r.id
      · by_cases hid : r.id = id <;> simp [put, hx, hid]
      · by_cases hid : r.id = id
        · have hne : x.id ≠ id := fun h => hx (h.trans hid.symm)
          simp [put, hid, hne, ih]
        · simp [put, hx, List.find?_cons, ih, hid]
  exact hput m.records

theorem load?_delete {id x : String} :
    (m.delete id).2.load? x = if x = id then none else m.load? x := by
  rw [load?, delete]
  by_cases hx : x = id
  · rw [if_pos hx, List.find?_eq_none]
    rintro s hs
    have := (List.mem_filter.mp hs).2
    simp_all
  · rw [if_neg hx, List.find?_filter, load?]
    congr 1
    funext s
    by_cases hs : s.id = x <;> simp [hs, hx]

/-- What a store holds was there at the beginning, or was saved since, perhaps without its key. -/
theorem After.origin {id : String} (h : m.After log m') (hr : m'.load? id = some r) :
    m.load? id = some r ∨ ∃ e ∈ log, ∃ s key, e.act = .records (.save s) ∧ s.id = id ∧
      r = { s with key } := by
  induction h with
  | start => exact .inl hr
  | other _ _ ih =>
    obtain hold | ⟨e, he, hsaved⟩ := ih hr
    · exact .inl hold
    · exact .inr ⟨e, List.mem_cons_of_mem _ he, hsaved⟩
  | @served m m' m'' i run q reply log serves _ ih =>
    obtain hold | ⟨e, he, hsaved⟩ := ih hr
    · have hsave : ∀ {s : CertificateRecord} {key : PrivateKey}, q = .save s →
          (m.save { s with key }).load? id = some r → m.load? id = some r ∨
            ∃ e ∈ (⟨i, run, .records q, reply⟩ :: log : List Event), ∃ s key,
              e.act = .records (.save s) ∧ s.id = id ∧ r = { s with key } := by
        rintro s key rfl hload
        rw [load?_save] at hload
        split at hload
        · exact .inr ⟨_, List.mem_cons_self, s, key, rfl, ‹_›, (Option.some.inj hload).symm⟩
        · exact .inl hload
      cases serves with
      | failed => exact .inl hold
      | partly key => exact hsave rfl hold
      | done answers =>
        cases q with
        | save s =>
          cases answers
          exact hsave rfl hold
        | delete x =>
          cases answers
          replace hold : (m.delete x).2.load? id = some r := hold
          rw [load?_delete] at hold
          split at hold
          · cases hold
          · exact .inl hold
        | load | list | find | resolve =>
          cases answers
          exact .inl hold
    · exact .inr ⟨e, List.mem_cons_of_mem _ he, hsaved⟩

/-- What is neither saved nor removed stays as it is. -/
theorem After.load?_of_untouched {id : String} (h : m.After log m')
    (unsaved : ∀ e ∈ log, ∀ s, e.act = .records (.save s) → s.id ≠ id)
    (undeleted : ∀ e ∈ log, e.act ≠ .records (.delete id)) : m'.load? id = m.load? id := by
  induction h with
  | start => rfl
  | other _ _ ih =>
    exact ih (fun e he => unsaved e (List.mem_cons_of_mem _ he))
      fun e he => undeleted e (List.mem_cons_of_mem _ he)
  | @served m m' m'' i run q reply log serves _ ih =>
    rw [ih (fun e he => unsaved e (List.mem_cons_of_mem _ he))
      fun e he => undeleted e (List.mem_cons_of_mem _ he)]
    cases serves with
    | failed => rfl
    | partly key => rw [load?_save, if_neg (unsaved _ List.mem_cons_self _ rfl)]
    | done answers =>
      cases q with
      | save s =>
        cases answers
        rw [load?_save, if_neg (unsaved _ List.mem_cons_self s rfl)]
      | delete x =>
        cases answers
        have hne : id ≠ x := by
          rintro rfl
          exact undeleted _ List.mem_cons_self rfl
        exact load?_delete.trans (if_neg hne)
      | load | list | find | resolve =>
        cases answers
        rfl

/-- Records of which a store tells are in it. -/
theorem Serves.mem_of_reads (h : m.Serves q reply m') (hr : r ∈ (Act.records q).reads reply) :
    r ∈ m.records := by
  have hload : ∀ {id : String}, r ∈ m.load? id → r ∈ m.records := fun hr =>
    List.mem_of_find?_eq_some (Option.mem_def.mp hr)
  have hfind : ∀ {domain : String}, r ∈ CertificateRecord.newest?
      ((CertificateRecord.byAge m.records).filter fun r => r.primaryDomain = RecordStore.asked domain) →
      r ∈ m.records := fun hr =>
    CertificateRecord.mem_byAge.mp
      (List.mem_filter.mp (CertificateRecord.mem_of_newest? (Option.mem_def.mp hr))).1
  cases h with
  | failed fault =>
    cases q <;> cases reply <;>
      first | exact absurd fault Bool.false_ne_true | exact absurd hr List.not_mem_nil
  | partly => cases hr
  | done answers =>
    cases q with
    | save | delete => cases reply <;> cases hr
    | list =>
      cases answers
      exact CertificateRecord.mem_byAge.mp hr
    | load id =>
      cases answers
      exact hload (Option.mem_toList.mp hr)
    | find domain =>
      cases answers
      exact hfind (Option.mem_toList.mp hr)
    | resolve name =>
      cases answers
      cases hname : m.load? name with
      | some s =>
        simp only [RecordStore.resolve, RecordStore.load, hname, bind, Except.bind] at hr
        obtain rfl := Option.mem_some.mp (Option.mem_toList.mp hr)
        exact hload hname
      | none =>
        simp only [RecordStore.resolve, RecordStore.load, hname, bind, Except.bind] at hr
        exact hfind (Option.mem_toList.mp hr)

/-- A store that holds one record of each name does not tell of two in one answer. -/
theorem Serves.nodup_reads (hm : (m.records.map (·.id)).Nodup) (h : m.Serves q reply m') :
    (((Act.records q).reads reply).map (·.id)).Nodup := by
  cases q with
  | save | delete => cases reply <;> exact List.nodup_nil
  | load | find | resolve =>
    cases reply with
    | error => exact List.nodup_nil
    | ok r => cases r <;> simp [Act.reads]
  | list =>
    cases reply with
    | error => exact List.nodup_nil
    | ok rs =>
      cases h with
      | failed fault => cases fault
      | done answers =>
        cases answers
        exact ((List.mergeSort_perm m.records _).map _).nodup_iff.mpr hm

/-- **What was read is what was there** at that moment under its name. -/
theorem After.load?_of_reads {a : List Event} {e : Event} {b : List Event}
    (hm : (m.records.map (·.id)).Nodup) (h : m.After (a ++ e :: b) m'') (hr : r ∈ e.act.reads e.answer) :
    ∃ m', m.After a m' ∧ m'.After (e :: b) m'' ∧ m'.load? r.id = some r := by
  obtain ⟨m', hbefore, hafter⟩ := after_append.mp h
  refine ⟨m', hbefore, hafter, ?_⟩
  cases hafter with
  | served serves => exact load?_of_mem (hbefore.nodup hm) (serves.mem_of_reads hr)
  | other differs =>
    obtain ⟨i, run, a, answer⟩ := e
    cases a with
    | records q => exact absurd rfl (differs q)
    | _ => cases hr

/-! ### A store from which nothing is removed -/

theorem put_eq_map {r : CertificateRecord} {rs : List CertificateRecord}
    (nodup : (rs.map (·.id)).Nodup) (hr : r.id ∈ rs.map (·.id)) :
    put r rs = rs.map fun x => if x.id = r.id then r else x := by
  induction rs with
  | nil => cases hr
  | cons x rs ih =>
    obtain ⟨hx, hrest⟩ := List.nodup_cons.mp nodup
    rw [put, List.map_cons]
    by_cases hid : x.id = r.id
    · rw [if_pos hid, if_pos hid]
      refine congrArg (r :: ·) ?_
      refine (List.map_id' rs).symm.trans (List.map_congr_left fun y hy => (if_neg fun h => ?_).symm)
      exact hx (List.mem_map.mpr ⟨y, hy, h.trans hid.symm⟩)
    · rw [if_neg hid, if_neg hid, ih hrest ((List.mem_cons.mp hr).resolve_left (Ne.symm hid))]

/-- What there is after records were saved that have the names of others, if no two of them have one
name. -/
theorem foldl_save {rs : List CertificateRecord} (nodup : (m.records.map (·.id)).Nodup)
    (hrs : ∀ r ∈ rs, r.id ∈ m.records.map (·.id))
    (same : ∀ r ∈ rs, ∀ s ∈ rs, r.id = s.id → r = s) :
    rs.foldl save m = { m with records := m.records.map fun r => r.latest rs } := by
  induction rs generalizing m with
  | nil =>
    have hid : m.records.map (fun r => r.latest []) = m.records := List.map_id' m.records
    rw [List.foldl_nil, hid]
  | cons s rs ih =>
    have hsave : (m.save s).records = m.records.map fun x => if x.id = s.id then s else x :=
      put_eq_map nodup (hrs s List.mem_cons_self)
    have hids : (m.save s).records.map (·.id) = m.records.map (·.id) := by
      rw [hsave, List.map_map]
      refine List.map_congr_left fun x _ => ?_
      dsimp only [Function.comp]
      split
      · rename_i hx
        exact hx.symm
      · rfl
    rw [List.foldl_cons, ih (hids ▸ nodup) (fun r hr => hids ▸ hrs r (List.mem_cons_of_mem s hr))
      fun r hr s' hs' => same r (List.mem_cons_of_mem s hr) s' (List.mem_cons_of_mem s hs'), hsave,
      List.map_map]
    refine congrArg (fun l => { m with records := l }) (List.map_congr_left fun x _ => ?_)
    dsimp only [Function.comp]
    by_cases hx : x.id = s.id
    · rw [if_pos hx, CertificateRecord.latest, CertificateRecord.latest,
        List.find?_cons_of_pos (by simpa using hx.symm), Option.getD_some]
      cases hfind : rs.find? fun y => y.id == s.id with
      | none => rfl
      | some y =>
        have hy := List.find?_some hfind
        have hy : y.id = s.id := eq_of_beq hy
        exact same y (List.mem_cons_of_mem s (List.mem_of_find?_eq_some hfind)) s List.mem_cons_self hy
    · rw [if_neg hx, CertificateRecord.latest, CertificateRecord.latest,
        List.find?_cons_of_neg (by simpa using Ne.symm hx)]

end MemoryStore

/-- The record that a request saves. -/
def Act.saved? : Act → Option CertificateRecord
  | .records (.save r) => some r
  | _ => none

/-- Whether a record could not be saved. -/
def Event.failsToSave : Event → Bool
  | ⟨_, _, .records (.save _), .error _⟩ => true
  | _ => false

theorem Act.eq_of_saved? {a : Act} {r : CertificateRecord} (h : a.saved? = some r) :
    a = .records (.save r) := by
  unfold Act.saved? at h
  split at h
  · cases h
    rfl
  · cases h

theorem Event.failsToSave_of_saved? {e : Event} (h : e.act.saved? = none) :
    e.failsToSave = false := by
  unfold failsToSave
  split
  · cases h
  · rfl

/-- What becomes of a store in which every save succeeds and nothing is removed. -/
theorem MemoryStore.After.eq_foldl {m m' : MemoryStore} {log : List Event} (h : m.After log m')
    (saves : ∀ e ∈ log, e.failsToSave = false)
    (keeps : ∀ e ∈ log, ∀ id, e.act ≠ .records (.delete id)) :
    m' = (log.filterMap (·.act.saved?)).foldl save m := by
  induction h with
  | start => rfl
  | other differs _ ih =>
    rename_i e log _
    have hnone : e.act.saved? = none := by
      unfold Act.saved?
      split
      · rename_i hact
        exact absurd hact (differs _)
      · rfl
    rw [List.filterMap_cons, hnone]
    exact ih (fun e he => saves e (List.mem_cons_of_mem _ he))
      fun e he => keeps e (List.mem_cons_of_mem _ he)
  | @served m m' m'' i run q reply log serves _ ih =>
    have ih := ih (fun e he => saves e (List.mem_cons_of_mem _ he))
      fun e he => keeps e (List.mem_cons_of_mem _ he)
    have hsaves := saves _ List.mem_cons_self
    have hkeeps := keeps _ List.mem_cons_self
    rw [List.filterMap_cons, ih]
    cases q with
    | save r =>
      cases reply with
      | error => cases hsaves
      | ok =>
        have hm : m' = m.save r := by
          cases serves with
          | done answers =>
            cases answers
            rfl
          | failed fault => cases fault
        rw [hm]
        rfl
    | delete id => exact absurd rfl (hkeeps id)
    | load | list | find | resolve =>
      have hm : m' = m := by
        cases serves with
        | done answers =>
          cases answers
          rfl
        | failed => rfl
      rw [hm]
      rfl

end CertSteward
